import HexAtlas.Proofs.Markup.MarkedPieces
import HexAtlas.Proofs.Text.Bytes

namespace HexAtlas

theorem map_referencesFrom (place : Nat) (ps : List Piece) :
    (referencesFrom place ps).map (fun r => (r.kind, r.name)) = names ps := by
  induction ps generalizing place with
  | nil => rfl
  | cons piece rest ih =>
    cases piece with
    | plain text => exact ih _
    | name kind text => exact congrArg ((kind, text) :: ·) (ih _)

theorem names_mark (ending : List Char) (ps : List Piece) :
    names (ps.map (Piece.mark ending)) = (names ps).map fun (kind, name) => (kind, name ++ ending) := by
  induction ps with
  | nil => rfl
  | cons piece rest ih =>
    cases piece with
    | plain text => exact ih
    | name kind text => exact congrArg ((kind, text ++ ending) :: ·) ih

/-- Marked markup is made of the pieces of the joined markup, each with its mark. -/
theorem pieces_markNames {s : NameScope} (mark : IsMark s.ending.toList) (markup : List Char) :
    s.markNames markup = markedText s.ending.toList (pieces (joinTags markup)) ∧
      pieces (s.markNames markup) = (pieces (joinTags markup)).map (Piece.mark s.ending.toList) := by
  have text : s.markNames markup = markedText s.ending.toList (pieces (joinTags markup)) := by
    rw [markNames_eq_joinTags, pieces, joinTags_markedText mark, pieces]
  refine ⟨text, ?_⟩
  rw [text, pieces, pieces, piecesAfter_markedText mark]

theorem names_markNames {s : NameScope} (mark : IsMark s.ending.toList) (markup : List Char) :
    names (pieces (s.markNames markup)) =
      (names (pieces markup)).map fun (kind, name) => (kind, joinTags name ++ s.ending.toList) := by
  rw [(pieces_markNames mark markup).2, names_mark, pieces, names_joinTags, List.map_map]
  rfl

/-- A text without the characters that start in one of some ranges of bytes. The text itself starts at `place`. -/
def eraseBytes (ranges : List (Nat × Nat)) (place : Nat) : List Char → List Char
  | [] => []
  | c :: rest =>
    if ranges.any fun range => range.1 ≤ place && place < range.2 then eraseBytes ranges (place + c.utf8Size) rest
    else c :: eraseBytes ranges (place + c.utf8Size) rest

theorem eraseBytes_append (ranges : List (Nat × Nat)) (place : Nat) (front back : List Char) :
    eraseBytes ranges place (front ++ back) =
      eraseBytes ranges place front ++ eraseBytes ranges (place + byteCount front) back := by
  induction front generalizing place with
  | nil => rfl
  | cons c rest ih =>
    simp only [List.cons_append, eraseBytes, ih, byteCount_cons, Nat.add_assoc]
    split <;> rfl

theorem eraseBytes_outside {ranges : List (Nat × Nat)} {place : Nat} {cs : List Char}
    (outside : ∀ range ∈ ranges, range.2 ≤ place ∨ place + byteCount cs ≤ range.1) :
    eraseBytes ranges place cs = cs := by
  induction cs generalizing place with
  | nil => rfl
  | cons c rest ih =>
    have size := c.utf8Size_pos
    simp only [byteCount_cons] at outside
    have kept : (ranges.any fun range => range.1 ≤ place && place < range.2) = false := by
      rw [List.any_eq_false]
      intro range member
      have := outside range member
      simp only [Bool.and_eq_true, decide_eq_true_eq]
      omega
    have later : ∀ range ∈ ranges, range.2 ≤ place + c.utf8Size ∨
      place + c.utf8Size + byteCount rest ≤ range.1 := by
      intro range member
      have := outside range member
      omega
    rw [eraseBytes, kept, ih later]
    rfl

theorem eraseBytes_inside {ranges : List (Nat × Nat)} {place : Nat} {cs : List Char} {range : Nat × Nat}
    (member : range ∈ ranges) (start : range.1 ≤ place) (stop : place + byteCount cs ≤ range.2) :
    eraseBytes ranges place cs = [] := by
  induction cs generalizing place with
  | nil => rfl
  | cons c rest ih =>
    have size := c.utf8Size_pos
    rw [byteCount_cons] at stop
    have gone : (ranges.any fun range => range.1 ≤ place && place < range.2) = true :=
      List.any_eq_true.mpr ⟨range, member, by simp only [Bool.and_eq_true, decide_eq_true_eq]; omega⟩
    rw [eraseBytes, gone, if_pos rfl, ih (by omega) (by omega)]

/-- The last `width` bytes of every name. -/
def endingRanges (width : Nat) (refs : List Reference) : List (Nat × Nat) :=
  refs.map fun r => (r.stop - width, r.stop)

/-- The places of the marks in the text of marked pieces that starts at `place`. -/
def markRanges (ending : List Char) (place : Nat) (ps : List Piece) : List (Nat × Nat) :=
  endingRanges (byteCount ending) (referencesFrom place (ps.map (Piece.mark ending)))

theorem markRanges_plain (ending : List Char) (place : Nat) (text : List Char) (ps : List Piece) :
    markRanges ending place (.plain text :: ps) = markRanges ending (place + byteCount text) ps := rfl

theorem markRanges_name (ending : List Char) (place : Nat) (kind : ReferenceKind) (text : List Char)
    (ps : List Piece) :
    markRanges ending place (.name kind text :: ps) =
      (place + byteCount text, place + byteCount text + byteCount ending) ::
        markRanges ending (place + byteCount text + byteCount ending) ps := by
  have stop : place + byteCount (text ++ ending) = place + byteCount text + byteCount ending := by
    rw [byteCount_append]
    omega
  simp only [markRanges, endingRanges, List.map_cons, Piece.mark, referencesFrom, stop, Nat.add_sub_cancel]

theorem le_of_mem_markRanges {ending : List Char} {ps : List Piece} {place : Nat} {range : Nat × Nat}
    (h : range ∈ markRanges ending place ps) : place ≤ range.1 := by
  induction ps generalizing place with
  | nil => cases h
  | cons piece rest ih =>
    cases piece with
    | plain text =>
      have later := ih h
      omega
    | name kind text =>
      rw [markRanges_name] at h
      rcases List.mem_cons.mp h with rfl | member
      · exact Nat.le_add_right ..
      · have later := ih member
        omega

/-- Erasing the mark of every name from the text of marked pieces gives back the text of the pieces. Ranges that end
before the pieces do not matter. -/
theorem eraseBytes_markedText (ending : List Char) (ps : List Piece) (place : Nat) {earlier : List (Nat × Nat)}
    (done : ∀ range ∈ earlier, range.2 ≤ place) :
    eraseBytes (earlier ++ markRanges ending place ps) place (markedText ending ps) = ps.flatMap Piece.text := by
  induction ps generalizing place earlier with
  | nil => rfl
  | cons piece rest ih =>
    cases piece with
    | plain text =>
      -- Earlier marks have ended before the piece, and later ones begin after it.
      have outside : ∀ range ∈ earlier ++ markRanges ending (place + byteCount text) rest,
          range.2 ≤ place ∨ place + byteCount text ≤ range.1 := by
        intro range member
        rcases List.mem_append.mp member with old | new
        · exact Or.inl (done range old)
        · exact Or.inr (le_of_mem_markRanges new)
      have later := ih (place + byteCount text) fun range member => Nat.le_add_right_of_le (done range member)
      rw [markRanges_plain, markedText_plain, eraseBytes_append, eraseBytes_outside outside, later]
      rfl
    | name kind text =>
      let mark := (place + byteCount text, place + byteCount text + byteCount ending)
      have outside :
        ∀ range ∈ earlier ++ mark :: markRanges ending (place + byteCount text + byteCount ending) rest,
          range.2 ≤ place ∨ place + byteCount text ≤ range.1 := by
        intro range member
        rcases List.mem_append.mp member with old | new
        · exact Or.inl (done range old)
        · right
          rcases List.mem_cons.mp new with rfl | next
          · exact Nat.le_refl _
          · have := le_of_mem_markRanges next
            omega
      have inside : mark ∈ earlier ++ mark :: markRanges ending (place + byteCount text + byteCount ending) rest :=
        List.mem_append_right _ List.mem_cons_self
      have past : ∀ range ∈ earlier ++ [mark], range.2 ≤ place + byteCount text + byteCount ending := by
        intro range member
        rcases List.mem_append.mp member with old | new
        · have := done range old
          omega
        · exact Nat.le_of_eq (congrArg Prod.snd (List.mem_singleton.mp new))
      have later := ih _ past
      rw [List.append_assoc, List.singleton_append] at later
      rw [markRanges_name, markedText_name, eraseBytes_append, eraseBytes_outside outside, eraseBytes_append,
        eraseBytes_inside inside (Nat.le_refl _) (Nat.le_refl _), later]
      rfl

/-- What a map's names may end with after a dash. -/
structure IsToken (token : String) : Prop where
  nonempty : token ≠ ""
  chars : ∀ c ∈ token.toList, c.isLower = true ∨ c.isDigit = true ∨ c = '_'

theorem isToken_of_all {token : String}
    (h : (token != "" && token.toList.all fun c => c.isLower || c.isDigit || c = '_') = true) : IsToken token := by
  simp only [Bool.and_eq_true, bne_iff_ne, List.all_eq_true, Bool.or_eq_true, decide_eq_true_eq, or_assoc] at h
  exact ⟨h.1, h.2⟩

theorem NameScope.ending_ofInstance {token : String} (h : token ≠ "") :
    (NameScope.ofInstance token false).ending.toList = '-' :: token.toList := by
  have filled : token.isEmpty = false := by
    cases empty : token.isEmpty with
    | false => rfl
    | true => exact absurd (String.isEmpty_iff.mp empty) h
  simp [ofInstance, filled, ending]

theorem IsToken.isMark {token : String} (h : IsToken token) : IsMark ('-' :: token.toList) := by
  intro c member
  rcases List.mem_cons.mp member with rfl | letter
  · decide
  · rcases h.chars c letter with lower | digit | rfl
    · simp [isMarkChar, lower]
    · simp [isMarkChar, digit]
    · decide

/-- Marking markup with a token renames every name in it once and in its place: the names of the result are those of
the markup, joined and marked, and without the marks the result is the markup with its tags joined. -/
theorem references_markNames {token : String} (h : IsToken token) (markup : List Char) :
    let marked := (NameScope.ofInstance token false).markNames markup
    (references marked).map (fun r => (r.kind, r.name)) =
        (references markup).map (fun r => (r.kind, joinTags r.name ++ '-' :: token.toList)) ∧
      eraseBytes (endingRanges (byteCount ('-' :: token.toList)) (references marked)) 0 marked =
        joinTags markup := by
  have ending := NameScope.ending_ofInstance h.nonempty
  have mark : IsMark (NameScope.ofInstance token false).ending.toList := ending ▸ h.isMark
  obtain ⟨text, parts⟩ := pieces_markNames mark markup
  have named := names_markNames mark markup
  rw [ending] at text parts named
  constructor
  · rw [references, map_referencesFrom, named, ← map_referencesFrom 0, List.map_map]
    rfl
  · have erased := eraseBytes_markedText ('-' :: token.toList) (pieces (joinTags markup)) 0 (List.forall_mem_nil _)
    rw [references, parts, text]
    rw [List.nil_append, flatMap_pieces] at erased
    exact erased

theorem references_markNames_a1 :
    IsToken "a1" ∧
      (references ((NameScope.ofInstance "a1" false).markNames
          "<g id=\"x> <y\">\n <use xlink:href='#é' id='' fill=\"url(#z)\"/></g> id=\"w".toList)).map
        (fun r => (r.kind, String.ofList r.name)) =
      [(.id, "x><y-a1"), (.href, "é-a1"), (.url, "z-a1")] := by
  have token : IsToken "a1" := isToken_of_all (by decide +kernel)
  have named := congrArg (List.map fun r => (r.1, String.ofList r.2)) (references_markNames token
    "<g id=\"x> <y\">\n <use xlink:href='#é' id='' fill=\"url(#z)\"/></g> id=\"w".toList).1
  refine ⟨token, ?_⟩
  rw [List.map_map, List.map_map] at named
  refine Eq.trans named ?_
  decide +kernel

end HexAtlas
