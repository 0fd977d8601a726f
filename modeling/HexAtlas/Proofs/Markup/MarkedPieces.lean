import HexAtlas.Proofs.Markup.FoundName

namespace HexAtlas

open ReferenceKind

def IsMark (mark : List Char) : Prop := ∀ c ∈ mark, isMarkChar c = true

theorem isLower_iff {c : Char} : c.isLower = true ↔ 97 ≤ c.toNat ∧ c.toNat ≤ 122 := by
  have bounds : c.isLower = (decide ('a'.val ≤ c.val) && decide (c.val ≤ 'z'.val)) := rfl
  rw [bounds, Bool.and_eq_true, decide_eq_true_eq, decide_eq_true_eq, UInt32.le_iff_toNat_le,
    UInt32.le_iff_toNat_le]
  exact Iff.rfl

theorem toNat_of_isMarkChar {c : Char} (h : isMarkChar c = true) :
    (97 ≤ c.toNat ∧ c.toNat ≤ 122) ∨ (48 ≤ c.toNat ∧ c.toNat ≤ 57) ∨ c.toNat = 95 ∨ c.toNat = 45 := by
  simp only [isMarkChar, Bool.or_eq_true, Char.isDigit, Bool.and_eq_true, decide_eq_true_eq] at h
  rcases h with ((lower | digit) | rfl) | rfl
  · exact Or.inl (isLower_iff.mp lower)
  · exact Or.inr (Or.inl ⟨UInt32.le_iff_toNat_le.mp digit.1, UInt32.le_iff_toNat_le.mp digit.2⟩)
  · exact Or.inr (Or.inr (Or.inl rfl))
  · exact Or.inr (Or.inr (Or.inr rfl))

theorem not_isBlank_of_isMarkChar {c : Char} (h : isMarkChar c = true) : isBlank c = false := by
  have range := toNat_of_isMarkChar h
  simp [isBlank]
  omega

theorem IsMark.not_mem {mark : List Char} (h : IsMark mark) {c : Char} (other : isMarkChar c = false) :
    c ∉ mark := by
  intro member
  rw [h c member] at other
  cases other

namespace Piece

def mark (ending : List Char) : Piece → Piece
  | plain text => plain text
  | name kind text => name kind (text ++ ending)

end Piece

/-- The text of pieces with a mark after every name. -/
def markedText (ending : List Char) (ps : List Piece) : List Char := (ps.map (Piece.mark ending)).flatMap Piece.text

theorem markedText_plain (ending text : List Char) (ps : List Piece) :
    markedText ending (.plain text :: ps) = text ++ markedText ending ps := rfl

theorem markedText_name (ending : List Char) (kind : ReferenceKind) (name : List Char) (ps : List Piece) :
    markedText ending (.name kind name :: ps) = name ++ (ending ++ markedText ending ps) := by
  simp only [markedText, List.map_cons, Piece.mark, List.flatMap_cons, Piece.text, List.append_assoc]

theorem markNames_eq_joinTags (s : NameScope) (markup : List Char) :
    s.markNames markup = joinTags (markedText s.ending.toList (pieces markup)) := by
  rw [NameScope.markNames, markedText, List.flatMap_map]
  congr 2
  funext piece
  cases piece <;> rfl

theorem piecesAfter_nil (before : Option Char) : piecesAfter before [] = [] := by
  rw [piecesAfter]

theorem piecesAfter_found {before : Option Char} {cs : List Char} {found : NameFound}
    (h : findName? before cs = some found) :
    piecesAfter before cs =
      .plain found.opening :: .name found.kind found.name :: piecesAfter found.name.getLast? found.rest := by
  cases cs with
  | nil =>
    obtain ⟨parts, nonempty⟩ := NameFound.eq_append h
    simp [nonempty] at parts
  | cons c rest =>
    rw [piecesAfter]
    split
    · rename_i other
      rw [h] at other
      cases other
      rfl
    · rename_i missing
      rw [h] at missing
      cases missing

theorem piecesAfter_missing {before : Option Char} {c : Char} {rest : List Char}
    (h : findName? before (c :: rest) = none) :
    piecesAfter before (c :: rest) = .plain [c] :: piecesAfter (some c) rest := by
  rw [piecesAfter]
  split
  · rename_i found
    rw [h] at found
    cases found
  · rfl

/-- No name begins at a character that begins no opening. -/
theorem findName?_eq_none_of_head {c : Char} (h : isOpeningHead c = false) (before : Option Char)
    (rest : List Char) :
    findName? before (c :: rest) = none := by
  cases found : findName? before (c :: rest) with
  | none => rfl
  | some f =>
    obtain ⟨entry, member, place⟩ := exists_at_of_findName? found
    have heads := (isPlain_of_mem_openings member).head
    have parts := place.parts
    cases shape : entry.2.1 with
    | nil => rw [shape] at heads; cases heads
    | cons d more =>
      rw [shape] at heads parts
      cases parts
      rw [List.head?_cons, Option.any_some, h] at heads
      cases heads

theorem piecesAfter_of_head {c : Char} (h : isOpeningHead c = false) (before : Option Char) (rest : List Char) :
    piecesAfter before (c :: rest) = .plain [c] :: piecesAfter (some c) rest :=
  piecesAfter_missing (findName?_eq_none_of_head h before rest)

/-- What stands before a text matters only if an opening may begin there. -/
theorem piecesAfter_congr {cs : List Char} {c : Char} (head : cs.head? = some c) (h : isOpeningHead c = false)
    (before other : Option Char) : piecesAfter before cs = piecesAfter other cs := by
  cases cs with
  | nil => cases head
  | cons d rest =>
    cases head
    rw [piecesAfter_of_head h, piecesAfter_of_head h]

theorem markedText_of_head {c : Char} (h : isOpeningHead c = false) (ending : List Char) (before : Option Char)
    (rest : List Char) :
    markedText ending (piecesAfter before (c :: rest)) = c :: markedText ending (piecesAfter (some c) rest) := by
  rw [piecesAfter_of_head h, markedText_plain]
  rfl

/-- Marks come after names, so the first character stays. -/
theorem head?_markedText (ending : List Char) (before : Option Char) (cs : List Char) :
    (markedText ending (piecesAfter before cs)).head? = cs.head? := by
  cases cs with
  | nil => rw [piecesAfter_nil]; rfl
  | cons c rest =>
    cases h : findName? before (c :: rest) with
    | none => rw [piecesAfter_missing h, markedText_plain]; rfl
    | some found =>
      obtain ⟨entry, member, place⟩ := exists_at_of_findName? h
      have heads := (isPlain_of_mem_openings member).head
      have parts := place.parts
      rw [piecesAfter_found h, markedText_plain, place.opening, parts]
      cases shape : entry.2.1 with
      | nil => rw [shape] at heads; cases heads
      | cons d more => rfl

theorem mem_markedText {ending : List Char} {ps : List Piece} {c : Char} (h : c ∈ markedText ending ps) :
    c ∈ ps.flatMap Piece.text ∨ c ∈ ending := by
  obtain ⟨marked, inside, member⟩ := List.mem_flatMap.mp h
  obtain ⟨piece, original, rfl⟩ := List.mem_map.mp inside
  cases piece with
  | plain text => exact Or.inl (List.mem_flatMap.mpr ⟨_, original, member⟩)
  | name kind text =>
    rcases List.mem_append.mp member with letter | mark
    · exact Or.inl (List.mem_flatMap.mpr ⟨_, original, letter⟩)
    · exact Or.inr mark

theorem nameUntil?_markedText {ending body : List Char} {stop : Char} (free : stop ∉ ending) (before : Option Char)
    (h : nameUntil? stop body = none) : nameUntil? stop (markedText ending (piecesAfter before body)) = none := by
  rw [nameUntil?_eq_none_iff, head?_markedText]
  rcases nameUntil?_eq_none_iff.mp h with absent | head
  · left
    intro member
    rcases mem_markedText member with letter | mark
    · exact absent (by rwa [flatMap_piecesAfter] at letter)
    · exact free mark
  · exact Or.inr head

/-- The rest of an opening that stands in marked text stands in the text itself. -/
theorem afterStart?_markedText {ending start : List Char} (plain : start.any isOpeningHead = false)
    {before : Option Char} {cs body : List Char}
    (h : afterStart? start (markedText ending (piecesAfter before cs)) = some body) :
    ∃ original last, afterStart? start cs = some original ∧
      body = markedText ending (piecesAfter last original) := by
  induction start generalizing before cs with
  | nil => exact ⟨cs, before, rfl, (Option.some.inj h).symm⟩
  | cons d more ih =>
    rw [List.any_cons, Bool.or_eq_false_iff] at plain
    have parts := eq_append_of_afterStart? h
    have head : cs.head? = some d := by
      rw [← head?_markedText ending before cs, parts]
      rfl
    cases cs with
    | nil => cases head
    | cons c rest =>
      cases head
      rw [markedText_of_head plain.1, afterStart?, if_pos rfl] at h
      obtain ⟨original, last, start, same⟩ := ih plain.2 h
      exact ⟨original, last, by rw [afterStart?, if_pos rfl, start], same⟩

/-- Marks behind a place where no name begins make none begin there. -/
theorem findName?_markedText_of_missing {ending : List Char} (mark : IsMark ending) {before : Option Char}
    {c : Char} {rest : List Char} (missing : findName? before (c :: rest) = none) :
    findName? before (c :: markedText ending (piecesAfter (some c) rest)) = none := by
  cases h : findName? before (c :: markedText ending (piecesAfter (some c) rest)) with
  | none => rfl
  | some wrong =>
    obtain ⟨⟨kind, opening, stop⟩, member, place⟩ := exists_at_of_findName? h
    have plain := isPlain_of_mem_openings member
    have parts := place.parts
    cases opening with
    | nil => cases plain.head
    | cons o more =>
      simp only [List.cons_append, List.cons.injEq] at parts
      obtain ⟨rfl, tail⟩ := parts
      have start :
        afterStart? more (markedText ending (piecesAfter (some c) rest)) = some (wrong.name ++ wrong.rest) := by
        rw [tail, afterStart?_append]
      -- The opening would stand in the text itself, and so would the stop, since marks hold neither.
      obtain ⟨original, last, start, same⟩ := afterStart?_markedText plain.tail start
      cases cut : nameUntil? stop original with
      | none =>
        have none := nameUntil?_markedText (mark.not_mem plain.unmarked) last cut
        rw [← same, nameUntil?_eq_some_iff.mpr ⟨rfl, place.nonempty, place.free, place.stop⟩] at none
        cases none
      | some found =>
        obtain ⟨parts, nonempty, free, atStop⟩ := nameUntil?_eq_some_iff.mp cut
        have there :
          (⟨kind, c :: more, found.1, found.2⟩ : NameFound).At before (c :: rest) (kind, c :: more, stop) :=
          ⟨place.allowed, rfl, rfl, by rw [eq_append_of_afterStart? start, parts]; rfl, nonempty, free, atStop⟩
        rw [findName?_of_at member there] at missing
        cases missing

/-- Marked text is cut into the same pieces as the text, each with its mark. -/
theorem piecesAfter_markedText {ending : List Char} (mark : IsMark ending) (before : Option Char) (cs : List Char) :
    piecesAfter before (markedText ending (piecesAfter before cs)) = (piecesAfter before cs).map
      (Piece.mark ending) := by
  fun_induction piecesAfter before cs with
  | case1 before => rw [markedText, List.map_nil, List.flatMap_nil, piecesAfter_nil]
  | case2 before c rest found h ih =>
    obtain ⟨entry, member, place⟩ := exists_at_of_findName? h
    have plain := isPlain_of_mem_openings member
    have head := (head?_markedText ending found.name.getLast? found.rest).trans place.stop
    -- The marked name ends at the same stop, so it is found as a whole with its mark.
    have marked : NameFound.At ⟨found.kind, found.opening, found.name ++ ending,
        markedText ending (piecesAfter found.name.getLast? found.rest)⟩ before
        (found.opening ++
          (found.name ++ (ending ++ markedText ending (piecesAfter found.name.getLast? found.rest))))
        entry := by
      refine ⟨place.allowed, place.kind, place.opening, ?_, ?_, ?_, head⟩
      · rw [place.opening, List.append_assoc]
      · exact fun empty => place.nonempty (List.append_eq_nil_iff.mp empty).1
      · exact fun inside => (List.mem_append.mp inside).elim place.free (mark.not_mem plain.unmarked)
    rw [markedText_plain, markedText_name, piecesAfter_found (findName?_of_at member marked),
      piecesAfter_congr head plain.unopened _ found.name.getLast?, ih]
    rfl
  | case3 before c rest h ih =>
    rw [markedText_plain, List.singleton_append, piecesAfter_missing (findName?_markedText_of_missing mark h), ih]
    rfl

namespace Piece

def name? : Piece → Option (ReferenceKind × List Char)
  | plain _ => none
  | name kind text => some (kind, text)

end Piece

/-- The names among pieces with their kinds. -/
def names (ps : List Piece) : List (ReferenceKind × List Char) := ps.filterMap Piece.name?

/-- Pieces and joined tags are followed together: a name is taken as a whole, and blanks before a tag are passed
over at once. -/
theorem pieces_induction {motive : Option Char → List Char → Prop} (nil : ∀ before, motive before [])
    (found : ∀ before cs f, findName? before cs = some f → (∀ last, motive last f.rest) → motive before cs)
    (close : ∀ before rest, (trimStart rest).head? = some '<' → (∀ last, motive last (trimStart rest)) →
      motive before ('>' :: rest))
    (plain : ∀ before c rest, findName? before (c :: rest) = none →
      ¬(c = '>' ∧ (trimStart rest).head? = some '<') → (∀ last, motive last rest) → motive before (c :: rest))
    (before : Option Char) (cs : List Char) : motive before cs := by
  -- Names and blanks take more than one character at once, so the induction is on the length.
  induction size : cs.length using Nat.strongRecOn generalizing before cs with
  | ind n ih =>
    subst size
    have shorter : ∀ rest : List Char, rest.length < cs.length → ∀ last, motive last rest :=
      fun rest less last => ih rest.length less last rest rfl
    cases cs with
    | nil => exact nil before
    | cons c rest =>
      cases h : findName? before (c :: rest) with
      | some f =>
        refine found before _ f h (shorter _ ?_)
        obtain ⟨parts, nonempty⟩ := NameFound.eq_append h
        have length := congrArg List.length parts
        have := List.length_pos_iff.mpr nonempty
        simp only [List.length_append] at length
        omega
      | none =>
        by_cases tags : c = '>' ∧ (trimStart rest).head? = some '<'
        · obtain ⟨rfl, opens⟩ := tags
          have length : (trimStart rest).length ≤ rest.length := length_dropWhile_le isBlank rest
          exact close before rest opens (shorter _ (by rw [List.length_cons]; omega))
        · exact plain before c rest h tags (shorter rest (Nat.lt_succ_self _))

theorem isOpeningHead_of_isBlank {c : Char} (h : isBlank c = true) : isOpeningHead c = false := by
  cases head : isOpeningHead c with
  | false => rfl
  | true =>
    simp only [isOpeningHead, List.contains_cons, List.contains_nil, Bool.or_eq_true, beq_iff_eq,
      Bool.or_false] at head
    rcases head with rfl | rfl | rfl <;> exact absurd h (by decide)

/-- Blanks are pieces of their own. -/
theorem exists_piecesAfter_gap {gap : List Char} (blank : ∀ c ∈ gap, isBlank c = true) (before : Option Char)
    (cs : List Char) :
    ∃ last, piecesAfter before (gap ++ cs) = gap.map (fun c => .plain [c]) ++ piecesAfter last cs := by
  induction gap generalizing before with
  | nil => exact ⟨before, rfl⟩
  | cons c more ih =>
    obtain ⟨last, shape⟩ := ih (fun d member => blank d (List.mem_cons_of_mem c member)) (some c)
    refine ⟨last, ?_⟩
    rw [List.cons_append, piecesAfter_of_head (isOpeningHead_of_isBlank (blank c List.mem_cons_self)), shape]
    rfl

theorem exists_piecesAfter_trimStart (before : Option Char) (cs : List Char) :
    ∃ (gap : List Char) (last : Option Char), (∀ c ∈ gap, isBlank c = true) ∧
      piecesAfter before cs = gap.map (fun c => .plain [c]) ++ piecesAfter last (trimStart cs) := by
  have blank : ∀ c ∈ cs.takeWhile isBlank, isBlank c = true :=
    fun c member => List.all_eq_true.mp List.all_takeWhile c member
  obtain ⟨last, shape⟩ := exists_piecesAfter_gap blank before (trimStart cs)
  refine ⟨_, last, blank, ?_⟩
  rw [← shape, trimStart, List.takeWhile_append_dropWhile]

theorem names_append (ps qs : List Piece) : names (ps ++ qs) = names ps ++ names qs := List.filterMap_append

theorem names_gap (gap : List Char) : names (gap.map fun c => .plain [c]) = [] := by
  rw [names, List.filterMap_map]
  exact List.filterMap_eq_nil_iff.mpr fun _ _ => rfl

theorem markedText_gap (ending gap : List Char) (ps : List Piece) :
    markedText ending (gap.map (fun c => .plain [c]) ++ ps) = gap ++ markedText ending ps := by
  induction gap with
  | nil => rfl
  | cons c more ih => rw [List.map_cons, List.cons_append, markedText_plain, ih]; rfl

/-- The names of joined text are the names of the text, each joined. -/
theorem names_joinTags (before : Option Char) (cs : List Char) :
    names (piecesAfter before (joinTags cs)) =
      (names (piecesAfter before cs)).map fun (kind, name) => (kind, joinTags name) := by
  induction before, cs using pieces_induction with
  | nil before => rw [joinTags_nil, piecesAfter_nil]; rfl
  | found before cs f h ih =>
    obtain ⟨entry, member, place⟩ := exists_at_of_findName? h
    have plain := isPlain_of_mem_openings member
    have joined : findName? before (joinTags cs) = some f.join := by rw [findName?_joinTags, h, Option.map_some]
    have head : (joinTags f.rest).head? = some entry.2.2 := (head?_joinTags f.rest).trans place.stop
    rw [piecesAfter_found joined, piecesAfter_found h]
    show _ :: names (piecesAfter _ (joinTags f.rest)) = _ :: _
    rw [piecesAfter_congr head plain.unopened _ f.name.getLast?, ih]
    rfl
  | close before rest opens ih =>
    obtain ⟨gap, last, _, shape⟩ := exists_piecesAfter_trimStart (some '>') rest
    have head : (joinTags (trimStart rest)).head? = some '<' := (head?_joinTags _).trans opens
    -- The blanks that are dropped are pieces without a name.
    rw [joinTags_close opens, piecesAfter_of_head (by decide), piecesAfter_of_head (by decide), shape]
    show names (piecesAfter (some '>') (joinTags (trimStart rest))) = List.map _ (names (_ ++ _))
    rw [names_append, names_gap, List.nil_append, piecesAfter_congr head (by decide) _ last, ih]
  | plain before c rest missing apart ih =>
    have joined : findName? before (c :: joinTags rest) = none := by
      rw [← joinTags_cons apart, findName?_joinTags, missing, Option.map_none]
    rw [joinTags_cons apart, piecesAfter_missing joined, piecesAfter_missing missing]
    exact ih (some c)

/-- Trimming and marking can be exchanged. -/
theorem exists_trimStart_markedText (ending : List Char) (before : Option Char) (cs : List Char) :
    ∃ last, trimStart (markedText ending (piecesAfter before cs)) = markedText ending
      (piecesAfter last (trimStart cs)) := by
  obtain ⟨gap, last, blank, shape⟩ := exists_piecesAfter_trimStart before cs
  refine ⟨last, ?_⟩
  rw [shape, markedText_gap, trimStart_gap blank]
  intro c atHead
  rw [head?_markedText] at atHead
  exact not_isBlank_of_head?_trimStart atHead

theorem IsMark.keepsBlanks {ending after : List Char} (mark : IsMark ending) (h : KeepsBlanks after) :
    KeepsBlanks (ending ++ after) := by
  cases ending with
  | nil => exact h
  | cons c more =>
    have char := mark c List.mem_cons_self
    refine ⟨c, more ++ after, rfl, not_isBlank_of_isMarkChar char, ?_⟩
    rintro rfl
    exact absurd char (by decide)

/-- Names may be marked before tags are joined or after. -/
theorem joinTags_markedText {ending : List Char} (mark : IsMark ending) (before : Option Char) (cs : List Char) :
    joinTags (markedText ending (piecesAfter before cs)) = markedText ending
      (piecesAfter before (joinTags cs)) := by
  induction before, cs using pieces_induction with
  | nil before =>
    rw [joinTags_nil, piecesAfter_nil]
    exact joinTags_nil
  | found before cs f h ih =>
    obtain ⟨entry, member, place⟩ := exists_at_of_findName? h
    have plain := isPlain_of_mem_openings member
    have joined : findName? before (joinTags cs) = some f.join := by rw [findName?_joinTags, h, Option.map_some]
    have head : (joinTags f.rest).head? = some entry.2.2 := (head?_joinTags f.rest).trans place.stop
    -- The stop behind the name is no blank and begins no tag, so joining does not reach over the mark.
    have after : KeepsBlanks (markedText ending (piecesAfter f.name.getLast? f.rest)) :=
      keepsBlanks_of_head? ((head?_markedText ..).trans place.stop) plain.visible plain.untagged
    rw [piecesAfter_found joined, piecesAfter_found h]
    simp only [markedText_plain, markedText_name, NameFound.join]
    rw [joinTags_append_of_not_mem (place.opening ▸ plain.unclosed), joinTags_append (mark.keepsBlanks after),
      joinTags_append_of_not_mem (mark.not_mem (by decide)), ih,
      piecesAfter_congr head plain.unopened (joinTags f.name).getLast? f.name.getLast?]
  | close before rest opens ih =>
    obtain ⟨last, shape⟩ := exists_trimStart_markedText ending (some '>') rest
    have head : (joinTags (trimStart rest)).head? = some '<' := (head?_joinTags _).trans opens
    have tag : (trimStart (markedText ending (piecesAfter (some '>') rest))).head? = some '<' := by
      rw [shape, head?_markedText, opens]
    rw [joinTags_close opens, markedText_of_head (by decide), markedText_of_head (by decide), joinTags_close tag,
      shape, ih, piecesAfter_congr head (by decide) last]
  | plain before c rest missing apart ih =>
    have joined : findName? before (c :: joinTags rest) = none := by
      rw [← joinTags_cons apart, findName?_joinTags, missing, Option.map_none]
    -- Marks never come first, so no tag begins in the marked text where none did.
    have apart' : ¬(c = '>' ∧ (trimStart (markedText ending (piecesAfter (some c) rest))).head? = some '<') := by
      rintro ⟨close, tag⟩
      obtain ⟨last, shape⟩ := exists_trimStart_markedText ending (some c) rest
      rw [shape, head?_markedText] at tag
      exact apart ⟨close, tag⟩
    rw [joinTags_cons apart, piecesAfter_missing joined, piecesAfter_missing missing, markedText_plain,
      markedText_plain, List.singleton_append, joinTags_cons apart', ih]
    rfl

end HexAtlas
