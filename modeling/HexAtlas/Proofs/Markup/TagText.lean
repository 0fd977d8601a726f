import HexAtlas.Markup.Element
import HexAtlas.Proofs.Text.Cut

namespace HexAtlas

/-- The text before a mark is known from the whole if it does not hold the mark. -/
theorem append_mark_inj {mark : Char} {a b r s : List Char} (left : mark ∉ a) (right : mark ∉ b)
    (same : a ++ mark :: r = b ++ mark :: s) : a = b ∧ r = s := by
  have cut := cutAt?_append left r
  rw [same, cutAt?_append right s] at cut
  cases cut
  exact ⟨rfl, rfl⟩

/-- Runs of one property are known from the whole if what follows them does not go on with it. -/
theorem append_run_inj {p : Char → Bool} {a b r s : List Char} (left : ∀ c ∈ a, p c = true)
    (right : ∀ c ∈ b, p c = true) (leftEnd : ∀ c, r.head? = some c → p c = false)
    (rightEnd : ∀ c, s.head? = some c → p c = false) (same : a ++ r = b ++ s) : a = b ∧ r = s := by
  obtain ⟨front, back⟩ := run_append left leftEnd
  obtain ⟨front', back'⟩ := run_append right rightEnd
  rw [same] at front back
  exact ⟨front.symm.trans front', back.symm.trans back'⟩

theorem escape_cons (c : Char) (cs : List Char) : escape (c :: cs) = escapeChar c ++ escape cs := List.flatMap_cons

theorem escapeChar_eq_self {c : Char} (h : c ∉ ['&', '<', '>', '"']) : escapeChar c = [c] := by
  unfold escapeChar
  split
  case h_5 => rfl
  all_goals exact absurd (by decide) h

/-- Reads escaped text. -/
def unescape : List Char → List Char
  | '&' :: 'a' :: 'm' :: 'p' :: ';' :: rest => '&' :: unescape rest
  | '&' :: 'l' :: 't' :: ';' :: rest => '<' :: unescape rest
  | '&' :: 'g' :: 't' :: ';' :: rest => '>' :: unescape rest
  | '&' :: 'q' :: 'u' :: 'o' :: 't' :: ';' :: rest => '"' :: unescape rest
  | c :: rest => c :: unescape rest
  | [] => []

theorem unescape_cons {c : Char} (plain : c ≠ '&') (rest : List Char) :
    unescape (c :: rest) = c :: unescape rest := by
  rw [unescape] <;> rintro _ rfl <;> exact absurd rfl plain

theorem unescape_escape (cs : List Char) : unescape (escape cs) = cs := by
  induction cs with
  | nil => rfl
  | cons c rest ih =>
    rw [escape_cons]
    unfold escapeChar
    split
    case h_5 amp _ _ _ => rw [List.singleton_append, unescape_cons amp, ih]
    all_goals exact congrArg (List.cons _) ih

theorem escape_inj {a b : List Char} (same : escape a = escape b) : a = b := by
  rw [← unescape_escape a, same, unescape_escape]

/-- Neither brackets nor quotes are written as themselves. -/
theorem not_mem_escape {mark : Char} (special : mark ∈ ['<', '>', '"']) (cs : List Char) : mark ∉ escape cs := by
  intro member
  obtain ⟨c, _, inside⟩ := List.mem_flatMap.mp member
  by_cases plain : c ∈ ['&', '<', '>', '"']
  · have entities :
      ['&', '<', '>', '"'].all (fun c => ['<', '>', '"'].all fun mark => mark ∉ escapeChar c) = true := by
      decide
    have free := List.all_eq_true.mp (List.all_eq_true.mp entities c plain) mark special
    exact of_decide_eq_true free inside
  · rw [escapeChar_eq_self plain, List.mem_singleton] at inside
    exact plain (inside ▸ List.mem_cons_of_mem _ special)

/-- Neither a blank nor a character that means something in a tag. -/
def isNameChar (c : Char) : Bool := !isBlank c && c ∉ ['"', '\'', '=', '<', '>', '&']

/-- A name as it may stand in a tag. -/
structure IsTagName (name : String) : Prop where
  nonempty : name ≠ ""
  plain : ∀ c ∈ name.toList, isNameChar c = true

instance (name : String) : Decidable (IsTagName name) :=
  decidable_of_iff (name ≠ "" ∧ name.toList.all isNameChar = true)
    ⟨fun ⟨nonempty, plain⟩ => ⟨nonempty, List.all_eq_true.mp plain⟩,
      fun h => ⟨h.nonempty, List.all_eq_true.mpr h.plain⟩⟩

theorem IsTagName.not_mem {name : String} (h : IsTagName name) {c : Char} (mark : isNameChar c = false) :
    c ∉ name.toList := by
  intro member
  rw [h.plain c member] at mark
  cases mark

/-- Every key can stand in a tag. -/
def Attributes.Clean (attributes : Attributes) : Prop := ∀ key ∈ attributes.keys, IsTagName key

instance (attributes : Attributes) : Decidable attributes.Clean :=
  inferInstanceAs (Decidable (∀ key ∈ attributes.keys, IsTagName key))

theorem Attributes.clean_empty : Clean .empty := List.forall_mem_nil _

/-- The pairs of a tag, their values as they are written. -/
def pairsText (pairs : List (String × List Char)) : List Char :=
  pairs.flatMap fun (key, value) => ' ' :: key.toList ++ "=\"".toList ++ value ++ ['"']

/-- The pairs that attributes are written as. -/
def writtenPairs (attributes : Attributes) : List (String × List Char) :=
  attributes.entries.map fun (key, value) => (key, escape value.toList)

theorem tagText_eq (name : String) (attributes : Attributes) :
    Node.tagText name attributes = name.toList ++ pairsText (writtenPairs attributes) := by
  rw [pairsText, writtenPairs, List.flatMap_map]
  rfl

/-- A pair that can be told from what follows it. -/
structure IsTagPair (pair : String × List Char) : Prop where
  key : IsTagName pair.1
  value : '"' ∉ pair.2 ∧ '<' ∉ pair.2

/-- Escaping takes care of the values, so only the keys matter. -/
theorem isTagPair_written_iff {attributes : Attributes} :
    (∀ pair ∈ writtenPairs attributes, IsTagPair pair) ↔ attributes.Clean := by
  constructor
  · intro pairs key member
    obtain ⟨entry, listed, rfl⟩ := List.mem_map.mp member
    exact (pairs _ (List.mem_map_of_mem listed)).key
  · intro clean pair member
    obtain ⟨⟨key, value⟩, entry, rfl⟩ := List.mem_map.mp member
    exact ⟨clean key (List.mem_map_of_mem entry), not_mem_escape (by simp) _, not_mem_escape (by simp) _⟩

theorem writtenPairs_inj {as bs : Attributes} (same : writtenPairs as = writtenPairs bs) : as = bs := by
  have entries : as.entries = bs.entries := by
    refine (List.map_inj_right ?_).mp same
    rintro ⟨key, value⟩ ⟨key', value'⟩ pairs
    obtain ⟨rfl, values⟩ := Prod.mk.inj pairs
    rw [String.ext (escape_inj values)]
  cases as
  cases bs
  exact congrArg Table.mk entries

theorem pairsText_cons (key : String) (value : List Char) (rest : List (String × List Char)) (r : List Char) :
    pairsText ((key, value) :: rest) ++ r =
      ' ' :: (key.toList ++ '=' :: '"' :: (value ++ '"' :: (pairsText rest ++ r))) := by
  simp [pairsText]

/-- What follows the pairs of a tag. -/
def EndsTag (cs : List Char) : Prop := cs.head? = some '/' ∨ cs.head? = some '>'

theorem EndsTag.not_blank {r : List Char} (h : EndsTag r) (cs : List Char) : r ≠ ' ' :: cs := by
  rintro rfl
  rcases h with slash | bracket
  · cases slash
  · cases bracket

theorem pairsText_append_inj {ps qs : List (String × List Char)} (left : ∀ pair ∈ ps, IsTagPair pair)
    (right : ∀ pair ∈ qs, IsTagPair pair) {r s : List Char} (leftEnd : EndsTag r) (rightEnd : EndsTag s)
    (same : pairsText ps ++ r = pairsText qs ++ s) : ps = qs ∧ r = s := by
  induction ps generalizing qs with
  | nil =>
    cases qs with
    | nil => exact ⟨rfl, same⟩
    | cons pair rest =>
      rw [pairsText_cons] at same
      exact absurd same (leftEnd.not_blank _)
  | cons pair rest ih =>
    cases qs with
    | nil =>
      rw [pairsText_cons] at same
      exact absurd same.symm (rightEnd.not_blank _)
    | cons pair' rest' =>
      obtain ⟨here, later⟩ := List.forall_mem_cons.mp left
      obtain ⟨here', later'⟩ := List.forall_mem_cons.mp right
      rw [pairsText_cons, pairsText_cons] at same
      obtain ⟨key, afterKey⟩ :=
        append_mark_inj (here.key.not_mem rfl) (here'.key.not_mem rfl) (List.cons.inj same).2
      obtain ⟨value, afterValue⟩ := append_mark_inj here.value.1 here'.value.1 (List.cons.inj afterKey).2
      obtain ⟨rfl, ends⟩ := ih later later' afterValue
      exact ⟨congrArg (· :: rest) (Prod.ext (String.ext key) value), ends⟩

namespace Node

/-- What stands behind the name and the attributes of an element. -/
def inside (depth : Nat) (name : String) (children : List Node) : List Char :=
  if children.isEmpty then "/>\n".toList
  else if children.all fun node => node.text?.isSome then
    '>' :: (escape ((children.filterMap text?).flatMap String.toList) ++ endTag name)
  else '>' :: '\n' :: (writeAll (depth + 1) children ++ (indent depth ++ endTag name))

theorem write_element (depth : Nat) (name : String) (attributes : Attributes) (children : List Node) :
    write depth (.element name attributes children) =
      indent depth ++ '<' :: (tagText name attributes ++ inside depth name children) := by
  rw [write, inside]
  split
  · simp
  · split <;> simp

theorem bracket_not_mem_indent (depth : Nat) : '<' ∉ indent depth := by
  simp [indent]

theorem endTag_eq (name : String) : endTag name = '<' :: '/' :: (name.toList ++ ['>', '\n']) := rfl

end Node

end HexAtlas
