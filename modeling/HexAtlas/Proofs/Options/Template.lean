import HexAtlas.Proofs.Text.Numeral
import HexAtlas.Proofs.Text.Replace

namespace HexAtlas

/-- A name between braces. -/
def placeholder (name : Char) : List Char := ['\x7b', name, '\x7d']

/-- A template read once from left to right. A placeholder gives the text for it, any other character gives
itself. -/
def fillTemplate (column row : List Char) : List Char → List Char
  | '\x7b' :: 'X' :: '\x7d' :: rest => column ++ fillTemplate column row rest
  | '\x7b' :: 'Y' :: '\x7d' :: rest => row ++ fillTemplate column row rest
  | c :: rest => c :: fillTemplate column row rest
  | [] => []

theorem placeholder_ne_nil (name : Char) : placeholder name ≠ [] := List.cons_ne_nil _ _

/-- What is read once and gives a text for either of two placeholders. -/
structure IsPass (a b : Char) (first second : List Char) (pass : List Char → List Char) : Prop where
  stop : pass [] = []
  first : ∀ rest, pass (placeholder a ++ rest) = first ++ pass rest
  second : ∀ rest, pass (placeholder b ++ rest) = second ++ pass rest
  keep : ∀ c rest, ¬ placeholder a <+: c :: rest → ¬ placeholder b <+: c :: rest → pass (c :: rest) = c :: pass rest

namespace IsPass

variable {a b : Char} {first second : List Char} {pass : List Char → List Char}

theorem swap (h : IsPass a b first second pass) : IsPass b a second first pass where
  stop := h.stop
  first := h.second
  second := h.first
  keep := fun c rest notSecond notFirst => h.keep c rest notFirst notSecond

theorem eq_fillTemplate (h : IsPass 'X' 'Y' first second pass) (template : List Char) :
    pass template = fillTemplate first second template := by
  fun_induction fillTemplate first second template with
  | case1 rest ih => exact (h.first rest).trans (congrArg (first ++ ·) ih)
  | case2 rest ih => exact (h.second rest).trans (congrArg (second ++ ·) ih)
  | case3 c rest noX noY ih =>
    have otherX : ¬ placeholder 'X' <+: c :: rest := by
      rintro ⟨behind, same⟩
      cases same
      exact noX behind rfl rfl
    have otherY : ¬ placeholder 'Y' <+: c :: rest := by
      rintro ⟨behind, same⟩
      cases same
      exact noY behind rfl rfl
    rw [h.keep c rest otherX otherY, ih]
  | case4 => exact h.stop

end IsPass

/-- Text that may be put into a template: it has no character of a placeholder. -/
structure IsFilling (text : List Char) : Prop where
  filled : text ≠ []
  numeral : ∀ c ∈ text, isDigit c = true ∨ c = '-'

theorem IsFilling.not_mem {text : List Char} (h : IsFilling text) {c : Char}
    (other : (isDigit c || c == '-') = false) :
    c ∉ text := by
  intro member
  rcases h.numeral c member with digit | rfl
  · rw [digit] at other
    cases other
  · cases other

theorem replaceAll_placeholder_other {a b : Char} (apart : a ≠ b) (letter : b ≠ '\x7b') (text rest : List Char) :
    replaceAll (placeholder a) text (placeholder b ++ rest) =
      placeholder b ++ replaceAll (placeholder a) text rest := by
  have other : ¬ placeholder a <+: '\x7b' :: ([b, '\x7d'] ++ rest) := by
    intro start
    have second := (List.cons_prefix_cons.mp start).2
    exact apart (List.cons_prefix_cons.mp second).1
  have free : '\x7b' ∉ [b, '\x7d'] := by
    simpa using letter.symm
  calc replaceAll (placeholder a) text ('\x7b' :: ([b, '\x7d'] ++ rest))
    _ = '\x7b' :: replaceAll (placeholder a) text ([b, '\x7d'] ++ rest) :=
      replaceAll_cons (placeholder_ne_nil a) other
    _ = '\x7b' :: ([b, '\x7d'] ++ replaceAll (placeholder a) text rest) := by
      rw [replaceAll_append rfl free]

/-- Filling in one placeholder does not make another. -/
theorem placeholder_prefix_of_replaceAll {a b c : Char} {text rest : List Char} (filling : IsFilling text)
    (letter : (isDigit b || b == '-') = false) (h : placeholder b <+: c :: replaceAll (placeholder a) text rest) :
    placeholder b <+: c :: rest := by
  obtain ⟨rfl, behind⟩ := List.cons_prefix_cons.mp h
  have apart : ∀ d ∈ [b, '\x7d'], d ∉ text :=
    List.forall_mem_cons.mpr ⟨filling.not_mem letter, List.forall_mem_singleton.mpr (filling.not_mem rfl)⟩
  exact List.cons_prefix_cons.mpr
    ⟨rfl, prefix_of_prefix_replaceAll (placeholder_ne_nil a) filling.filled apart behind⟩

/-- Filling in two placeholders one after the other, each over the whole text, is one pass for both. -/
theorem isPass_inTurn {a b : Char} {first : List Char} (apart : a ≠ b) (letter : b ≠ '\x7b')
    (foreign : (isDigit b || b == '-') = false) (filling : IsFilling first) (second : List Char) :
    IsPass a b first second fun cs => replaceAll (placeholder b) second (replaceAll (placeholder a) first cs) where
  stop := by
    rw [replaceAll_nil (placeholder_ne_nil a), replaceAll_nil (placeholder_ne_nil b)]
  first := fun rest => by
    rw [replaceAll_start (placeholder_ne_nil a), replaceAll_append rfl (filling.not_mem rfl)]
  second := fun rest => by
    rw [replaceAll_placeholder_other apart letter, replaceAll_start (placeholder_ne_nil b)]
  keep := fun c rest notFirst notSecond => by
    have later : ¬ placeholder b <+: c :: replaceAll (placeholder a) first rest :=
      fun start => notSecond (placeholder_prefix_of_replaceAll filling foreign start)
    rw [replaceAll_cons (placeholder_ne_nil a) notFirst, replaceAll_cons (placeholder_ne_nil b) later]

/-- The numeral of an integer, filled up with zeros on its left until it has two characters with its sign. -/
def twoWide (i : Int) : List Char := List.replicate (2 - (intDigits i).length) '0' ++ intDigits i

theorem padded_two_eq (i : Int) : padded 2 i = twoWide i := by
  unfold padded twoWide intDigits
  have filled := List.length_pos_iff.mpr (digits_ne_nil i.natAbs)
  by_cases negative : i < 0
  · -- a sign and a digit fill the width
    have none : 2 - 1 - (digits i.natAbs).length = 0 := by omega
    have none' : 2 - ('-' :: digits i.natAbs).length = 0 := by
      rw [List.length_cons]
      omega
    simp only [if_pos negative, none, none', List.replicate_zero, List.nil_append]
  · simp only [if_neg negative]

theorem isFilling_padded (i : Int) : IsFilling (padded 2 i) := by
  have numeral : ∀ c ∈ intDigits i, isDigit c = true ∨ c = '-' := by
    intro c member
    unfold intDigits at member
    split at member
    · rcases List.mem_cons.mp member with sign | digit
      · exact Or.inr sign
      · exact Or.inl (isDigit_of_mem_digits digit)
    · exact Or.inl (isDigit_of_mem_digits member)
  have filled : intDigits i ≠ [] := by
    unfold intDigits
    split
    · exact List.cons_ne_nil _ _
    · exact digits_ne_nil _
  rw [padded_two_eq, twoWide]
  refine ⟨List.append_ne_nil_of_right_ne_nil _ filled, fun c member => ?_⟩
  rcases List.mem_append.mp member with zero | inside
  · rw [(List.mem_replicate.mp zero).2]
    exact Or.inl rfl
  · exact numeral c inside

/-- The coordinate text of a cell is its template read once, each placeholder filled with its coordinate, two
characters wide at least. The text is the same if the row is filled in before the column. -/
theorem Options.formatCoordinates_eq_fillTemplate (o : Options) (h : Hex) :
    o.formatCoordinates h =
        String.ofList (fillTemplate (twoWide h.x) (twoWide h.y) o.coordinatesFormat.toList) ∧
      o.formatCoordinates h =
        String.ofList (replaceAll "\x7bX\x7d".toList (padded 2 h.x)
          (replaceAll "\x7bY\x7d".toList (padded 2 h.y) o.coordinatesFormat.toList)) := by
  let template := o.coordinatesFormat.toList
  have columnFirst :=
    isPass_inTurn (a := 'X') (b := 'Y') (by decide) (by decide) rfl (isFilling_padded h.x) (padded 2 h.y)
  have rowFirst :=
    isPass_inTurn (a := 'Y') (b := 'X') (by decide) (by decide) rfl (isFilling_padded h.y) (padded 2 h.x)
  have whole : o.formatCoordinates h = String.ofList (fillTemplate (padded 2 h.x) (padded 2 h.y) template) :=
    congrArg String.ofList (columnFirst.eq_fillTemplate template)
  refine ⟨?_, whole.trans (congrArg String.ofList (rowFirst.swap.eq_fillTemplate template).symm)⟩
  rw [whole, padded_two_eq, padded_two_eq]

/-- What is filled in is not read again, and braces that are no placeholder are kept. -/
example : fillTemplate "03".toList "-5".toList "\x7b\x7bX\x7d\x7d\x7bY".toList = "\x7b03\x7d\x7bY".toList := rfl

end HexAtlas
