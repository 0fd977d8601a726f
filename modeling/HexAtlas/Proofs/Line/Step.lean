import HexAtlas.Proofs.Text.Cut
import HexAtlas.Proofs.Text.Numeral

namespace HexAtlas

/-- Column and row have at most two digits. -/
structure Hex.OnGrid (h : Hex) : Prop where
  x_nonneg : 0 ≤ h.x
  x_le : h.x ≤ 99
  y_nonneg : 0 ≤ h.y
  y_le : h.y ≤ 99

/-- What the text of a step can tell: cells of the grid and distances that fit a 32-bit word. -/
def Step.Writable : Step → Prop
  | .reach cell => cell.OnGrid
  | .toward _ distance => distance < 4294967296

/-- Digits and the letters of the compass. -/
def isStepChar (c : Char) : Bool := isDigit c || ['n', 'e', 's', 'w'].contains c

theorem toNat_of_isDigit {c : Char} (h : isDigit c = true) : 48 ≤ c.toNat ∧ c.toNat ≤ 57 := by
  simp only [isDigit, Bool.and_eq_true, decide_eq_true_eq] at h
  exact ⟨UInt32.le_iff_toNat_le.mp h.1, UInt32.le_iff_toNat_le.mp h.2⟩

theorem not_isBlank_of_isDigit {c : Char} (h : isDigit c = true) : isBlank c = false := by
  have range := toNat_of_isDigit h
  simp [isBlank]
  omega

theorem not_isDigit_of_isBlank {c : Char} (h : isBlank c = true) : isDigit c = false := by
  cases digit : isDigit c with
  | false => rfl
  | true => rw [not_isBlank_of_isDigit digit] at h; cases h

/-- Two digits are read off exactly the texts that start with them. -/
theorem twoDigits?_eq_some_iff {cs rest : List Char} {n : Nat} :
    twoDigits? cs = some (n, rest) ↔
      ∃ a b, cs = a :: b :: rest ∧ isDigit a = true ∧ isDigit b = true ∧ digitsValue [a, b] = n := by
  constructor
  · intro h
    unfold twoDigits? at h
    split at h
    · rename_i a b more
      split at h
      · rename_i both
        cases h
        rw [Bool.and_eq_true] at both
        exact ⟨a, b, rfl, both.1, both.2, rfl⟩
      · cases h
    · cases h
  · rintro ⟨a, b, rfl, digitA, digitB, rfl⟩
    simp only [twoDigits?, digitA, digitB, Bool.and_self, if_true]

theorem twoDigits?_eq_none {cs : List Char} {c : Char} (atHead : cs.head? = some c) (h : isDigit c = false) :
    twoDigits? cs = none := by
  cases found : twoDigits? cs with
  | none => rfl
  | some cut =>
    obtain ⟨a, b, shape, digit, _⟩ := twoDigits?_eq_some_iff.mp found
    rw [shape] at atHead
    cases atHead
    rw [h] at digit
    cases digit

theorem digitsValue_pair_lt {c d : Char} (hc : isDigit c = true) (hd : isDigit d = true) :
    digitsValue [c, d] < 100 := by
  have first := (toNat_of_isDigit hc).2
  have second := (toNat_of_isDigit hd).2
  have zero : '0'.toNat = 48 := rfl
  simp only [digitsValue, List.foldl_cons, List.foldl_nil, digitValue, zero]
  omega

theorem not_isSeparator_of_isStepChar {c : Char} (h : isStepChar c = true) : isSeparator c = false := by
  simp only [isStepChar, Bool.or_eq_true] at h
  rcases h with digit | letter
  · have dash : c ≠ '-' := by
      rintro rfl
      exact absurd digit (by decide)
    simp [isSeparator, not_isBlank_of_isDigit digit, dash]
  · simp only [List.contains_cons, List.contains_nil, Bool.or_eq_true, beq_iff_eq, Bool.or_false] at letter
    rcases letter with rfl | rfl | rfl | rfl <;> decide

theorem not_isBlank_of_not_isSeparator {c : Char} (h : isSeparator c = false) : isBlank c = false := by
  simp only [isSeparator, Bool.or_eq_false_iff] at h
  exact h.1

theorem not_isBlank_of_isStepChar {c : Char} (h : isStepChar c = true) : isBlank c = false :=
  not_isBlank_of_not_isSeparator (not_isSeparator_of_isStepChar h)

namespace Hex

theorem text_eq {h : Hex} (grid : h.OnGrid) :
    ∃ a b c d, h.text.toList = [a, b, c, d] ∧ (isDigit a = true ∧ isDigit b = true) ∧
      (isDigit c = true ∧ isDigit d = true) ∧ (digitsValue [a, b] : Int) = h.x ∧
      (digitsValue [c, d] : Int) = h.y := by
  obtain ⟨a, b, column, digitA, digitB, x⟩ := padded_two grid.x_nonneg grid.x_le
  obtain ⟨c, d, row, digitC, digitD, y⟩ := padded_two grid.y_nonneg grid.y_le
  refine ⟨a, b, c, d, ?_, ⟨digitA, digitB⟩, ⟨digitC, digitD⟩, x, y⟩
  simp only [text, String.toList_ofList, column, row, List.cons_append, List.nil_append]

/-- A cell is read off two digits for the column and two for the row, and nothing else. -/
theorem parse?_eq_some_iff {cs : List Char} {cell : Hex} :
    Hex.parse? cs = some cell ↔
      ∃ x y row, twoDigits? cs = some (x, row) ∧ twoDigits? row = some (y, []) ∧ cell = ⟨x, y⟩ := by
  unfold Hex.parse?
  constructor
  · intro h
    obtain ⟨⟨x, row⟩, column, h⟩ := Option.bind_eq_some_iff.mp h
    obtain ⟨⟨y, rest⟩, digits, h⟩ := Option.bind_eq_some_iff.mp h
    simp only at digits h
    split at h
    · rename_i empty
      cases h
      exact ⟨x, y, row, column, by rw [digits, empty], rfl⟩
    · cases h
  · rintro ⟨x, y, row, column, digits, rfl⟩
    simp only [column, digits, Option.bind_eq_bind, Option.bind_some, if_true]

theorem parse?_text {h : Hex} (grid : h.OnGrid) : Hex.parse? h.text.toList = some h := by
  obtain ⟨a, b, c, d, shape, first, second, x, y⟩ := text_eq grid
  simp only [shape, Hex.parse?, twoDigits?, first, second, Bool.and_self, if_true, Option.bind_eq_bind,
    Option.bind_some, x, y]

theorem length_text {h : Hex} (grid : h.OnGrid) : h.text.toList.length = 4 := by
  obtain ⟨a, b, c, d, shape, _⟩ := text_eq grid
  simp only [shape, List.length_cons, List.length_nil]

theorem isDigit_of_mem_text {h : Hex} (grid : h.OnGrid) {c : Char} (member : c ∈ h.text.toList) :
    isDigit c = true := by
  obtain ⟨a, b, c', d, shape, first, second, _⟩ := text_eq grid
  simp only [shape, List.mem_cons, List.not_mem_nil, or_false] at member
  rcases member with rfl | rfl | rfl | rfl
  · exact first.1
  · exact first.2
  · exact second.1
  · exact second.2

end Hex

namespace Direction

theorem mem_abbreviation {d : Direction} {c : Char} (h : c ∈ d.abbreviation.toList) :
    ['n', 'e', 's', 'w'].contains c = true ∧ isDigit c = false := by
  have all : d.abbreviation.toList.all (fun c => ['n', 'e', 's', 'w'].contains c && !isDigit c) = true := by
    cases d <;> decide
  have both := List.all_eq_true.mp all c h
  simpa only [Bool.and_eq_true, Bool.not_eq_true'] using both

theorem abbreviation_ne_nil (d : Direction) : d.abbreviation.toList ≠ [] := by
  cases d <;> decide

theorem ofAbbreviation?_abbreviation (d : Direction) : ofAbbreviation? d.abbreviation = some d := by
  cases d <;> decide

theorem ofAbbreviation?_eq_some_iff {name : String} {d : Direction} :
    ofAbbreviation? name = some d ↔ d.abbreviation = name := by
  constructor
  · intro named
    have same := List.find?_some named
    exact of_decide_eq_true same
  · rintro rfl
    exact ofAbbreviation?_abbreviation d

end Direction

namespace Step

/-- The ways to write a step: a cell by two digits for its column and two for its row, a run by its direction and a
number that fits a 32-bit word. -/
inductive SpelledBy : Step → List Char → Prop
  | reach {a b c d : Char} (column : isDigit a = true ∧ isDigit b = true)
    (row : isDigit c = true ∧ isDigit d = true) :
    SpelledBy (.reach ⟨digitsValue [a, b], digitsValue [c, d]⟩) [a, b, c, d]
  | toward (d : Direction) {number : List Char} (numeral : isNumeral number = true)
    (fits : digitsValue number < 4294967296) :
    SpelledBy (.toward d (digitsValue number)) (d.abbreviation.toList ++ number)

variable {step : Step} {token : List Char}

/-- A direction begins with a letter, so it is no cell. -/
theorem parse?_cell_toward (d : Direction) (rest : List Char) :
    Hex.parse? (d.abbreviation.toList ++ rest) = none := by
  obtain ⟨c, more, letters⟩ := List.exists_cons_of_ne_nil d.abbreviation_ne_nil
  have letter : isDigit c = false := (Direction.mem_abbreviation (letters ▸ List.mem_cons_self)).2
  have column : twoDigits? (d.abbreviation.toList ++ rest) = none :=
    twoDigits?_eq_none (by rw [letters]; rfl) letter
  rw [Hex.parse?, column]
  rfl

theorem parse?_toward (d : Direction) {number : List Char} (numeral : isNumeral number = true)
    (fits : digitsValue number < 4294967296) :
    Step.parse? (d.abbreviation.toList ++ number) = some (.toward d (digitsValue number)) := by
  have all : number.all isDigit = true := List.all_eq_true.mpr (isNumeral_iff.mp numeral).2
  have letters : ∀ c ∈ d.abbreviation.toList, (!isDigit c) = true := fun c member => by
    simp [(Direction.mem_abbreviation member).2]
  have digits : ∀ c, number.head? = some c → (!isDigit c) = false := fun c atHead => by
    simp [List.all_eq_true.mp all c (List.mem_of_mem_head? atHead)]
  obtain ⟨name, distance⟩ := run_append letters digits
  have count : readCount? number = some (digitsValue number) :=
    (readNatBelow?_eq_some_iff all).mpr ⟨numeral, rfl, fits⟩
  unfold Step.parse?
  simp only [parse?_cell_toward, name, distance, String.ofList_toList, Direction.ofAbbreviation?_abbreviation,
    Option.bind_eq_bind, Option.bind_some, all, if_true, count, Option.map_some]

theorem spelledBy_of_parse? (h : Step.parse? token = some step) : step.SpelledBy token := by
  unfold Step.parse? at h
  split at h
  · rename_i cell read
    cases h
    obtain ⟨x, y, row, column, rest, rfl⟩ := Hex.parse?_eq_some_iff.mp read
    obtain ⟨a, b, rfl, digitA, digitB, rfl⟩ := twoDigits?_eq_some_iff.mp column
    obtain ⟨c, d, rfl, digitC, digitD, rfl⟩ := twoDigits?_eq_some_iff.mp rest
    exact .reach ⟨digitA, digitB⟩ ⟨digitC, digitD⟩
  · obtain ⟨d, named, h⟩ := Option.bind_eq_some_iff.mp h
    split at h
    · rename_i all
      obtain ⟨n, count, rfl⟩ := Option.map_eq_some_iff.mp h
      obtain ⟨numeral, rfl, fits⟩ := (readNatBelow?_eq_some_iff all).mp count
      have spelled := SpelledBy.toward d numeral fits
      rwa [Direction.ofAbbreviation?_eq_some_iff.mp named, String.toList_ofList,
        List.takeWhile_append_dropWhile] at spelled
    · cases h

/-- A text is read as a step exactly if it is a way to write that step. -/
theorem parse?_eq_some_iff : Step.parse? token = some step ↔ step.SpelledBy token := by
  refine ⟨spelledBy_of_parse?, fun spelled => ?_⟩
  cases spelled with
  | reach column row =>
    simp only [Step.parse?, Hex.parse?, twoDigits?, column, row, Bool.and_self, if_true, Option.bind_eq_bind,
      Option.bind_some]
  | toward d numeral fits => exact parse?_toward d numeral fits

theorem SpelledBy.writable (h : step.SpelledBy token) : step.Writable := by
  cases h with
  | reach column row =>
    have x := digitsValue_pair_lt column.1 column.2
    have y := digitsValue_pair_lt row.1 row.2
    constructor <;> simp only <;> omega
  | toward d numeral fits => exact fits

theorem text_toward (d : Direction) (n : Nat) :
    (toward d n).text.toList = d.abbreviation.toList ++ digits n := by
  simp only [text, String.toList_append, String.toList_ofList]

theorem spelledBy_text (h : step.Writable) : step.SpelledBy step.text.toList := by
  cases step with
  | reach cell =>
    obtain ⟨a, b, c, d, shape, column, row, x, y⟩ := Hex.text_eq h
    have spelled := SpelledBy.reach column row
    rwa [x, y, ← shape] at spelled
  | toward d n =>
    have spelled := SpelledBy.toward d (isNumeral_digits n) (by rw [digitsValue_digits]; exact h)
    rwa [digitsValue_digits, ← text_toward] at spelled

theorem parse?_text (h : step.Writable) : Step.parse? step.text.toList = some step :=
  parse?_eq_some_iff.mpr (spelledBy_text h)

theorem SpelledBy.isStepChar (h : step.SpelledBy token) {c : Char} (member : c ∈ token) : isStepChar c = true := by
  cases h with
  | reach column row =>
    simp only [List.mem_cons, List.not_mem_nil, or_false] at member
    rcases member with rfl | rfl | rfl | rfl <;> simp [HexAtlas.isStepChar, column, row]
  | toward d numeral fits =>
    rcases List.mem_append.mp member with letter | digit
    · rw [HexAtlas.isStepChar, (Direction.mem_abbreviation letter).1, Bool.or_true]
    · simp [HexAtlas.isStepChar, (isNumeral_iff.mp numeral).2 c digit]

theorem SpelledBy.not_isSeparator (h : step.SpelledBy token) {c : Char} (member : c ∈ token) :
    isSeparator c = false :=
  not_isSeparator_of_isStepChar (h.isStepChar member)

/-- A step is never written without a digit, which keeps it apart from the keywords. -/
theorem SpelledBy.exists_digit (h : step.SpelledBy token) : ∃ c ∈ token, isDigit c = true := by
  cases h with
  | reach column row => exact ⟨_, List.mem_cons_self, column.1⟩
  | @toward d number numeral fits =>
    obtain ⟨filled, all⟩ := isNumeral_iff.mp numeral
    obtain ⟨c, member⟩ := List.exists_mem_of_ne_nil number filled
    exact ⟨c, List.mem_append_right _ member, all c member⟩

theorem isStepChar_of_mem_text (h : step.Writable) {c : Char} (member : c ∈ step.text.toList) :
    isStepChar c = true :=
  (spelledBy_text h).isStepChar member

theorem not_isSeparator_of_mem_text (h : step.Writable) {c : Char} (member : c ∈ step.text.toList) :
    isSeparator c = false :=
  (spelledBy_text h).not_isSeparator member

theorem exists_digit_text (h : step.Writable) : ∃ c ∈ step.text.toList, isDigit c = true :=
  (spelledBy_text h).exists_digit

end Step

end HexAtlas
