import HexAtlas.Options
import HexAtlas.Proofs.Line.Step
import Mathlib.Data.List.Basic

namespace HexAtlas

/-- The range of a signed 32-bit word. -/
def IsCoordinate (i : Int) : Prop := -2147483648 ≤ i ∧ i < 2147483648

instance (i : Int) : Decidable (IsCoordinate i) := inferInstanceAs (Decidable (_ ∧ _))

theorem isBlank_eq_false_of_mem_intDigits {i : Int} {c : Char} (member : c ∈ intDigits i) : isBlank c = false := by
  unfold intDigits at member
  split at member
  · rcases List.mem_cons.mp member with rfl | digit
    · decide
    · exact not_isBlank_of_isDigit (isDigit_of_mem_digits digit)
  · exact not_isBlank_of_isDigit (isDigit_of_mem_digits member)

theorem intDigits_ne_nil (i : Int) : intDigits i ≠ [] := by
  unfold intDigits
  split
  · exact List.cons_ne_nil _ _
  · exact digits_ne_nil _

theorem readCoordinate?_intDigits {i : Int} (h : IsCoordinate i) : readCoordinate? (intDigits i) = some i := by
  obtain ⟨lower, upper⟩ := h
  unfold readCoordinate? readIntWithin? intDigits
  by_cases negative : i < 0
  · have within : i.natAbs ≤ 2147483648 := by omega
    have value : -(i.natAbs : Int) = i := by omega
    simp only [if_pos negative, isNumeral_digits, digitsValue_digits, within, value, decide_true, Bool.and_self,
      if_true]
  · have within : i.natAbs < 2147483648 := by omega
    have value : Int.ofNat i.natAbs = i := Int.natAbs_of_nonneg (by omega)
    rw [if_neg negative]
    split
    · rename_i rest start
      have dash : isDigit '-' = true := isDigit_of_mem_digits (n := i.natAbs) (start ▸ List.mem_cons_self)
      exact absurd dash (by decide)
    · rw [readNatBelow?_digits within, Option.map_some, value]

theorem length_digits_eq_four_iff (n : Nat) : (digits n).length = 4 ↔ 1000 ≤ n ∧ n ≤ 9999 := by
  have most : (digits n).length ≤ 4 ↔ n < 10 ^ 4 := Nat.length_toDigits_le_iff (by decide) (by decide)
  have fewer : (digits n).length ≤ 3 ↔ n < 10 ^ 3 := Nat.length_toDigits_le_iff (by decide) (by decide)
  omega

namespace Hex

/-- Column and row as two words. -/
def twoWords (h : Hex) : List Char := intDigits h.x ++ ' ' :: intDigits h.y

theorem length_of_parse? {cs : List Char} {cell : Hex} (read : Hex.parse? cs = some cell) : cs.length = 4 := by
  obtain ⟨x, y, row, column, rest, -⟩ := parse?_eq_some_iff.mp read
  obtain ⟨a, b, rfl, -⟩ := twoDigits?_eq_some_iff.mp column
  obtain ⟨c, d, rfl, -⟩ := twoDigits?_eq_some_iff.mp rest
  rfl

/-- Of all integers, those of four digits without a sign are read as a cell. -/
theorem parse?_intDigits (i : Int) :
    Hex.parse? (intDigits i) = if 1000 ≤ i ∧ i ≤ 9999 then some ⟨i / 100, i % 100⟩ else none := by
  by_cases negative : i < 0
  · have sign : intDigits i = '-' :: digits i.natAbs := if_pos negative
    obtain ⟨d, more, shape⟩ := List.exists_cons_of_ne_nil (digits_ne_nil i.natAbs)
    have dash : isDigit '-' = false := rfl
    rw [sign, shape, if_neg (by omega)]
    simp [Hex.parse?, twoDigits?, dash]
  · have plain : intDigits i = digits i.natAbs := if_neg negative
    rw [plain]
    by_cases four : 1000 ≤ i ∧ i ≤ 9999
    · have length := (length_digits_eq_four_iff i.natAbs).mpr (by omega)
      have value := digitsValue_digits i.natAbs
      have all : ∀ c ∈ digits i.natAbs, isDigit c = true := fun c => isDigit_of_mem_digits
      obtain ⟨a, b, c, d, shape⟩ := List.length_eq_four.mp length
      rw [shape] at value all
      obtain ⟨first, second, third, fourth⟩ : isDigit a = true ∧ isDigit b = true ∧ isDigit c = true ∧
          isDigit d = true := by simpa using all
      have small := digitsValue_pair_lt third fourth
      have whole : digitsValue [a, b, c, d] = 100 * digitsValue [a, b] + digitsValue [c, d] := by
        simp only [digitsValue, List.foldl_cons, List.foldl_nil]
        omega
      have column : (digitsValue [a, b] : Int) = i / 100 := by omega
      have row : (digitsValue [c, d] : Int) = i % 100 := by omega
      simp [shape, Hex.parse?, twoDigits?, first, second, third, fourth, column, row, four]
    · rw [if_neg four, Option.eq_none_iff_forall_not_mem]
      intro cell read
      have range := (length_digits_eq_four_iff i.natAbs).mp (length_of_parse? read)
      omega

end Hex

namespace Hex

theorem natText_pair_iff {a b : Char} {n : Nat} :
    NatText [a, b] n ↔ (isDigit a = true ∧ isDigit b = true) ∧ digitsValue [a, b] = n := by
  simp [natText_iff, isNumeral]

/-- A cell is read off the four digits of its column and its row. -/
theorem parse?_eq_some_iff_natText {cs : List Char} {cell : Hex} :
    Hex.parse? cs = some cell ↔ ∃ a b c d x y, cs = [a, b, c, d] ∧ NatText [a, b] x ∧ NatText [c, d] y ∧
      cell = ⟨x, y⟩ := by
  simp only [parse?_eq_some_iff, twoDigits?_eq_some_iff, natText_pair_iff]
  constructor
  · rintro ⟨x, y, _, ⟨a, b, rfl, digitA, digitB, column⟩, ⟨c, d, rfl, digitC, digitD, row⟩, rfl⟩
    exact ⟨a, b, c, d, x, y, rfl, ⟨⟨digitA, digitB⟩, column⟩, ⟨⟨digitC, digitD⟩, row⟩, rfl⟩
  · rintro ⟨a, b, c, d, x, y, rfl, ⟨⟨digitA, digitB⟩, column⟩, ⟨⟨digitC, digitD⟩, row⟩, rfl⟩
    exact ⟨x, y, [c, d], ⟨a, b, rfl, digitA, digitB, column⟩, ⟨c, d, rfl, digitC, digitD, row⟩, rfl⟩

theorem parse?_eq_none_iff {cs : List Char} :
    Hex.parse? cs = none ↔ ¬ (cs.length = 4 ∧ ∀ c ∈ cs, c.isDigit = true) := by
  rw [Option.eq_none_iff_forall_ne_some, ← not_exists, not_iff_not]
  constructor
  · rintro ⟨cell, read⟩
    obtain ⟨a, b, c, d, x, y, rfl, column, row, -⟩ := parse?_eq_some_iff_natText.mp read
    refine ⟨rfl, fun e member => ?_⟩
    rcases List.mem_append.mp (show e ∈ [a, b] ++ [c, d] from member) with inColumn | inRow
    · exact column.digits e inColumn
    · exact row.digits e inRow
  · rintro ⟨four, digits⟩
    obtain ⟨a, b, c, d, rfl⟩ := List.length_eq_four.mp four
    refine ⟨⟨_, _⟩, parse?_eq_some_iff_natText.mpr
      ⟨a, b, c, d, _, _, rfl, ⟨by simp, ?_, rfl⟩, ⟨by simp, ?_, rfl⟩, rfl⟩⟩
    · exact fun e member => digits e (List.mem_append_left [c, d] member)
    · exact fun e member => digits e (List.mem_append_right [a, b] member)

end Hex

namespace Setting

/-- The words that give a cell: one of four digits for its column and its row, or else two integers that fit a
32-bit word. What comes behind them does not count. -/
inductive IsCentre : List (List Char) → Hex → Prop
  | digits {a b c d : Char} {x y : Nat} (column : NatText [a, b] x) (row : NatText [c, d] y)
    (more : List (List Char)) : IsCentre ([a, b, c, d] :: more) ⟨x, y⟩
  | integers {first second : List Char} {x y : Int} (other : ¬ (first.length = 4 ∧ ∀ c ∈ first, c.isDigit = true))
    (column : IntText first x ∧ IsCoordinate x) (row : IntText second y ∧ IsCoordinate y)
    (more : List (List Char)) : IsCentre (first :: second :: more) ⟨x, y⟩

theorem readCoordinate?_eq_some_iff {cs : List Char} {i : Int} :
    readCoordinate? cs = some i ↔ IntText cs i ∧ IsCoordinate i :=
  readIntWithin?_eq_some_iff (by decide)

theorem centre?_eq_some_iff {args : List (List Char)} {cell : Hex} :
    centre? args = some cell ↔ IsCentre args cell := by
  constructor
  · intro found
    obtain ⟨first, atHead, h⟩ := Option.bind_eq_some_iff.mp found
    obtain ⟨rest, rfl⟩ := List.head?_eq_some_iff.mp atHead
    split at h
    · rename_i own read
      cases h
      obtain ⟨a, b, c, d, x, y, rfl, column, row, rfl⟩ := Hex.parse?_eq_some_iff_natText.mp read
      exact .digits column row rest
    · rename_i first' second more other same
      cases same
      obtain ⟨x, column, h⟩ := Option.bind_eq_some_iff.mp h
      obtain ⟨y, row, h⟩ := Option.bind_eq_some_iff.mp h
      cases h
      exact .integers (Hex.parse?_eq_none_iff.mp other) (readCoordinate?_eq_some_iff.mp column)
        (readCoordinate?_eq_some_iff.mp row) more
    · cases h
  · intro given
    cases given with
    | @digits a b c d x y column row more =>
      have read := Hex.parse?_eq_some_iff_natText.mpr ⟨a, b, c, d, x, y, rfl, column, row, rfl⟩
      simp [centre?, read]
    | integers other column row more =>
      have unread := Hex.parse?_eq_none_iff.mpr other
      simp [centre?, unread, readCoordinate?_eq_some_iff.mpr column, readCoordinate?_eq_some_iff.mpr row]

theorem words_visible {cs : List Char} (visible : ∀ c ∈ cs, isBlank c = false) (nonempty : cs ≠ []) :
    words cs = [cs] := by
  have cut : words (cs ++ []) = cs :: words [] := words_append visible nonempty nofun
  rwa [List.append_nil, words_nil] at cut

theorem words_space {token : List Char} (visible : ∀ c ∈ token, isBlank c = false) (nonempty : token ≠ [])
    (cs : List Char) : words (token ++ ' ' :: cs) = token :: words cs := by
  have ends : EndsWord (' ' :: cs) := fun c atHead => by cases atHead; decide
  have gap : words (' ' :: cs) = words cs := words_gap (List.forall_mem_singleton.mpr (by decide)) cs
  rw [words_append visible nonempty ends, gap]

theorem parse?_centeredAt {args : List (List Char)} {cs : List Char} (read : words cs = args) :
    parse? ("centered-at ".toList ++ cs) = some (.centeredAt (centre? args)) := by
  have visible : ∀ c ∈ "centered-at".toList, isBlank c = false := all_visible_iff.mp (by decide)
  have cut : words ("centered-at ".toList ++ cs) = "centered-at".toList :: words cs :=
    words_space visible (by decide) cs
  rw [parse?, cut, read]
  rfl

theorem words_twoWords (cell : Hex) : words cell.twoWords = [intDigits cell.x, intDigits cell.y] := by
  rw [Hex.twoWords, words_space (fun _ => isBlank_eq_false_of_mem_intDigits) (intDigits_ne_nil _),
    words_visible (fun _ => isBlank_eq_false_of_mem_intDigits) (intDigits_ne_nil _)]

/-- The row is read only if the column is not a word of four digits. -/
theorem centre?_twoWords {cell : Hex} (x : IsCoordinate cell.x) (y : IsCoordinate cell.y) :
    centre? [intDigits cell.x, intDigits cell.y] =
      some (if 1000 ≤ cell.x ∧ cell.x ≤ 9999 then ⟨cell.x / 100, cell.x % 100⟩ else cell) := by
  have column := Hex.parse?_intDigits cell.x
  by_cases four : 1000 ≤ cell.x ∧ cell.x ≤ 9999
  · rw [if_pos four] at column
    simp [centre?, column, four]
  · rw [if_neg four] at column
    simp [centre?, column, four, readCoordinate?_intDigits x, readCoordinate?_intDigits y]

/-- A cell that is given by two words is the centre exactly if its column has not four digits; otherwise the digits
of the column are taken for column and row. For a cell of the grid one word of four digits means the same as two
words. -/
theorem parse?_twoWords_iff {cell : Hex} (x : IsCoordinate cell.x) (y : IsCoordinate cell.y) :
    (parse? ("centered-at ".toList ++ cell.twoWords) = some (.centeredAt (some cell)) ↔
        ¬ (1000 ≤ cell.x ∧ cell.x ≤ 9999)) ∧
      (1000 ≤ cell.x ∧ cell.x ≤ 9999 → parse? ("centered-at ".toList ++ cell.twoWords) =
        some (.centeredAt (some ⟨cell.x / 100, cell.x % 100⟩))) ∧
      (cell.OnGrid → parse? ("centered-at ".toList ++ cell.text.toList) =
        parse? ("centered-at ".toList ++ cell.twoWords)) := by
  have read := parse?_centeredAt (words_twoWords cell)
  rw [centre?_twoWords x y] at read
  refine ⟨?_, fun four => by rw [read, if_pos four], fun grid => ?_⟩
  · rw [read]
    by_cases four : 1000 ≤ cell.x ∧ cell.x ≤ 9999
    · have other : (⟨cell.x / 100, cell.x % 100⟩ : Hex) ≠ cell := by
        intro same
        have column : cell.x / 100 = cell.x := congrArg Hex.x same
        omega
      simp [four, other]
    · simp [four]
  · have short : ¬ (1000 ≤ cell.x ∧ cell.x ≤ 9999) := by
      have bound := grid.x_le
      omega
    have visible : ∀ c ∈ cell.text.toList, isBlank c = false := fun c member =>
      not_isBlank_of_isDigit (Hex.isDigit_of_mem_text grid member)
    have filled : cell.text.toList ≠ [] := by
      intro empty
      have length := Hex.length_text grid
      rw [empty] at length
      cases length
    rw [read, if_neg short, parse?_centeredAt (words_visible visible filled)]
    simp [centre?, Hex.parse?_text grid]

/-- The smallest column with the largest row, and a cell of the grid in both forms. -/
theorem parse?_twoWords_iff_extreme :
    (IsCoordinate (-2147483648) ∧ IsCoordinate 2147483647 ∧
      parse? "centered-at -2147483648 2147483647".toList = some (.centeredAt (some ⟨-2147483648, 2147483647⟩))) ∧
    IsCoordinate 4 ∧ IsCoordinate 2 ∧ Hex.OnGrid ⟨4, 2⟩ ∧
      parse? "centered-at 0402".toList = parse? "centered-at 4 2".toList := by
  have low : IsCoordinate (-2147483648) := by decide
  have high : IsCoordinate 2147483647 := by decide
  have far : "centered-at -2147483648 2147483647".toList =
      "centered-at ".toList ++ Hex.twoWords ⟨-2147483648, 2147483647⟩ := by decide +kernel
  have four : IsCoordinate 4 := by decide
  have two : IsCoordinate 2 := by decide
  have grid : Hex.OnGrid ⟨4, 2⟩ := ⟨by decide, by decide, by decide, by decide⟩
  have near : "centered-at 0402".toList = "centered-at ".toList ++ (Hex.text ⟨4, 2⟩).toList ∧
      "centered-at 4 2".toList = "centered-at ".toList ++ Hex.twoWords ⟨4, 2⟩ := by decide +kernel
  refine ⟨⟨low, high, ?_⟩, four, two, grid, ?_⟩
  · rw [far]
    exact (parse?_twoWords_iff low high).1.mpr (by decide)
  · rw [near.1, near.2]
    exact (parse?_twoWords_iff four two).2.2 grid

/-- A column of four digits stands for column and row, and the row behind it is not read. -/
theorem not_forall_parse?_twoWords :
    (¬ ∀ cell : Hex, IsCoordinate cell.x → IsCoordinate cell.y →
      parse? ("centered-at ".toList ++ cell.twoWords) = some (.centeredAt (some cell))) ∧
    parse? "centered-at 1000 5".toList = some (.centeredAt (some ⟨10, 0⟩)) := by
  have taken : parse? ("centered-at ".toList ++ Hex.twoWords ⟨1000, 5⟩) = some (.centeredAt (some ⟨10, 0⟩)) := by
    decide +kernel
  refine ⟨fun all => ?_, by decide +kernel⟩
  have read := all ⟨1000, 5⟩ (by decide) (by decide)
  rw [taken] at read
  exact absurd read (by decide)

end Setting
end HexAtlas
