import HexAtlas.Text.Numeral

namespace HexAtlas

theorem isDigit_of_mem_digits {n : Nat} {c : Char} (h : c ∈ digits n) : isDigit c = true := by
  have digit : c.isDigit = true := Nat.isDigit_of_mem_toDigits (by decide) (by decide) h
  simp only [Char.isDigit, Bool.and_eq_true, decide_eq_true_eq] at digit
  simp only [isDigit, Bool.and_eq_true, decide_eq_true_eq]
  exact digit

theorem isNumeral_iff {cs : List Char} : isNumeral cs = true ↔ cs ≠ [] ∧ ∀ c ∈ cs, isDigit c = true := by
  simp only [isNumeral, Bool.and_eq_true, decide_eq_true_eq, List.all_eq_true]

theorem digits_ne_nil (n : Nat) : digits n ≠ [] := Nat.toDigits_ne_nil

theorem isNumeral_digits (n : Nat) : isNumeral (digits n) = true :=
  isNumeral_iff.mpr ⟨digits_ne_nil n, fun _ => isDigit_of_mem_digits⟩

theorem digitsValue_eq_ofDigitChars (cs : List Char) : digitsValue cs = Nat.ofDigitChars 10 cs 0 := by
  simp only [digitsValue, Nat.ofDigitChars_eq_foldl]
  rfl

theorem digitsValue_digits (n : Nat) : digitsValue (digits n) = n := by
  rw [digitsValue_eq_ofDigitChars]
  exact Nat.ofDigitChars_ten_toDigits

theorem digitsValue_replicate_zero (k : Nat) (cs : List Char) :
    digitsValue (List.replicate k '0' ++ cs) = digitsValue cs := by
  simp only [digitsValue_eq_ofDigitChars, Nat.ofDigitChars_append, Nat.ofDigitChars_replicate_zero, Nat.mul_zero]

/-- The texts of a natural number: its digits, with any zeros in front. -/
structure NatText (cs : List Char) (n : Nat) : Prop where
  filled : cs ≠ []
  digits : ∀ c ∈ cs, c.isDigit = true
  value : Nat.ofDigitChars 10 cs 0 = n

/-- The texts of an integer: those of a natural number, which may have a sign. -/
inductive IntText : List Char → Int → Prop
  | bare {cs : List Char} {n : Nat} (digits : NatText cs n) : IntText cs n
  | plus {cs : List Char} {n : Nat} (digits : NatText cs n) : IntText ('+' :: cs) n
  | minus {cs : List Char} {n : Nat} (digits : NatText cs n) : IntText ('-' :: cs) (-n)

theorem natText_iff {cs : List Char} {n : Nat} : NatText cs n ↔ isNumeral cs = true ∧ digitsValue cs = n := by
  rw [isNumeral_iff, digitsValue_eq_ofDigitChars]
  exact ⟨fun h => ⟨⟨h.filled, h.digits⟩, h.value⟩, fun h => ⟨h.1.1, h.1.2, h.2⟩⟩

theorem NatText.ne_cons {cs : List Char} {n : Nat} (h : NatText cs n) {c : Char} (other : c.isDigit = false)
    (rest : List Char) : cs ≠ c :: rest := by
  rintro rfl
  have digit := h.digits c List.mem_cons_self
  rw [other] at digit
  cases digit

/-- A natural number is read with or without a plus sign, if it is below the limit. -/
theorem readNatBelow?_eq_some_iff_natText {limit n : Nat} {cs : List Char} :
    readNatBelow? limit cs = some n ↔ (NatText cs n ∨ ∃ ds, cs = '+' :: ds ∧ NatText ds n) ∧ n < limit := by
  have body (ds : List Char) :
    (if isNumeral ds && digitsValue ds < limit then some (digitsValue ds) else none) = some n ↔
      NatText ds n ∧ n < limit := by
    simp only [Option.ite_none_right_eq_some, Option.some.injEq, Bool.and_eq_true, decide_eq_true_eq, natText_iff]
    constructor
    · rintro ⟨⟨numeral, fits⟩, rfl⟩
      exact ⟨⟨numeral, rfl⟩, fits⟩
    · rintro ⟨⟨numeral, rfl⟩, fits⟩
      exact ⟨⟨numeral, fits⟩, rfl⟩
  unfold readNatBelow?
  split
  · rename_i rest
    rw [body]
    refine and_congr_left fun _ => ⟨fun text => Or.inr ⟨rest, rfl, text⟩, ?_⟩
    rintro (text | ⟨ds, same, text⟩)
    · exact absurd rfl (text.ne_cons rfl rest)
    · cases same
      exact text
  · rename_i bare
    rw [body]
    refine and_congr_left fun _ => ⟨Or.inl, ?_⟩
    rintro (text | ⟨ds, rfl, -⟩)
    · exact text
    · exact absurd rfl (bare ds)

/-- A plus sign is no digit, so digits are read as they are. -/
theorem readNatBelow?_eq_some_iff {limit n : Nat} {cs : List Char} (all : cs.all isDigit = true) :
    readNatBelow? limit cs = some n ↔ isNumeral cs = true ∧ digitsValue cs = n ∧ n < limit := by
  have unsigned : ¬ ∃ ds, cs = '+' :: ds ∧ NatText ds n := by
    rintro ⟨ds, rfl, -⟩
    exact absurd (List.all_eq_true.mp all '+' List.mem_cons_self) (by decide)
  rw [readNatBelow?_eq_some_iff_natText, or_iff_left unsigned, natText_iff, and_assoc]

theorem readNatBelow?_digits {limit n : Nat} (h : n < limit) : readNatBelow? limit (digits n) = some n :=
  (readNatBelow?_eq_some_iff (List.all_eq_true.mpr fun _ => isDigit_of_mem_digits)).mpr
    ⟨isNumeral_digits n, digitsValue_digits n, h⟩

/-- An integer is read with any sign, if it is within the limit on both sides. -/
theorem readIntWithin?_eq_some_iff {limit : Nat} (pos : 0 < limit) {i : Int} {cs : List Char} :
    readIntWithin? limit cs = some i ↔ IntText cs i ∧ -limit ≤ i ∧ i < limit := by
  unfold readIntWithin?
  split
  · rename_i rest
    simp only [Option.ite_none_right_eq_some, Option.some.injEq, Bool.and_eq_true, decide_eq_true_eq]
    constructor
    · rintro ⟨⟨numeral, fits⟩, rfl⟩
      exact ⟨.minus (natText_iff.mpr ⟨numeral, rfl⟩), by omega, by omega⟩
    · rintro ⟨text, lower, -⟩
      cases text with
      | bare digits => exact absurd rfl (digits.ne_cons rfl rest)
      | minus digits =>
        obtain ⟨numeral, rfl⟩ := natText_iff.mp digits
        exact ⟨⟨numeral, by omega⟩, rfl⟩
  · rename_i unsigned
    simp only [Option.map_eq_some_iff, readNatBelow?_eq_some_iff_natText, Int.ofNat_eq_natCast]
    constructor
    · rintro ⟨n, ⟨text | ⟨ds, rfl, text⟩, fits⟩, rfl⟩
      · exact ⟨.bare text, by omega, by omega⟩
      · exact ⟨.plus text, by omega, by omega⟩
    · rintro ⟨text, -, upper⟩
      cases text with
      | bare digits => exact ⟨_, ⟨Or.inl digits, by omega⟩, rfl⟩
      | plus digits => exact ⟨_, ⟨Or.inr ⟨_, rfl, digits⟩, by omega⟩, rfl⟩
      | minus digits => exact absurd rfl (unsigned _)

/-- A number below one hundred is written with two digits. -/
theorem padded_two {i : Int} (lower : 0 ≤ i) (upper : i ≤ 99) :
    ∃ a b, padded 2 i = [a, b] ∧ isDigit a = true ∧ isDigit b = true ∧ (digitsValue [a, b] : Int) = i := by
  have sign : ¬ i < 0 := by omega
  have zeros : padded 2 i = List.replicate (2 - (digits i.natAbs).length) '0' ++ digits i.natAbs := by
    simp only [padded, if_neg sign]
  have short : (digits i.natAbs).length ≤ 2 := (Nat.length_toDigits_le_iff (by decide) (by decide)).mpr (by omega)
  have length : (padded 2 i).length = 2 := by
    rw [zeros, List.length_append, List.length_replicate]
    omega
  obtain ⟨a, b, shape⟩ : ∃ a b, padded 2 i = [a, b] := by
    match padded 2 i, length with
    | [a, b], _ => exact ⟨a, b, rfl⟩
  have all : ∀ c ∈ padded 2 i, isDigit c = true := by
    intro c member
    rw [zeros, List.mem_append] at member
    rcases member with zero | digit
    · rw [(List.mem_replicate.mp zero).2]
      decide
    · exact isDigit_of_mem_digits digit
  have value : digitsValue (padded 2 i) = i.natAbs := by
    rw [zeros, digitsValue_replicate_zero, digitsValue_digits]
  rw [shape] at all value
  exact ⟨a, b, shape, all a (by simp), all b (by simp), by rw [value]; omega⟩

end HexAtlas
