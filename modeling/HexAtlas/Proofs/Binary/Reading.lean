import HexAtlas.Proofs.Binary.Extremes
import HexAtlas.Proofs.Line.Step
import HexAtlas.Proofs.Text.Decimal
import HexAtlas.Proofs.Text.Lowercase

namespace HexAtlas

/-- The texts of a decimal number: those without a sign, and a sign in front. -/
inductive DecimalText : List Char → ℚ → Prop
  | bare {cs : List Char} {n : ℕ} {place : ℤ} (digits : UnsignedText cs n place) : DecimalText cs (n * 10 ^ place)
  | plus {cs : List Char} {n : ℕ} {place : ℤ} (digits : UnsignedText cs n place) :
    DecimalText ('+' :: cs) (n * 10 ^ place)
  | minus {cs : List Char} {n : ℕ} {place : ℤ} (digits : UnsignedText cs n place) :
    DecimalText ('-' :: cs) (-(n * 10 ^ place))

/-- Of two nearest integers both would be even, and they are neighbours. -/
theorem Nearest.unique {x : ℚ} {m n : ℤ} (hm : Nearest x m) (hn : Nearest x n) : m = n := by
  by_contra other
  have apart : 1 ≤ |m - n| := Int.one_le_abs (sub_ne_zero.2 other)
  have gap : (1 : ℚ) ≤ |(m : ℚ) - n| := by exact_mod_cast apart
  have split : |(m : ℚ) - n| ≤ |m - x| + |n - x| := by
    rw [abs_sub_comm (n : ℚ) x]
    exact abs_sub_le _ _ _
  have nearM := hm.near
  have nearN := hn.near
  obtain ⟨a, rfl⟩ := hm.even (by linarith)
  obtain ⟨b, rfl⟩ := hn.even (by linarith)
  have close : |a + a - (b + b)| ≤ 1 := by exact_mod_cast (by linarith : |((a + a : ℤ) : ℚ) - (b + b : ℤ)| ≤ 1)
  rw [abs_le] at close
  omega

theorem NumberFormat.Step.unique {f : NumberFormat} {q : ℚ} {e k : ℤ} (h : f.Step q e) (h' : f.Step q k) : e = k :=
  le_antisymm (h.le h'.finest h'.below) (h'.le h.finest h.below)

namespace Magnitude

variable {f : NumberFormat}

theorem value_lt_ceiling (s : Magnitude f) : s.value < 2 ^ f.ceiling := by
  have small : (s.significand : ℚ) < 2 ^ (f.precision : ℤ) := by
    have := s.held.1
    rw [NumberFormat.limit, Nat.pow_eq] at this
    exact_mod_cast this
  calc s.value < 2 ^ (f.precision : ℤ) * 2 ^ s.exponent := by rw [value]; gcongr
    _ = 2 ^ (f.precision + s.exponent) := (zpow_add₀ two_ne_zero _ _).symm
    _ ≤ 2 ^ f.ceiling := zpow_le_zpow_right₀ (by norm_num) (by have := s.held.2.2.2; omega)

end Magnitude

namespace Binary

variable {f : NumberFormat} {x y : Binary f} {q : ℚ}

theorem Rounds.unique (hx : Rounds x q) (hy : Rounds y q) : x.value = y.value := by
  obtain ⟨e, m, step, near, value⟩ := hx.nearest
  obtain ⟨e', m', step', near', value'⟩ := hy.nearest
  obtain rfl := step.unique step'
  rw [value, value', near.unique near']

theorem value_lt_ceiling (x : Binary f) : x.value < 2 ^ f.ceiling := by
  have pos : (0 : ℚ) < 2 ^ f.ceiling := by positivity
  rcases x with _ | _ | ⟨_ | _, s⟩
  · exact pos
  · exact pos
  · exact s.value_lt_ceiling
  · exact lt_of_le_of_lt (neg_nonpos.2 s.value_nonneg) pos

/-- A positive number is what `q` is rounded to by the operations exactly if it is the nearest one. -/
theorem rounds_iff_eq_round (roomy : f.Roomy) (nonneg : 0 ≤ q) (nonzero : x.value ≠ 0) :
    Rounds x q ↔ x = round f false q := by
  obtain ⟨e, m, step, near, ⟨s, found, whole⟩ | ⟨none, large⟩⟩ := Magnitude.exists_step_nearest? roomy nonneg
  · have here : round f false q = finite false s := by rw [round, found]
    have rounds : Rounds (finite false s) q := ⟨rfl, e, m, step, near, whole⟩
    rw [here]
    constructor
    · intro h
      have same := h.unique rounds
      rcases x with _ | _ | ⟨_ | _, t⟩
      · exact absurd rfl nonzero
      · exact absurd rfl nonzero
      · rw [Magnitude.value_injective roomy same]
      · -- a negative number has no value that is positive
        have below : (finite true t).value ≤ 0 := neg_nonpos.2 t.value_nonneg
        have above : 0 ≤ (finite false s).value := s.value_nonneg
        exact absurd (le_antisymm below (same ▸ above)) nonzero
    · rintro rfl
      exact rounds
  · have here : round f false q = infinite false := by rw [round, none]
    rw [here]
    constructor
    · intro h
      obtain ⟨e', m', step', near', value⟩ := h.nearest
      obtain rfl := step.unique step'
      obtain rfl := near.unique near'
      exact absurd (value ▸ large) x.value_lt_ceiling.not_ge
    · rintro rfl
      exact absurd rfl nonzero

theorem neg_neg (x : Binary f) : - -x = x := by
  rcases x with _ | _ | ⟨_, s⟩ <;> simp [Neg.neg, neg]

theorem rounds_iff_eq_round_of_sign (roomy : f.Roomy) (nonneg : 0 ≤ q) (nonzero : x.value ≠ 0) (negative : Bool) :
    Rounds x (if negative then -q else q) ↔ x = round f negative q := by
  cases negative with
  | false => exact rounds_iff_eq_round roomy nonneg nonzero
  | true =>
    have turned : Rounds (-x) q ↔ -x = round f false q :=
      rounds_iff_eq_round roomy nonneg (by rwa [value_neg, neg_ne_zero])
    constructor
    · intro h
      have there := turned.1 (by simpa using h.neg)
      rw [← neg_neg x, there, neg_round]
      rfl
    · rintro rfl
      have back : -round f true q = round f false q := neg_round true q
      simpa [neg_neg] using (turned.2 back).neg

/-- Numbers from the ceiling on are infinite. -/
theorem round_of_large (roomy : f.Roomy) (negative : Bool) (large : 2 ^ f.ceiling ≤ q) :
    round f negative q = infinite negative := by
  have nonneg : 0 ≤ q := le_trans (by positivity) large
  obtain ⟨e, m, step, near, ⟨s, found, whole⟩ | ⟨none, -⟩⟩ := Magnitude.exists_step_nearest? roomy nonneg
  · have below := step.below
    have full := step.full
    rw [abs_of_nonneg nonneg] at below full
    have room : f.ceiling < f.precision + e :=
      (zpow_lt_zpow_iff_right₀ (by norm_num : (1 : ℚ) < 2)).1 (large.trans_lt below)
    have full : (2 : ℚ) ^ (f.precision + e - 1) ≤ q := full.resolve_left (by have := roomy.2; omega)
    obtain ⟨p, precision⟩ : ∃ p : ℕ, f.precision = p + 1 := ⟨_, (Nat.sub_add_cancel roomy.1).symm⟩
    have above : (2 : ℚ) ^ p ≤ q / 2 ^ e := by
      rw [le_div_iff₀ (by positivity), ← zpow_natCast, ← zpow_add₀ two_ne_zero]
      exact le_of_eq_of_le (by congr 1; omega) full
    have close := (abs_le.1 (by linarith [near.near] : |(m : ℚ) - q / 2 ^ e| ≤ 1 / 2)).1
    have least : (2 : ℤ) ^ p ≤ m := Int.lt_add_one_iff.1 (by exact_mod_cast (by linarith : (2 : ℚ) ^ p < m + 1))
    have size : (2 : ℚ) ^ f.ceiling ≤ s.value :=
      calc (2 : ℚ) ^ f.ceiling ≤ 2 ^ ((p : ℤ) + e) := zpow_le_zpow_right₀ (by norm_num) (by omega)
        _ = 2 ^ p * 2 ^ e := by rw [zpow_add₀ two_ne_zero, zpow_natCast]
        _ ≤ m * 2 ^ e := by gcongr; exact_mod_cast least
        _ = s.value := whole.symm
    exact absurd size s.value_lt_ceiling.not_ge
  · rw [round, none]

/-- Below half of the finest step zero is nearest. -/
theorem exists_nearest?_of_small (roomy : f.Roomy) (nonneg : 0 ≤ q) (small : q < 2 ^ (f.finest - 1)) :
    ∃ s, Magnitude.nearest? f q = some s ∧ s.value = 0 := by
  have room : q < 2 ^ (f.ceiling - 1) :=
    small.trans_le (zpow_le_zpow_right₀ (by norm_num) (by have := roomy.2; omega))
  obtain ⟨s, e, m, found, step, near, whole⟩ := Magnitude.exists_nearest? roomy nonneg room
  have fine : e = f.finest := by
    refine step.full.resolve_right fun full => ?_
    rw [abs_of_nonneg nonneg] at full
    have := (zpow_lt_zpow_iff_right₀ (by norm_num : (1 : ℚ) < 2)).1 (full.trans_lt small)
    have := roomy.1
    have := step.finest
    omega
  have half : q / 2 ^ e < 1 / 2 := by
    rw [div_lt_iff₀ (by positivity), fine]
    refine small.trans_eq ?_
    rw [zpow_sub_one₀ two_ne_zero]
    ring
  have bounds := abs_le.1 (by linarith [near.near] : |(m : ℚ) - q / 2 ^ e| ≤ 1 / 2)
  have lower : 0 ≤ q / 2 ^ e := by positivity
  have short : |(m : ℚ)| < 1 := abs_lt.2 ⟨by linarith [bounds.1], by linarith [bounds.2]⟩
  have zero : m = 0 := Int.abs_lt_one_iff.1 (by exact_mod_cast short)
  exact ⟨s, found, by rw [whole, zero, Int.cast_zero, zero_mul]⟩

theorem round_of_small (roomy : f.Roomy) (negative : Bool) (nonneg : 0 ≤ q) (small : q < 2 ^ (f.finest - 1)) :
    round f negative q = zero f negative := by
  obtain ⟨s, found, value⟩ := exists_nearest?_of_small roomy nonneg small
  obtain ⟨t, found', value'⟩ := exists_nearest?_of_small roomy le_rfl (by positivity : (0 : ℚ) < 2 ^ (f.finest - 1))
  rw [zero, round, round, found, found', Magnitude.value_injective roomy (value.trans value'.symm)]

theorem pow_length_digits {n : ℕ} (positive : n ≠ 0) :
    10 ^ ((digits n).length - 1) ≤ n ∧ n < 10 ^ (digits n).length := by
  have filled : 0 < (digits n).length := List.length_pos_iff.2 (digits_ne_nil n)
  refine ⟨?_, (Nat.length_toDigits_le_iff (by decide) filled).1 le_rfl⟩
  by_cases single : (digits n).length = 1
  · rw [single]
    exact Nat.one_le_iff_ne_zero.2 positive
  · by_contra less
    have shorter : (digits n).length ≤ (digits n).length - 1 ↔ n < 10 ^ ((digits n).length - 1) :=
      Nat.length_toDigits_le_iff (by decide) (by omega)
    have := shorter.2 (not_le.1 less)
    omega

/-- A decimal lies between the powers of ten around the place of its point. -/
theorem decimal_bounds {n : ℕ} (positive : n ≠ 0) (place : ℤ) :
    (10 : ℚ) ^ ((digits n).length + place - 1) ≤ n * 10 ^ place ∧
      n * (10 : ℚ) ^ place < 10 ^ ((digits n).length + place) := by
  have filled : 0 < (digits n).length := List.length_pos_iff.2 (digits_ne_nil n)
  obtain ⟨lower, upper⟩ := pow_length_digits positive
  constructor
  · calc (10 : ℚ) ^ ((digits n).length + place - 1)
        = 10 ^ ((digits n).length - 1) * 10 ^ place := by
          rw [← zpow_natCast, ← zpow_add₀ (by norm_num)]
          congr 1
          omega
      _ ≤ n * 10 ^ place := by gcongr; exact_mod_cast lower
  · calc n * (10 : ℚ) ^ place < 10 ^ (digits n).length * 10 ^ place := by gcongr; exact_mod_cast upper
      _ = 10 ^ ((digits n).length + place) := by rw [zpow_add₀ (by norm_num), zpow_natCast]

/-- Three powers of two are less than one of ten. -/
theorem two_zpow_le_ten_zpow {k : ℤ} (nonneg : 0 ≤ k) : (2 : ℚ) ^ (3 * k) ≤ 10 ^ k := by
  obtain ⟨j, rfl⟩ := Int.eq_ofNat_of_zero_le nonneg
  rw [zpow_mul, zpow_natCast, zpow_natCast]
  exact pow_le_pow_left₀ (by norm_num) (by norm_num) j

/-- Numbers that are told without their power of ten are rounded all the same. -/
theorem ofDecimal_eq_round (roomy : f.Roomy) (negative : Bool) (n : ℕ) (place : ℤ) :
    ofDecimal f negative n place = round f negative (n * 10 ^ place) := by
  have nonneg : (0 : ℚ) ≤ n * 10 ^ place := by positivity
  unfold ofDecimal
  simp only
  split_ifs with none high low
  · rw [none, Nat.cast_zero, zero_mul, zero]
  · simp only [Bool.and_eq_true, decide_eq_true_eq] at high
    refine (round_of_large roomy negative ?_).symm
    calc (2 : ℚ) ^ f.ceiling ≤ 2 ^ (3 * ((digits n).length + place - 1)) := zpow_le_zpow_right₀ (by norm_num) high.2
      _ ≤ 10 ^ ((digits n).length + place - 1) := two_zpow_le_ten_zpow (by omega)
      _ ≤ n * 10 ^ place := (decimal_bounds none place).1
  · simp only [Bool.and_eq_true, decide_eq_true_eq] at low
    refine (round_of_small roomy negative nonneg ?_).symm
    have inverse := two_zpow_le_ten_zpow (k := -((digits n).length + place)) (by omega)
    rw [mul_neg, zpow_neg, zpow_neg, inv_le_inv₀ (by positivity) (by positivity)] at inverse
    calc n * (10 : ℚ) ^ place < 10 ^ ((digits n).length + place) := (decimal_bounds none place).2
      _ ≤ 2 ^ (3 * ((digits n).length + place)) := inverse
      _ ≤ 2 ^ (f.finest - 1) := zpow_le_zpow_right₀ (by norm_num) (by omega)
  · rfl

end Binary

/-- A decimal begins with a digit or with its point. -/
theorem UnsignedText.exists_cons {cs : List Char} {n : ℕ} {place : ℤ} (h : UnsignedText cs n place) :
    ∃ c rest, cs = c :: rest ∧ (c.isDigit = true ∨ c = '.') := by
  cases h with
  | whole number scale =>
    obtain ⟨c, more, rfl⟩ := List.exists_cons_of_ne_nil number.filled
    exact ⟨c, _, rfl, .inl (number.digits c List.mem_cons_self)⟩
  | @point front back power n k number scale =>
    cases front with
    | nil => exact ⟨'.', _, rfl, .inr rfl⟩
    | cons c more => exact ⟨c, _, rfl, .inl (number.digits c List.mem_cons_self)⟩

theorem UnsignedText.ne_cons {cs : List Char} {n : ℕ} {place : ℤ} (h : UnsignedText cs n place) {c : Char}
    (other : c.isDigit = false ∧ c ≠ '.') (rest : List Char) : cs ≠ c :: rest := by
  obtain ⟨d, more, rfl, digit | rfl⟩ := h.exists_cons
  · rintro ⟨rfl, rfl⟩
    rw [other.1] at digit
    cases digit
  · rintro ⟨rfl, rfl⟩
    exact other.2 rfl

/-- Small letters do not make a name of a decimal. -/
theorem UnsignedText.map_toLower_ne {cs : List Char} {n : ℕ} {place : ℤ} (h : UnsignedText cs n place) {c : Char}
    (letter : c.isDigit = false ∧ c ≠ '.') (rest : List Char) : cs.map Char.toLower ≠ c :: rest := by
  obtain ⟨d, more, rfl, first⟩ := h.exists_cons
  have kept : d.toLower = d := by
    rcases first with digit | rfl
    · have range := toNat_of_isDigit digit
      exact LetterCase.toLower_of_not_capital (by omega)
    · rfl
  rw [List.map_cons, kept]
  rintro ⟨rfl, -⟩
  exact h.ne_cons letter more rfl

/-- Reads a number without a sign, and takes the sign from elsewhere. -/
def readUnsigned? (negative : Bool) (body : List Char) : Option Double :=
  let name := body.map Char.toLower
  if name = "inf".toList || name = "infinity".toList then some (.infinite negative)
  else if name = "nan".toList then some .nan
  else (readDecimal? body).map fun (significant, place) => .ofDecimal .double negative significant place

/-- Whether the number is negative, and its text without a sign. -/
def takeSign (cs : List Char) : Bool × List Char :=
  match cs with
  | '-' :: rest => (true, rest)
  | '+' :: rest => (false, rest)
  | _ => (false, cs)

theorem readDouble?_eq (cs : List Char) : readDouble? cs = readUnsigned? (takeSign cs).1 (takeSign cs).2 := rfl

section Reading

variable {x : Double} (nonzero : x.value ≠ 0)

include nonzero

theorem readUnsigned?_eq_some_iff {negative : Bool} {body : List Char} :
    readUnsigned? negative body = some x ↔ ∃ n place, UnsignedText body n place ∧
      Binary.Rounds x (if negative then -(n * 10 ^ place) else n * 10 ^ place) := by
  have rounds (n : ℕ) (place : ℤ) : Binary.Rounds x (if negative then -(n * 10 ^ place) else n * 10 ^ place) ↔
      x = .ofDecimal .double negative n place := by
    rw [Binary.ofDecimal_eq_round NumberFormat.roomy_double]
    exact Binary.rounds_iff_eq_round_of_sign NumberFormat.roomy_double (by positivity) nonzero negative
  simp only [rounds]
  unfold readUnsigned?
  simp only
  constructor
  · intro read
    split_ifs at read
    · cases read
      exact absurd rfl nonzero
    · cases read
      exact absurd rfl nonzero
    · obtain ⟨⟨n, place⟩, digits, rfl⟩ := Option.map_eq_some_iff.mp read
      exact ⟨n, place, readDecimal?_eq_some_iff.mp digits, rfl⟩
  · rintro ⟨n, place, text, rfl⟩
    have infinite : ¬ (body.map Char.toLower = "inf".toList || body.map Char.toLower = "infinity".toList) := by
      simp only [Bool.or_eq_true, decide_eq_true_eq]
      rintro (short | long)
      · exact text.map_toLower_ne (by decide) _ short
      · exact text.map_toLower_ne (by decide) _ long
    have nan : ¬ body.map Char.toLower = "nan".toList := text.map_toLower_ne (by decide) _
    rw [if_neg infinite, if_neg nan, readDecimal?_eq_some_iff.mpr text]
    rfl

/-- A finite number other than zero is read exactly off the decimals that it is nearest to. -/
theorem readDouble?_eq_some_iff {cs : List Char} :
    readDouble? cs = some x ↔ ∃ q, DecimalText cs q ∧ Binary.Rounds x q := by
  rw [readDouble?_eq, readUnsigned?_eq_some_iff nonzero]
  constructor
  · rintro ⟨n, place, text, rounds⟩
    generalize sign : takeSign cs = signed at text rounds
    unfold takeSign at sign
    split at sign <;> subst sign
    · exact ⟨_, .minus text, rounds⟩
    · exact ⟨_, .plus text, rounds⟩
    · exact ⟨_, .bare text, rounds⟩
  · rintro ⟨q, text, rounds⟩
    cases text with
    | @bare cs n place text =>
      have unsigned : takeSign cs = (false, cs) := by
        unfold takeSign
        split
        · exact absurd rfl (text.ne_cons (by decide) _)
        · exact absurd rfl (text.ne_cons (by decide) _)
        · rfl
      rw [unsigned]
      exact ⟨n, place, text, rounds⟩
    | plus text => exact ⟨_, _, text, rounds⟩
    | minus text => exact ⟨_, _, text, rounds⟩

end Reading

end HexAtlas
