import HexAtlas.Binary.Basic
import Mathlib.Algebra.Order.Field.Power
import Mathlib.Algebra.Ring.Int.Parity
import Mathlib.Data.Rat.Cast.Order
import Mathlib.Tactic.FieldSimp
import Mathlib.Tactic.GCongr
import Mathlib.Tactic.Linarith
import Mathlib.Tactic.Positivity
import Mathlib.Tactic.Ring

namespace HexAtlas

/-- `n` is an integer nearest to `x`, and the even one of two. -/
structure Nearest (x : ℚ) (n : ℤ) : Prop where
  near : 2 * |n - x| ≤ 1
  even : 2 * |n - x| = 1 → Even n

theorem Nearest.neg {x : ℚ} {n : ℤ} (h : Nearest x n) : Nearest (-x) (-n) := by
  have turn : |((-n : ℤ) : ℚ) - -x| = |n - x| := by rw [← abs_neg]; congr 1; push_cast; ring
  exact ⟨turn ▸ h.near, fun tie => (h.even (turn ▸ tie)).neg⟩

/-- An integer is nearest to itself only. -/
theorem Nearest.eq_of_int {m n : ℤ} (h : Nearest m n) : n = m := by
  have near : 2 * |n - m| ≤ 1 := by exact_mod_cast h.near
  have zero : |n - m| = 0 := by have := abs_nonneg (n - m); omega
  exact sub_eq_zero.1 (abs_eq_zero.1 zero)

theorem nearest_roundQuotient (num : ℕ) {den : ℕ} (pos : 0 < den) :
    Nearest (num / den) (roundQuotient num den) := by
  have split : (num : ℚ) / den = (num / den : ℕ) + (num % den : ℕ) / den := by
    have := Nat.div_add_mod num den
    field_simp
    exact_mod_cast (by linarith : num = den * (num / den) + num % den)
  have pos' : (0 : ℚ) < den := by exact_mod_cast pos
  generalize hq : num / den = q at split
  generalize hr : num % den = r at split
  have part : (0 : ℚ) ≤ r / den := by positivity
  have twice : ((2 * r : ℕ) : ℚ) = 2 * (r / den) * den := by field_simp; push_cast; ring
  unfold roundQuotient
  simp only [hq, hr]
  rw [split]
  split_ifs with below above
  · -- less than half a step is left over
    have less : 2 * ((r : ℚ) / den) < 1 := by
      have : ((2 * r : ℕ) : ℚ) < den := by exact_mod_cast below
      rw [twice] at this
      exact lt_of_mul_lt_mul_right (by linarith) pos'.le
    have size : |(((q : ℕ) : ℤ) : ℚ) - (q + r / den)| = r / den := by
      rw [abs_sub_comm, abs_of_nonneg] <;> push_cast <;> linarith
    exact ⟨by rw [size]; linarith, fun tie => absurd (size ▸ tie) (by linarith)⟩
  · -- more than half a step
    have more : 1 < 2 * ((r : ℚ) / den) := by
      have : (den : ℚ) < ((2 * r : ℕ) : ℚ) := by exact_mod_cast above
      rw [twice] at this
      exact lt_of_mul_lt_mul_right (by linarith) pos'.le
    have under : (r : ℚ) / den < 1 := (div_lt_one pos').2 (by exact_mod_cast hr ▸ Nat.mod_lt num pos)
    have size : |(((q + 1 : ℕ) : ℤ) : ℚ) - (q + r / den)| = 1 - r / den := by
      rw [abs_of_nonneg] <;> push_cast <;> linarith
    exact ⟨by rw [size]; linarith, fun tie => absurd (size ▸ tie) (by linarith)⟩
  · have half : (r : ℚ) / den = 1 / 2 := by
      have : 2 * r = den := by omega
      rw [← this]
      have : (r : ℚ) ≠ 0 := by rintro h; simp_all
      push_cast
      field_simp
    rw [half]
    rcases Nat.mod_two_eq_zero_or_one q with even | odd
    · exact ⟨by rw [even]; norm_num [abs_of_neg], fun _ => by rw [even]; exact_mod_cast Nat.even_iff.2 even⟩
    · exact ⟨by rw [odd]; norm_num, fun _ => by rw [odd]; exact_mod_cast Nat.even_iff.2 (by omega)⟩

namespace NumberFormat

/-- The format rounds `q` on steps of `2 ^ e`: they are fine enough to fill the significand, unless they are the
finest. -/
structure Step (f : NumberFormat) (q : ℚ) (e : ℤ) : Prop where
  finest : f.finest ≤ e
  below : |q| < 2 ^ (f.precision + e)
  full : e = f.finest ∨ 2 ^ (f.precision + e - 1) ≤ |q|

/-- The format has significands, and room for numbers above the finest ones. -/
def Roomy (f : NumberFormat) : Prop := 0 < f.precision ∧ f.finest + f.precision < f.ceiling

theorem roomy_single : single.Roomy := ⟨by decide, by decide⟩

theorem roomy_double : double.Roomy := ⟨by decide, by decide⟩

variable {f : NumberFormat} {q : ℚ} {e k : ℤ}

theorem Step.le (h : f.Step q e) (finest : f.finest ≤ k) (below : |q| < 2 ^ (f.precision + k)) : e ≤ k := by
  rcases h.full with rfl | full
  · exact finest
  · have := (zpow_lt_zpow_iff_right₀ (by norm_num : (1 : ℚ) < 2)).1 (full.trans_lt below)
    omega

theorem Step.ge (h : f.Step q e) (full : 2 ^ (f.precision + k - 1) ≤ |q|) : k ≤ e := by
  have := (zpow_lt_zpow_iff_right₀ (by norm_num : (1 : ℚ) < 2)).1 (full.trans_lt h.below)
  omega

theorem Step.room (roomy : f.Roomy) (h : f.Step q e) (room : |q| < 2 ^ (f.ceiling - 1)) :
    e + f.precision < f.ceiling := by
  rcases h.full with rfl | full
  · exact roomy.2
  · have := (zpow_lt_zpow_iff_right₀ (by norm_num : (1 : ℚ) < 2)).1 (full.trans_lt room)
    omega

theorem limit_eq (roomy : f.Roomy) : f.limit = f.least * 2 := by
  rw [limit, least, Nat.pow_eq, Nat.pow_eq, ← pow_succ, Nat.sub_add_cancel roomy.1]

/-- The nearest multiple of the step is a significand, or the first number too large for one. -/
theorem Step.significand_le {m : ℕ} (h : f.Step q e) (near : Nearest (|q| / 2 ^ e) m) : m ≤ f.limit := by
  have below : |q| / 2 ^ e < f.limit := by
    rw [div_lt_iff₀ (by positivity), limit]
    exact h.below.trans_eq (by rw [zpow_add₀ two_ne_zero, Nat.pow_eq]; norm_cast)
  have : (m : ℚ) < f.limit + 1 := by
    have := (abs_le.1 (by linarith [near.near] : |((m : ℤ) : ℚ) - |q| / 2 ^ e| ≤ 1 / 2)).2
    push_cast at this
    linarith
  exact Nat.lt_succ_iff.1 (by exact_mod_cast this)

/-- On a step coarser than the finest the significand is full. -/
theorem Step.least_le {m : ℕ} (roomy : f.Roomy) (h : f.Step q e) (near : Nearest (|q| / 2 ^ e) m) :
    e = f.finest ∨ f.least ≤ m := by
  refine h.full.imp_right fun full => ?_
  have above : (f.least : ℚ) ≤ |q| / 2 ^ e := by
    rw [le_div_iff₀ (by positivity)]
    refine le_of_eq_of_le ?_ full
    obtain ⟨p, hp⟩ : ∃ p, f.precision = p + 1 := ⟨_, (Nat.sub_add_cancel roomy.1).symm⟩
    rw [least, hp, show ((p + 1 : ℕ) : ℤ) + e - 1 = p + e by push_cast; ring, zpow_add₀ two_ne_zero, Nat.pow_eq]
    norm_cast
  have : (f.least : ℚ) < m + 1 := by
    have := (abs_le.1 (by linarith [near.near] : |((m : ℤ) : ℚ) - |q| / 2 ^ e| ≤ 1 / 2)).1
    push_cast at this
    linarith
  exact Nat.lt_succ_iff.1 (by exact_mod_cast this)

end NumberFormat

namespace Magnitude

variable {f : NumberFormat}

theorem scaled_pos (num : ℕ) {den : ℕ} (pos : 0 < den) (e : ℤ) : 0 < (scaled num den e).2 := by
  unfold scaled
  split
  · exact Nat.mul_pos pos (Nat.two_pow_pos _)
  · exact pos

theorem scaled_ratio (num den : ℕ) (e : ℤ) :
    ((scaled num den e).1 : ℚ) / (scaled num den e).2 = num / den / 2 ^ e := by
  unfold scaled
  split
  next up =>
    obtain ⟨n, rfl⟩ := Int.eq_ofNat_of_zero_le up
    simp [div_div]
  next down =>
    obtain ⟨n, hn⟩ := Int.eq_ofNat_of_zero_le (a := -e) (by omega)
    obtain rfl : e = -n := by omega
    simp [zpow_neg, mul_div_right_comm]

theorem log2_bounds {num den : ℕ} (some : num ≠ 0) (pos : 0 < den) :
    (2 : ℚ) ^ ((num.log2 : ℤ) - den.log2 - 1) < num / den ∧
      (num : ℚ) / den < 2 ^ ((num.log2 : ℤ) - den.log2 + 1) := by
  have pos' : (0 : ℚ) < den := by exact_mod_cast pos
  have numLow : (2 : ℚ) ^ (num.log2 : ℤ) ≤ num := by exact_mod_cast Nat.log2_self_le some
  have numHigh : (num : ℚ) < 2 ^ ((num.log2 : ℤ) + 1) := by exact_mod_cast Nat.lt_log2_self
  have denLow : (2 : ℚ) ^ (den.log2 : ℤ) ≤ den := by exact_mod_cast Nat.log2_self_le pos.ne'
  have denHigh : (den : ℚ) < 2 ^ ((den.log2 : ℤ) + 1) := by exact_mod_cast Nat.lt_log2_self
  constructor
  · rw [lt_div_iff₀ pos']
    calc (2 : ℚ) ^ ((num.log2 : ℤ) - den.log2 - 1) * den
        < 2 ^ ((num.log2 : ℤ) - den.log2 - 1) * 2 ^ ((den.log2 : ℤ) + 1) := by gcongr
      _ = 2 ^ (num.log2 : ℤ) := by rw [← zpow_add₀ two_ne_zero]; congr 1; ring
      _ ≤ num := numLow
  · rw [div_lt_iff₀ pos']
    calc (num : ℚ) < 2 ^ ((num.log2 : ℤ) + 1) := numHigh
      _ = 2 ^ ((num.log2 : ℤ) - den.log2 + 1) * 2 ^ (den.log2 : ℤ) := by
        rw [← zpow_add₀ two_ne_zero]; congr 1; ring
      _ ≤ 2 ^ ((num.log2 : ℤ) - den.log2 + 1) * den := by gcongr

theorem scaled_div_lt_iff (num : ℕ) {den : ℕ} (pos : 0 < den) (e : ℤ) (p : ℕ) :
    (scaled num den e).1 / (scaled num den e).2 < 2 ^ p ↔ (num : ℚ) / den < 2 ^ (p + e) := by
  have pos' : (0 : ℚ) < (scaled num den e).2 := by exact_mod_cast scaled_pos num pos e
  rw [Nat.div_lt_iff_lt_mul (scaled_pos num pos e), zpow_add₀ two_ne_zero, ← div_lt_iff₀ (by positivity),
    ← scaled_ratio, div_lt_iff₀ pos']
  exact_mod_cast Iff.rfl

/-- The exponent found from the lengths of numerator and denominator is off by one at most, and mended. -/
theorem step_stepExponent (f : NumberFormat) (num : ℕ) {den : ℕ} (pos : 0 < den) :
    f.Step (num / den) (stepExponent f num den) := by
  unfold stepExponent
  split_ifs with zero
  · exact ⟨le_rfl, by simp only [zero]; simp; positivity, .inl rfl⟩
  have size : |(num : ℚ) / den| = num / den := abs_of_nonneg (by positivity)
  obtain ⟨low, high⟩ := log2_bounds zero pos
  -- before the finest step counts
  obtain ⟨e, he, below, full⟩ : ∃ e : ℤ,
      (if (scaled num den (num.log2 - den.log2 - f.precision)).1 /
          (scaled num den (num.log2 - den.log2 - f.precision)).2
        < f.limit then (num.log2 - den.log2 - f.precision : ℤ) else num.log2 - den.log2 - f.precision + 1) = e ∧
      (num : ℚ) / den < 2 ^ (f.precision + e) ∧ 2 ^ (f.precision + e - 1) ≤ (num : ℚ) / den := by
    refine ⟨_, rfl, ?_⟩
    split_ifs with fits
    · refine ⟨(scaled_div_lt_iff num pos _ _).1 fits, le_of_eq_of_le ?_ low.le⟩
      congr 1; ring
    · refine ⟨lt_of_lt_of_eq high ?_, le_of_eq_of_le ?_ (not_lt.1 ((scaled_div_lt_iff num pos _ _).not.1 fits))⟩
      · congr 1; ring
      · congr 1; ring
  simp only [he]
  rcases le_total e f.finest with fine | coarse
  · rw [max_eq_left fine]
    exact ⟨le_rfl, size.trans_lt (below.trans_le (zpow_le_zpow_right₀ (by norm_num) (by omega))), .inl rfl⟩
  · rw [max_eq_right coarse]
    exact ⟨coarse, size.trans_lt below, .inr (full.trans_eq size.symm)⟩

/-- The step that a number is rounded on, and the nearest multiple of it. -/
theorem step_nearest (f : NumberFormat) {q : ℚ} (nonneg : 0 ≤ q) :
    f.Step q (stepExponent f q.num.natAbs q.den) ∧ Nearest (q / 2 ^ stepExponent f q.num.natAbs q.den)
      (roundQuotient (scaled q.num.natAbs q.den (stepExponent f q.num.natAbs q.den)).1
        (scaled q.num.natAbs q.den (stepExponent f q.num.natAbs q.den)).2) := by
  have ratio : (q.num.natAbs : ℚ) / q.den = q := by
    have : ((q.num.natAbs : ℤ) : ℚ) = q.num := by rw [Int.natAbs_of_nonneg (Rat.num_nonneg.2 nonneg)]
    rw [← Int.cast_natCast, this, Rat.num_div_den]
  have step := step_stepExponent f q.num.natAbs q.den_pos
  have near := nearest_roundQuotient (scaled q.num.natAbs q.den (stepExponent f q.num.natAbs q.den)).1
    (scaled_pos q.num.natAbs q.den_pos (stepExponent f q.num.natAbs q.den))
  rw [scaled_ratio, ratio] at near
  rw [ratio] at step
  exact ⟨step, near⟩

theorem value_nonneg (s : Magnitude f) : 0 ≤ s.value := by unfold value; positivity

/-- The format has room for a number that is rounded to a multiple of its step below the ceiling, and for no
other. -/
theorem exists_step_nearest? (roomy : f.Roomy) {q : ℚ} (nonneg : 0 ≤ q) :
    ∃ e m : ℤ, f.Step q e ∧ Nearest (q / 2 ^ e) m ∧
      ((∃ s, nearest? f q = some s ∧ s.value = m * 2 ^ e) ∨
        nearest? f q = none ∧ 2 ^ f.ceiling ≤ m * (2 : ℚ) ^ e) := by
  have ⟨step, near⟩ := step_nearest f nonneg
  unfold nearest?
  simp only
  generalize stepExponent f q.num.natAbs q.den = e at *
  generalize roundQuotient (scaled q.num.natAbs q.den e).1 (scaled q.num.natAbs q.den e).2 = m at *
  have size : |q| = q := abs_of_nonneg nonneg
  have most := step.significand_le (size.symm ▸ near)
  have least := step.least_le roomy (size.symm ▸ near)
  have double := NumberFormat.limit_eq roomy
  have finest := step.finest
  refine ⟨e, m, step, near, ?_⟩
  by_cases carry : m = f.limit
  · -- the carry makes the significand the least full one of the next step
    have next : ((f.least : ℕ) : ℚ) * 2 ^ (e + 1) = ((m : ℤ) : ℚ) * 2 ^ e := by
      rw [carry, double, zpow_add_one₀ two_ne_zero]
      push_cast
      ring
    by_cases fits : e + 1 + f.precision ≤ f.ceiling
    · have held : f.Holds f.least (e + 1) :=
        ⟨by have : 0 < f.least := Nat.two_pow_pos _; omega, by omega, .inr le_rfl, fits⟩
      exact .inl ⟨⟨f.least, e + 1, held⟩, by simp [carry, held], next⟩
    · have held : ¬f.Holds f.least (e + 1) := fun held => fits held.2.2.2
      refine .inr ⟨by simp [carry, held], ?_⟩
      rw [carry, NumberFormat.limit, Nat.pow_eq]
      push_cast
      rw [← zpow_natCast, ← zpow_add₀ two_ne_zero]
      exact zpow_le_zpow_right₀ (by norm_num) (by omega)
  · by_cases fits : e + f.precision ≤ f.ceiling
    · have held : f.Holds m e := ⟨by omega, finest, least, fits⟩
      exact .inl ⟨⟨m, e, held⟩, by simp [carry, held], by rw [value]; push_cast; rfl⟩
    · have held : ¬f.Holds m e := fun held => fits held.2.2.2
      refine .inr ⟨by simp [carry, held], ?_⟩
      have full : f.least ≤ m := least.resolve_left (by have := roomy.2; omega)
      calc (2 : ℚ) ^ f.ceiling ≤ 2 ^ (((f.precision - 1 : ℕ) : ℤ) + e) :=
            zpow_le_zpow_right₀ (by norm_num) (by have := roomy.1; omega)
        _ = (f.least : ℚ) * 2 ^ e := by
          rw [zpow_add₀ two_ne_zero, zpow_natCast, NumberFormat.least, Nat.pow_eq]
          push_cast
          rfl
        _ ≤ ((m : ℤ) : ℚ) * 2 ^ e := by
          push_cast
          gcongr

/-- A number that the format has room for is rounded to a nearest multiple of its step. -/
theorem exists_nearest? (roomy : f.Roomy) {q : ℚ} (nonneg : 0 ≤ q) (room : q < 2 ^ (f.ceiling - 1)) :
    ∃ (s : Magnitude f) (e m : ℤ), nearest? f q = some s ∧ f.Step q e ∧ Nearest (q / 2 ^ e) m ∧
      s.value = m * 2 ^ e := by
  obtain ⟨e, m, step, near, ⟨s, found, value⟩ | ⟨-, large⟩⟩ := exists_step_nearest? roomy nonneg
  · exact ⟨s, e, m, found, step, near, value⟩
  · have fits := step.room roomy (by rwa [abs_of_nonneg nonneg])
    have scale : (0 : ℚ) < 2 ^ e := by positivity
    have above : (m : ℚ) ≤ q / 2 ^ e + 1 := by
      have := (abs_le.1 (by linarith [near.near] : |(m : ℚ) - q / 2 ^ e| ≤ 1 / 2)).2
      linarith
    have small : (m : ℚ) * 2 ^ e < 2 ^ f.ceiling := by
      calc (m : ℚ) * 2 ^ e ≤ (q / 2 ^ e + 1) * 2 ^ e := by gcongr
        _ = q + 2 ^ e := by rw [add_mul, div_mul_cancel₀ _ scale.ne', one_mul]
        _ < 2 ^ (f.ceiling - 1) + 2 ^ (f.ceiling - 1) :=
          add_lt_add_of_lt_of_le room (zpow_le_zpow_right₀ (by norm_num) (by omega))
        _ = 2 ^ f.ceiling := by rw [← mul_two, ← zpow_add_one₀ two_ne_zero, sub_add_cancel]
    exact absurd large small.not_ge

end Magnitude

namespace Binary

variable {f g : NumberFormat}

/-- `x` is the number that rounding `q` gives. -/
structure Rounds (x : Binary f) (q : ℚ) : Prop where
  finite : x.isFinite
  nearest : ∃ e m : ℤ, f.Step q e ∧ Nearest (q / 2 ^ e) m ∧ x.value = m * 2 ^ e

@[simp] theorem isFinite_neg (x : Binary f) : (-x).isFinite = x.isFinite := by cases x <;> rfl

@[simp] theorem value_neg (x : Binary f) : (-x).value = -x.value := by
  change (neg x).value = _
  rcases x with _ | _ | ⟨_ | _, s⟩ <;> simp [neg, value]

theorem Rounds.neg {x : Binary f} {q : ℚ} (h : Rounds x q) : Rounds (-x) (-q) := by
  obtain ⟨e, m, step, near, value⟩ := h.nearest
  refine ⟨by rw [isFinite_neg]; exact h.finite, e, -m, ⟨step.finest, ?_, ?_⟩, ?_, ?_⟩
  · rw [abs_neg]
    exact step.below
  · rw [abs_neg]
    exact step.full
  · rw [neg_div]
    exact near.neg
  · rw [value_neg, value]
    push_cast
    ring

theorem lt_iff_value_lt {x y : Binary f} (hx : x.isFinite) (hy : y.isFinite) : x < y ↔ x.value < y.value := by
  rcases x with _ | _ | ⟨m, s⟩ <;> rcases y with _ | _ | ⟨n, t⟩ <;> simp [isFinite] at hx hy
  exact decide_eq_true_iff

protected theorem add_comm (x y : Binary f) : x + y = y + x := by
  change add x y = add y x
  rcases x with _ | m | ⟨m, s⟩ <;> rcases y with _ | n | ⟨n, t⟩ <;> simp only [add]
  · by_cases same : m = n <;> simp [same, eq_comm]
  · rw [Rat.add_comm, Bool.and_comm]

theorem neg_round (negative : Bool) (q : ℚ) : -round f negative q = round f (!negative) q := by
  unfold round
  cases Magnitude.nearest? f q <;> rfl

theorem rounds_round (roomy : f.Roomy) (negative : Bool) {q : ℚ} (nonneg : 0 ≤ q) (room : q < 2 ^ (f.ceiling - 1)) :
    Rounds (round f negative q) (if negative then -q else q) := by
  have positive : Rounds (round f false q) q := by
    obtain ⟨s, e, m, found, step, near, value⟩ := Magnitude.exists_nearest? roomy nonneg room
    rw [round, found]
    exact ⟨rfl, e, m, step, near, value⟩
  cases negative with
  | false => exact positive
  | true =>
    have turned := positive.neg
    rwa [neg_round] at turned

theorem abs_eq (q : ℚ) : q.abs = |q| := by
  unfold Rat.abs
  split_ifs with sign
  · exact (abs_of_nonneg sign).symm
  · exact (abs_of_neg (not_le.1 sign)).symm

theorem rounds_ofRat (roomy : f.Roomy) {q : ℚ} (room : |q| < 2 ^ (f.ceiling - 1)) : Rounds (ofRat f q) q := by
  unfold ofRat
  rw [abs_eq]
  have := rounds_round roomy (decide (q < 0)) (abs_nonneg q) room
  by_cases sign : q < 0
  · simpa [sign, abs_of_neg] using this
  · simpa [sign, abs_of_nonneg (not_lt.1 sign)] using this

theorem rounds_add (roomy : f.Roomy) {x y : Binary f} (hx : x.isFinite) (hy : y.isFinite)
    (room : |x.value + y.value| < 2 ^ (f.ceiling - 1)) : Rounds (x + y) (x.value + y.value) := by
  rcases x with _ | _ | ⟨m, s⟩ <;> rcases y with _ | _ | ⟨n, t⟩ <;> simp [isFinite] at hx hy
  change Rounds (add (finite m s) (finite n t)) _
  simp only [add]
  split_ifs with zero
  · have := rounds_round roomy (m && n) le_rfl (by positivity : (0 : ℚ) < 2 ^ (f.ceiling - 1))
    rw [zero]
    simpa [Binary.zero] using this
  · exact rounds_ofRat roomy room

theorem rounds_sub (roomy : f.Roomy) {x y : Binary f} (hx : x.isFinite) (hy : y.isFinite)
    (room : |x.value - y.value| < 2 ^ (f.ceiling - 1)) : Rounds (x - y) (x.value - y.value) := by
  have := rounds_add roomy (y := -y) hx (by simpa) (by simpa [← sub_eq_add_neg])
  rw [value_neg, ← sub_eq_add_neg] at this
  exact this

theorem rounds_mul (roomy : f.Roomy) {x y : Binary f} (hx : x.isFinite) (hy : y.isFinite)
    (room : |x.value * y.value| < 2 ^ (f.ceiling - 1)) : Rounds (x * y) (x.value * y.value) := by
  rcases x with _ | _ | ⟨m, s⟩ <;> rcases y with _ | _ | ⟨n, t⟩ <;> simp [isFinite] at hx hy
  have nonneg := mul_nonneg s.value_nonneg t.value_nonneg
  have := rounds_round roomy (m != n) nonneg (by
    rcases m <;> rcases n <;> simpa [value, abs_of_nonneg nonneg] using room)
  change Rounds (mul (finite m s) (finite n t)) _
  simp only [mul]
  rcases m <;> rcases n <;> simpa [value] using this

theorem rounds_div (roomy : f.Roomy) {x y : Binary f} (hx : x.isFinite) (hy : y.isFinite) (some : y.value ≠ 0)
    (room : |x.value / y.value| < 2 ^ (f.ceiling - 1)) : Rounds (x / y) (x.value / y.value) := by
  rcases x with _ | _ | ⟨m, s⟩ <;> rcases y with _ | _ | ⟨n, t⟩ <;> simp [isFinite] at hx hy
  have nonneg := div_nonneg s.value_nonneg t.value_nonneg
  have := rounds_round roomy (m != n) nonneg (by
    rcases m <;> rcases n <;> simpa [value, div_neg, neg_div, abs_of_nonneg nonneg] using room)
  have filled : t.significand ≠ 0 := by
    rintro empty
    exact some (by simp [value, Magnitude.value, empty])
  change Rounds (div (finite m s) (finite n t)) _
  simp only [div, filled, if_false]
  rcases m <;> rcases n <;> simpa [value, div_neg, neg_div] using this

theorem rounds_convert (roomy : g.Roomy) {x : Binary f} (hx : x.isFinite) (room : |x.value| < 2 ^ (g.ceiling - 1)) :
    Rounds (x.convert g) x.value := by
  rcases x with _ | _ | ⟨m, s⟩ <;> simp [isFinite] at hx
  have := rounds_round roomy m s.value_nonneg (by
    rcases m <;> simpa [value, abs_of_nonneg s.value_nonneg] using room)
  simpa [convert, value] using this

section Rounds

variable {x : Binary f} {q : ℚ} {k : ℤ}

theorem abs_mul_zpow_sub (m : ℤ) (q : ℚ) (e : ℤ) : |m * 2 ^ e - q| = |m - q / 2 ^ e| * 2 ^ e := by
  have pos : (0 : ℚ) < 2 ^ e := by positivity
  rw [← abs_of_pos pos, ← abs_mul, sub_mul, abs_of_pos pos, div_mul_cancel₀ _ pos.ne']

/-- Below `2 ^ (precision + k)` the error is half of `2 ^ k` at most. -/
theorem Rounds.near (h : Rounds x q) (finest : f.finest ≤ k) (below : |q| < 2 ^ (f.precision + k)) :
    2 * |x.value - q| ≤ 2 ^ k := by
  obtain ⟨e, m, step, near, value⟩ := h.nearest
  calc 2 * |x.value - q| = 2 * |m - q / 2 ^ e| * 2 ^ e := by rw [value, abs_mul_zpow_sub, mul_assoc]
    _ ≤ 1 * 2 ^ e := by gcongr; exact near.near
    _ ≤ 2 ^ k := by rw [one_mul]; exact zpow_le_zpow_right₀ (by norm_num) (step.le finest below)

/-- The error of a number below `2 ^ k` is half a unit in the last place at most. -/
theorem Rounds.error_le (h : Rounds x q) (finest : f.finest + f.precision ≤ k) (below : |q| < 2 ^ k) :
    |x.value - q| ≤ 2 ^ k / 2 ^ f.precision / 2 := by
  have near := h.near (k := k - f.precision) (by omega) (by rwa [add_sub_cancel])
  rw [zpow_sub₀ two_ne_zero, zpow_natCast] at near
  linarith

/-- From `2 ^ (precision + k - 1)` on only multiples of `2 ^ k` are left, and ties go to even ones. -/
theorem Rounds.grid (h : Rounds x q) (full : 2 ^ (f.precision + k - 1) ≤ |q|) :
    ∃ m : ℤ, x.value = m * 2 ^ k ∧ (2 * |x.value - q| = 2 ^ k → Even m) := by
  obtain ⟨e, m, step, near, value⟩ := h.nearest
  rcases (step.ge full).eq_or_lt with rfl | coarse
  · refine ⟨m, value, fun tie => near.even ?_⟩
    rw [value, abs_mul_zpow_sub, ← mul_assoc] at tie
    exact mul_right_cancel₀ (by positivity) (tie.trans (one_mul _).symm)
  · obtain ⟨j, rfl⟩ : ∃ j : ℕ, e = k + (j + 1) := ⟨(e - k - 1).toNat, by omega⟩
    refine ⟨m * 2 ^ (j + 1), ?_, fun _ => (even_two.pow_of_ne_zero j.succ_ne_zero).mul_left m⟩
    rw [value, zpow_add₀ two_ne_zero]
    push_cast
    rw [← zpow_natCast]
    push_cast
    ring

/-- What the format holds is rounded to itself. -/
theorem Rounds.exact {m : ℤ} (h : Rounds x (m * 2 ^ k)) (finest : f.finest ≤ k) (small : |m| < 2 ^ f.precision) :
    x.value = m * 2 ^ k := by
  obtain ⟨e, n, step, near, value⟩ := h.nearest
  have small' : |(m : ℚ)| < 2 ^ f.precision := by exact_mod_cast small
  have fine : e ≤ k := step.le finest (by
    rw [abs_mul, abs_of_pos (by positivity : (0 : ℚ) < 2 ^ k), zpow_add₀ two_ne_zero, zpow_natCast]
    gcongr)
  obtain ⟨j, rfl⟩ : ∃ j : ℕ, k = e + j := ⟨(k - e).toNat, by omega⟩
  have split : (m : ℚ) * 2 ^ (e + j : ℤ) = (m * 2 ^ j : ℤ) * 2 ^ e := by
    rw [zpow_add₀ two_ne_zero, zpow_natCast]
    push_cast
    ring
  rw [split, mul_div_cancel_right₀ _ (by positivity)] at near
  rw [value, split, near.eq_of_int]

/-- A number is rounded to itself. -/
theorem Rounds.eq_self {y : Binary f} (h : Rounds y x.value) : y.value = x.value := by
  obtain ⟨m, k, finest, small, value⟩ : ∃ (m : ℤ) (k : ℤ),
      f.finest ≤ k ∧ |m| < 2 ^ f.precision ∧ x.value = m * 2 ^ k := by
    rcases x with _ | _ | ⟨n, s⟩
    · exact ⟨0, f.finest, le_rfl, by positivity, by simp [Binary.value]⟩
    · exact ⟨0, f.finest, le_rfl, by positivity, by simp [Binary.value]⟩
    · have small : (s.significand : ℤ) < 2 ^ f.precision := by
        have := s.held.1
        rw [NumberFormat.limit, Nat.pow_eq] at this
        exact_mod_cast this
      refine ⟨if n then -s.significand else s.significand, s.exponent, s.held.2.1, ?_, ?_⟩
      · cases n <;> simpa using small
      · cases n <;> simp [Binary.value, Magnitude.value]
  rw [value] at h ⊢
  exact h.exact finest small

end Rounds

end Binary

end HexAtlas
