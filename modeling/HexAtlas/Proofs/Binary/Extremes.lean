import HexAtlas.Proofs.Binary.Rounding
import Mathlib.Order.WithBot

namespace HexAtlas

/-- An operation that chooses among the members of `P` by their values alone. -/
structure Chooses {α : Type} (op : α → α → α) (P : α → Prop) : Prop where
  closed : ∀ {a b}, P a → P b → P (op a b)
  assoc : ∀ a b c, op (op a b) c = op a (op b c)
  comm : ∀ {a b}, P a → P b → op a b = op b a
  self : ∀ a, op a a = a

namespace Chooses

variable {α : Type} {op : α → α → α} {P : α → Prop} (h : Chooses op P)
include h

theorem foldl_op (a b : α) (xs : List α) : xs.foldl op (op a b) = op a (xs.foldl op b) := by
  induction xs generalizing b with
  | nil => rfl
  | cons x rest ih => rw [List.foldl_cons, List.foldl_cons, h.assoc, ih]

theorem closed_foldl {a : α} {xs : List α} (within : ∀ x ∈ a :: xs, P x) : P (xs.foldl op a) := by
  induction xs generalizing a with
  | nil => exact within a List.mem_cons_self
  | cons x rest ih =>
    obtain ⟨first, second, others⟩ := by simpa only [List.forall_mem_cons] using within
    exact ih (List.forall_mem_cons.mpr ⟨h.closed first second, others⟩)

/-- A member of the list has been taken into account. -/
theorem op_foldl {a y : α} {xs : List α} (within : ∀ x ∈ a :: xs, P x) (member : y ∈ a :: xs) :
    op y (xs.foldl op a) = xs.foldl op a := by
  induction xs generalizing a with
  | nil =>
    obtain rfl := List.mem_singleton.mp member
    exact h.self y
  | cons x rest ih =>
    obtain ⟨first, second, others⟩ := by simpa only [List.forall_mem_cons] using within
    rw [List.foldl_cons]
    rcases List.mem_cons.mp member with rfl | later
    · rw [← h.foldl_op, ← h.assoc, h.self]
    · rcases List.mem_cons.mp later with rfl | behind
      · rw [← h.foldl_op, h.comm first second, ← h.assoc, h.self]
      · exact ih (List.forall_mem_cons.mpr ⟨h.closed first second, others⟩) (List.mem_cons_of_mem _ behind)

theorem op_foldl_eq_of_forall {b m : α} {ys : List α} (each : ∀ y ∈ b :: ys, op y m = m) :
    op (ys.foldl op b) m = m := by
  induction ys generalizing b with
  | nil => exact each b List.mem_cons_self
  | cons y rest ih =>
    obtain ⟨first, second, others⟩ := by simpa only [List.forall_mem_cons] using each
    exact ih (List.forall_mem_cons.mpr ⟨by rw [h.assoc, second, first], others⟩)

/-- What is chosen from a list depends on its members alone. -/
theorem foldl_eq_of_mem_iff {a b : α} {xs ys : List α} (within : ∀ x ∈ a :: xs, P x)
    (same : ∀ x, x ∈ a :: xs ↔ x ∈ b :: ys) : xs.foldl op a = ys.foldl op b := by
  have within' : ∀ y ∈ b :: ys, P y := fun y member => within y ((same y).mpr member)
  have left := h.op_foldl_eq_of_forall fun y member => h.op_foldl within ((same y).mpr member)
  have right := h.op_foldl_eq_of_forall fun x member => h.op_foldl within' ((same x).mp member)
  rw [← left, h.comm (h.closed_foldl within') (h.closed_foldl within), right]

end Chooses

section Order

variable {α L : Type} [LinearOrder L] {op : α → α → α} {P : α → Prop}

/-- Taking the first of two that is not absent, unless the second one is lower, chooses among members of different
levels. -/
theorem Chooses.of_level (absent : α → Bool) (level : α → L)
    (takes : ∀ x y, op x y = if absent x then y else if absent y = false ∧ level y < level x then y else x)
    (single : ∀ {x y}, absent x → absent y → x = y)
    (distinct : ∀ {x y}, P x → P y → absent x = false → absent y = false → level x = level y → x = y) :
    Chooses op P where
  closed {a b} left right := by
    rw [takes]
    split_ifs
    exacts [right, right, left]
  self a := by rw [takes]; split_ifs <;> rfl
  comm {a b} left right := by
    have same := distinct left right
    cases hidden : absent a <;> cases hidden' : absent b <;> simp only [takes, hidden, hidden', true_and, false_and,
      Bool.false_eq_true, Bool.true_eq_false, if_true, if_false]
    · rcases lt_trichotomy (level a) (level b) with less | equal | more
      · rw [if_neg less.not_gt, if_pos less]
      · rw [same hidden hidden' equal]
      · rw [if_pos more, if_neg more.not_gt]
    · exact (single hidden hidden').symm
  assoc a b c := by
    cases hidden : absent a <;> cases hidden' : absent b <;> cases hidden'' : absent c <;> simp only [takes]
    all_goals grind

end Order

namespace Magnitude

variable {f : NumberFormat}

/-- A number has one form. -/
theorem value_injective (roomy : f.Roomy) {s t : Magnitude f} (same : s.value = t.value) : s = t := by
  have finer : ∀ {s t : Magnitude f}, s.value = t.value → s.exponent ≤ t.exponent → s.exponent = t.exponent := by
    intro s t same le
    by_contra other
    obtain ⟨k, gap⟩ : ∃ k : ℕ, t.exponent = s.exponent + (k + 1 : ℕ) :=
      ⟨(t.exponent - s.exponent - 1).toNat, by omega⟩
    have shifted : (s.significand : ℚ) = t.significand * 2 ^ (k + 1) := by
      have scale : (0 : ℚ) < 2 ^ s.exponent := by positivity
      rw [value, value, gap, zpow_add₀ two_ne_zero, zpow_natCast] at same
      field_simp at same
      linarith
    have shifted : s.significand = t.significand * 2 ^ (k + 1) := by exact_mod_cast shifted
    have full : f.least ≤ t.significand := t.held.2.2.1.resolve_left (by have := s.held.2.1; omega)
    have small := s.held.1
    rw [NumberFormat.limit_eq roomy, shifted, pow_succ] at small
    have : 1 ≤ 2 ^ k := Nat.one_le_two_pow
    nlinarith
  have exponents : s.exponent = t.exponent := by
    rcases le_total s.exponent t.exponent with le | le
    · exact finer same le
    · exact (finer same.symm le).symm
  have significands : s.significand = t.significand := by
    have scale : (0 : ℚ) < 2 ^ t.exponent := by positivity
    rw [value, value, exponents] at same
    exact_mod_cast mul_right_cancel₀ scale.ne' same
  obtain ⟨_, _, _⟩ := s
  obtain ⟨_, _, _⟩ := t
  cases exponents
  cases significands
  rfl

theorem value_eq_zero_iff (s : Magnitude f) : s.value = 0 ↔ s.significand = 0 := by
  have scale : (2 : ℚ) ^ s.exponent ≠ 0 := by positivity
  simp [value, scale]

/-- Every number is a multiple of the finest step. -/
theorem exists_value_eq (s : Magnitude f) : ∃ k : ℕ, s.value = k * 2 ^ f.finest := by
  obtain ⟨j, gap⟩ : ∃ j : ℕ, s.exponent = j + f.finest :=
    ⟨(s.exponent - f.finest).toNat, by have := s.held.2.1; omega⟩
  refine ⟨s.significand * 2 ^ j, ?_⟩
  rw [value, gap, zpow_add₀ two_ne_zero, zpow_natCast]
  push_cast
  ring

/-- What is not less than the finest step is not rounded to zero. -/
theorem significand_ne_zero (roomy : f.Roomy) {q : ℚ} (large : 2 ^ f.finest ≤ q) {s : Magnitude f}
    (found : nearest? f q = some s) : s.significand ≠ 0 := by
  have nonneg : 0 ≤ q := le_trans (by positivity) large
  obtain ⟨e, m, step, near, ⟨t, same, whole⟩ | ⟨none, -⟩⟩ := exists_step_nearest? roomy nonneg
  · rw [found] at same
    cases same
    have steps : 1 ≤ q / 2 ^ e := by
      rw [one_le_div (by positivity)]
      rcases step.full with rfl | full
      · exact large
      · rw [abs_of_nonneg nonneg] at full
        exact le_trans (zpow_le_zpow_right₀ (by norm_num) (by have := roomy.1; omega)) full
    have filled : (m : ℚ) ≠ 0 := by
      intro zero
      have := (abs_le.1 (by linarith [near.near] : |(m : ℚ) - q / 2 ^ e| ≤ 1 / 2)).1
      linarith
    have scale : (2 : ℚ) ^ e ≠ 0 := by positivity
    rw [ne_eq, ← value_eq_zero_iff, whole]
    exact mul_ne_zero filled scale
  · rw [found] at none
    cases none

end Magnitude

namespace Binary

variable {f : NumberFormat}

/-- The place of a number between the two infinite ones; that of `nan` does not count. -/
def place : Binary f → WithBot (WithTop ℚ)
  | nan | infinite true => ⊥
  | infinite false => ↑(⊤ : WithTop ℚ)
  | finite n s => ↑(↑(finite n s).value : WithTop ℚ)

theorem lt_iff (x y : Binary f) : x < y ↔ x.isNaN = false ∧ y.isNaN = false ∧ x.place < y.place := by
  change x.lt y = true ↔ _
  rcases x with _ | ⟨_ | _⟩ | ⟨m, s⟩ <;> rcases y with _ | ⟨_ | _⟩ | ⟨n, t⟩ <;>
    simp [lt, isNaN, place]
  exact WithBot.coe_lt_coe.mpr (WithTop.coe_lt_top _)

/-- A zero that has the sign of negative numbers. -/
def IsMinusZero (x : Binary f) : Prop := ∃ s, x = finite true s ∧ s.value = 0

theorem not_isMinusZero_of_negative {x : Binary f} (sign : x.negative = false) : ¬x.IsMinusZero := by
  rintro ⟨s, rfl, -⟩
  cases sign

/-- Signs and magnitudes can be told from the value, except for the sign of a zero. -/
theorem finite_eq_finite (roomy : f.Roomy) {m n : Bool} {s t : Magnitude f} (left : ¬(finite m s).IsMinusZero)
    (right : ¬(finite n t).IsMinusZero) (same : (finite m s).value = (finite n t).value) :
    finite m s = finite n t := by
  have above := s.value_nonneg
  have above' := t.value_nonneg
  cases m <;> cases n <;> simp only [value, Bool.false_eq_true, if_true, if_false] at same
  · rw [Magnitude.value_injective roomy same]
  · exact absurd ⟨t, rfl, by linarith⟩ right
  · exact absurd ⟨s, rfl, by linarith⟩ left
  · rw [Magnitude.value_injective roomy (neg_injective same)]

theorem place_injective (roomy : f.Roomy) {x y : Binary f} (left : ¬x.IsMinusZero) (right : ¬y.IsMinusZero)
    (number : x.isNaN = false) (number' : y.isNaN = false) (same : x.place = y.place) : x = y := by
  rcases x with _ | ⟨_ | _⟩ | ⟨m, s⟩ <;> rcases y with _ | ⟨_ | _⟩ | ⟨n, t⟩
  case finite.finite => exact finite_eq_finite roomy left right (WithTop.coe_inj.mp (WithBot.coe_inj.mp same))
  all_goals simp [isNaN, place] at number number' same ⊢

theorem eq_nan {x : Binary f} (h : x.isNaN) : x = nan := by
  cases x <;> simp [isNaN] at h ⊢

theorem chooses_min (roomy : f.Roomy) : Chooses (min : Binary f → Binary f → Binary f) fun x => ¬x.IsMinusZero := by
  refine Chooses.of_level isNaN place (fun x y => ?_)
    (fun missing missing' => (eq_nan missing).trans (eq_nan missing').symm) (place_injective roomy)
  unfold min
  split
  · rfl
  · rename_i number
    simp only [lt_iff, number, true_and]

theorem chooses_max (roomy : f.Roomy) : Chooses (max : Binary f → Binary f → Binary f) fun x => ¬x.IsMinusZero := by
  refine Chooses.of_level isNaN (fun x => OrderDual.toDual x.place) (fun x y => ?_)
    (fun missing missing' => (eq_nan missing).trans (eq_nan missing').symm)
    (fun left right number number' same => place_injective roomy left right number number' same)
  unfold max
  split
  · rfl
  · rename_i number
    simp only [lt_iff, number, true_and, OrderDual.toDual_lt_toDual]

/-- A sum that is not zero is a multiple of the finest step. -/
theorem finest_le_abs_add (s t : Magnitude f) (m n : Bool) (nonzero : (finite m s).value + (finite n t).value ≠ 0) :
    2 ^ f.finest ≤ |(finite m s).value + (finite n t).value| := by
  obtain ⟨j, hs⟩ := s.exists_value_eq
  obtain ⟨k, ht⟩ := t.exists_value_eq
  obtain ⟨i, whole⟩ : ∃ i : ℤ, (finite m s).value + (finite n t).value = i * 2 ^ f.finest := by
    refine ⟨(if m then -(j : ℤ) else j) + if n then -(k : ℤ) else k, ?_⟩
    cases m <;> cases n <;> simp [value, hs, ht] <;> ring
  have some : 1 ≤ |i| := Int.one_le_abs fun zero => nonzero (by rw [whole, zero]; simp)
  have scale : (0 : ℚ) < 2 ^ f.finest := by positivity
  rw [whole, abs_mul, abs_of_pos scale, ← Int.cast_abs]
  exact le_mul_of_one_le_left scale.le (by exact_mod_cast some)

theorem not_isMinusZero_round (roomy : f.Roomy) {negative : Bool} {q : ℚ} (large : 2 ^ f.finest ≤ q) :
    ¬(round f negative q).IsMinusZero := by
  rintro ⟨s, found, zero⟩
  unfold round at found
  split at found
  next size nearest =>
    cases found
    exact s.significand_ne_zero roomy large nearest (s.value_eq_zero_iff.mp zero)
  next => cases found

theorem negative_of_isMinusZero_round {negative : Bool} {q : ℚ} (h : (round f negative q).IsMinusZero) :
    negative := by
  obtain ⟨s, found, -⟩ := h
  unfold round at found
  split at found <;> cases found
  rfl

/-- A sum is a negative zero only if both summands are. -/
theorem not_isMinusZero_add (roomy : f.Roomy) {x y : Binary f} (h : ¬x.IsMinusZero ∨ ¬y.IsMinusZero) :
    ¬(x + y).IsMinusZero := by
  change ¬(add x y).IsMinusZero
  rcases x with _ | m | ⟨m, s⟩ <;> rcases y with _ | n | ⟨n, t⟩ <;> simp only [add]
  case finite.finite =>
    split_ifs with cancelled
    · intro minus
      obtain ⟨rfl, rfl⟩ := Bool.and_eq_true_iff.mp (negative_of_isMinusZero_round minus)
      have above := s.value_nonneg
      have above' := t.value_nonneg
      simp only [value, if_true] at cancelled
      exact h.elim (· ⟨s, rfl, by linarith⟩) (· ⟨t, rfl, by linarith⟩)
    · rw [ofRat, abs_eq]
      exact not_isMinusZero_round roomy (finest_le_abs_add s t m n cancelled)
  all_goals
    rintro ⟨_, found, -⟩
    try split at found
    all_goals cases found

end Binary

end HexAtlas
