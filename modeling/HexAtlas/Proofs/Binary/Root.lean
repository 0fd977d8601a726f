import HexAtlas.Proofs.Binary.Rounding

namespace HexAtlas.Binary

variable {f : NumberFormat}

theorem rootFloor_spec (n : ℕ) : rootFloor n * rootFloor n ≤ n ∧ n < (rootFloor n + 1) * (rootFloor n + 1) := by
  fun_induction rootFloor n with
  | case1 => simp
  | case2 n nonzero r next ih =>
    -- `r` is twice the root of the quarter; it is off by one at most
    have quarter : n < 4 * (n / 4) + 4 := by omega
    have twice : r = 2 * rootFloor (n / 4) := rfl
    exact ⟨next, by rw [twice]; nlinarith⟩
  | case3 n nonzero r next ih =>
    have quarter : 4 * (n / 4) ≤ n := by omega
    have twice : r = 2 * rootFloor (n / 4) := rfl
    exact ⟨by rw [twice]; nlinarith, not_le.1 next⟩

/-- The stand-in for the root of a significand of the format: its square is off by less than the format can tell. -/
theorem abs_rootNear_sq_sub_le (p : ℕ) {m : ℕ} (nonzero : m ≠ 0) (small : m < 2 ^ p) (e : ℤ) :
    0 < rootNear p m e ∧ |rootNear p m e ^ 2 - (m : ℚ) * 2 ^ e| ≤ (m : ℚ) * 2 ^ e / 2 ^ (p + 2) := by
  unfold rootNear
  simp only
  have length : m.log2 < p := (Nat.log2_lt nonzero).2 small
  generalize hh : (e + m.log2) / 2 - (p : ℤ) - 2 = half
  obtain ⟨j, hj⟩ : ∃ j : ℕ, e - 2 * half = j := ⟨(e - 2 * half).toNat, by omega⟩
  have total : (m : ℚ) * 2 ^ e = (m * 2 ^ j : ℕ) * (2 ^ half) ^ 2 := by
    rw [show e = j + (half + half) by omega, zpow_add₀ two_ne_zero, zpow_add₀ two_ne_zero, zpow_natCast]
    push_cast
    ring
  rw [hj, Int.toNat_natCast, Nat.pow_eq, total]
  have pos : (0 : ℚ) < 2 ^ half := by positivity
  generalize (2 : ℚ) ^ half = u at *
  have large : 2 ^ (p + 2) * 2 ^ (p + 2) ≤ m * 2 ^ j := by
    calc 2 ^ (p + 2) * 2 ^ (p + 2) ≤ 2 ^ m.log2 * 2 ^ j := by
          rw [← pow_add, ← pow_add]
          exact Nat.pow_le_pow_right (by decide) (by omega)
      _ ≤ m * 2 ^ j := Nat.mul_le_mul_right _ (Nat.log2_self_le nonzero)
  obtain ⟨low, high⟩ := rootFloor_spec (m * 2 ^ j)
  generalize m * 2 ^ j = n at *
  generalize rootFloor n = r at *
  have root : 2 ^ (p + 2) ≤ r := by
    by_contra less
    nlinarith
  have low' : (r : ℚ) * r ≤ n := by exact_mod_cast low
  have high' : (n : ℚ) < (r + 1) * (r + 1) := by exact_mod_cast high
  have root' : (2 : ℚ) ^ (p + 2) ≤ r := by exact_mod_cast root
  have one : (1 : ℚ) ≤ 2 ^ (p + 2) := one_le_pow₀ (by norm_num)
  have cut : |(if r * r = n then (r : ℚ) else r + 1 / 2) ^ 2 - n| ≤ r := by
    split_ifs with square
    · rw [← square]
      push_cast
      rw [show (r : ℚ) ^ 2 - r * r = 0 by ring, abs_zero]
      positivity
    · have above : (r : ℚ) * r + 1 ≤ n := by exact_mod_cast Nat.succ_le_of_lt (lt_of_le_of_ne low square)
      have below : (n : ℚ) + 1 ≤ (r + 1) * (r + 1) := by exact_mod_cast Nat.succ_le_of_lt high
      rw [abs_le]
      constructor <;> nlinarith
  have some : (0 : ℚ) < r := by linarith
  refine ⟨by split_ifs <;> positivity, ?_⟩
  calc |((if r * r = n then (r : ℚ) else r + 1 / 2) * u) ^ 2 - n * u ^ 2|
      = |(if r * r = n then (r : ℚ) else r + 1 / 2) ^ 2 - n| * u ^ 2 := by
        rw [mul_pow, ← sub_mul, abs_mul, abs_of_pos (by positivity : (0 : ℚ) < u ^ 2)]
    _ ≤ r * u ^ 2 := by gcongr
    _ ≤ n * u ^ 2 / 2 ^ (p + 2) := by
        rw [le_div_iff₀ (by positivity)]
        nlinarith [mul_le_mul_of_nonneg_left root' (by positivity : (0 : ℚ) ≤ r), sq_nonneg u, sq_pos_of_pos pos]

/-- A positive number has a root that is rounded from a number with nearly the same square. -/
theorem exists_rounds_sqrt (roomy : f.Roomy) {x : Binary f} (pos : 0 < x.value)
    (room : 2 * x.value < (2 ^ (f.ceiling - 1)) ^ 2) :
    ∃ v, 0 < v ∧ |v ^ 2 - x.value| ≤ x.value / 2 ^ (f.precision + 2) ∧ Rounds x.sqrt v := by
  rcases x with _ | _ | ⟨_ | _, s⟩
  · exact absurd pos (lt_irrefl _)
  · exact absurd pos (lt_irrefl _)
  · have nonzero : s.significand ≠ 0 := by
      rintro zero
      simp [value, Magnitude.value, zero] at pos
    have small : s.significand < 2 ^ f.precision := by
      have := s.held.1
      rwa [NumberFormat.limit, Nat.pow_eq] at this
    obtain ⟨above, near⟩ := abs_rootNear_sq_sub_le f.precision nonzero small s.exponent
    refine ⟨_, above, near, ?_⟩
    have below : rootNear f.precision s.significand s.exponent < 2 ^ (f.ceiling - 1) := by
      refine lt_of_pow_lt_pow_left₀ 2 (by positivity) (lt_of_le_of_lt ?_ room)
      have less : (s.significand : ℚ) * 2 ^ s.exponent / 2 ^ (f.precision + 2) ≤ s.significand * 2 ^ s.exponent :=
        div_le_self (by positivity) (one_le_pow₀ (by norm_num))
      have := (abs_le.1 near).2
      simp only [value, Magnitude.value, Bool.false_eq_true, if_false]
      linarith
    have := rounds_round roomy false above.le below
    simpa [sqrt, nonzero] using this
  · exact absurd pos (by simpa [value] using s.value_nonneg)

end HexAtlas.Binary
