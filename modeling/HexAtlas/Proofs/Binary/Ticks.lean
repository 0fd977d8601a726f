import HexAtlas.Proofs.Binary.Rounding

namespace HexAtlas

/-- `m` is `n` rounded to 24 binary digits, ties to even: below `2 ^ (24 + k)` it is off by half of `2 ^ k` at most,
and from `2 ^ (23 + k)` on it is a multiple of `2 ^ k`. -/
structure RoundsTo (n m : ℤ) : Prop where
  near : ∀ k : ℕ, |n| < 2 ^ (24 + k) → |2 * (m - n)| ≤ 2 ^ k
  grid : ∀ k : ℕ, 2 ^ (23 + k) ≤ |n| → 2 ^ k ∣ m
  even : ∀ k : ℕ, 2 ^ (23 + k) ≤ |n| → |2 * (m - n)| = 2 ^ k → 2 ^ (k + 1) ∣ m

namespace RoundsTo

variable {n m : ℤ}

/-- `n` is at most large enough to be rounded to a multiple `m` of `2 ^ k`. -/
structure Below (k : ℕ) (n m : ℤ) : Prop where
  bounds : -2 ^ (24 + k) < n ∧ n < 2 ^ (24 + k)
  near : -2 ^ k ≤ 2 * (m - n) ∧ 2 * (m - n) ≤ 2 ^ k
  grid : n ≤ -2 ^ (23 + k) ∨ 2 ^ (23 + k) ≤ n → 2 ^ k ∣ m

/-- `n` is just large enough to be rounded to a multiple `m` of `2 ^ k`. -/
structure Zone (k : ℕ) (n m : ℤ) : Prop where
  outside : n ≤ -2 ^ (23 + k) ∨ 2 ^ (23 + k) ≤ n
  bounds : -2 ^ (24 + k) < n ∧ n < 2 ^ (24 + k)
  near : -2 ^ k ≤ 2 * (m - n) ∧ 2 * (m - n) ≤ 2 ^ k
  grid : 2 ^ k ∣ m
  even : 2 * (m - n) = 2 ^ k ∨ 2 * (m - n) = -2 ^ k → 2 ^ (k + 1) ∣ m

theorem below (h : RoundsTo n m) {k : ℕ} (bounds : -2 ^ (24 + k) < n ∧ n < 2 ^ (24 + k)) : Below k n m :=
  ⟨bounds, abs_le.1 (h.near k (abs_lt.2 bounds)), fun outside => h.grid k (le_abs'.2 outside)⟩

theorem zone (h : RoundsTo n m) {k : ℕ} (outside : n ≤ -2 ^ (23 + k) ∨ 2 ^ (23 + k) ≤ n)
    (bounds : -2 ^ (24 + k) < n ∧ n < 2 ^ (24 + k)) : Zone k n m :=
  ⟨outside, bounds, (h.below bounds).near, h.grid k (le_abs'.2 outside),
    fun tie => h.even k (le_abs'.2 outside) ((abs_eq (by positivity)).2 tie)⟩

/-- A number below a power of two lies in the zone under it or below that. -/
theorem below_or_zone (h : RoundsTo n m) (k : ℕ) (bounds : -2 ^ (24 + (k + 1)) < n ∧ n < 2 ^ (24 + (k + 1))) :
    Below k n m ∨ Zone (k + 1) n m := by
  rcases lt_or_ge |n| (2 ^ (24 + k)) with small | large
  · exact .inl (h.below (abs_lt.1 small))
  · exact .inr (h.zone (by rw [show 23 + (k + 1) = 24 + k by ring]; exact le_abs'.1 large) bounds)

theorem zones (h : RoundsTo n m) (k : ℕ) (bounds : -2 ^ (24 + (k + 2)) < n ∧ n < 2 ^ (24 + (k + 2))) :
    Below k n m ∨ Zone (k + 1) n m ∨ Zone (k + 2) n m := by
  rcases h.below_or_zone (k + 1) bounds with small | large
  · exact (h.below_or_zone k small.bounds).imp_right .inl
  · exact .inr (.inr large)

/-- Some zone holds every number of more than 23 digits. -/
theorem exists_zone (h : RoundsTo n m) (large : 2 ^ 23 ≤ |n|) : ∃ k, Zone k n m := by
  have nonzero : n.natAbs ≠ 0 := by rw [Int.abs_eq_natAbs] at large; omega
  have low : 2 ^ n.natAbs.log2 ≤ |n| := by
    rw [Int.abs_eq_natAbs]
    exact_mod_cast Nat.log2_self_le nonzero
  have high : |n| < 2 ^ (n.natAbs.log2 + 1) := by
    rw [Int.abs_eq_natAbs]
    exact_mod_cast Nat.lt_log2_self
  have digits : 23 < n.natAbs.log2 + 1 :=
    (pow_lt_pow_iff_right₀ (by norm_num : (1 : ℤ) < 2)).1 (large.trans_lt high)
  obtain ⟨k, hk⟩ : ∃ k, n.natAbs.log2 = 23 + k := ⟨n.natAbs.log2 - 23, by omega⟩
  rw [hk] at low high
  exact ⟨k, h.zone (le_abs'.1 low) (abs_lt.1 (by rwa [show 23 + k + 1 = 24 + k by ring] at high))⟩

theorem Zone.le {k : ℕ} {m' : ℤ} (h : Zone k n m) (h' : Zone k n m') : m ≤ m' := by
  have pos : (0 : ℤ) < 2 ^ k := by positivity
  obtain ⟨c, rfl⟩ := h.grid
  obtain ⟨d, rfl⟩ := h'.grid
  have near := h.near.2
  have near' := h'.near.1
  have halves (c : ℤ) : (2 : ℤ) ^ (k + 1) ∣ 2 ^ k * c → 2 ∣ c := by
    rw [pow_succ]
    exact (mul_dvd_mul_iff_left pos.ne').1
  by_contra above
  -- both are half a step away from `n`, and cannot both be even
  have next : c = d + 1 := by
    have less : d < c := (mul_lt_mul_iff_right₀ pos).1 (not_le.1 above)
    have most : c ≤ d + 1 := (mul_le_mul_iff_right₀ pos).1 (by linarith)
    omega
  have even := halves c (h.even (.inl (by rw [next] at near ⊢; linarith)))
  have even' := halves d (h'.even (.inr (by rw [next] at near; linarith)))
  omega

theorem unique {m' : ℤ} (h : RoundsTo n m) (h' : RoundsTo n m') : m = m' := by
  rcases lt_or_ge |n| (2 ^ 23) with small | large
  · have := (h.below (k := 0) (abs_lt.1 (by omega))).near
    have := (h'.below (k := 0) (abs_lt.1 (by omega))).near
    omega
  · obtain ⟨k, zone⟩ := h.exists_zone large
    have zone' := h'.zone zone.outside zone.bounds
    exact le_antisymm (zone.le zone') (zone'.le zone)

end RoundsTo

namespace Binary

/-- A finite number of `n` ticks. -/
structure Ticks (x : Single) (n : ℤ) : Prop where
  finite : x.isFinite
  value : x.value = n / 2 ^ 24

theorem abs_ticks (n : ℤ) : |(n : ℚ) / 2 ^ 24| = ((|n| : ℤ) : ℚ) / 2 ^ 24 := by
  rw [abs_div, abs_of_pos (by norm_num : (0 : ℚ) < 2 ^ 24), Int.cast_abs]

theorem abs_ticks_lt (n : ℤ) (k : ℕ) (h : |n| < 2 ^ (24 + k)) :
    |(n : ℚ) / 2 ^ 24| < 2 ^ (((NumberFormat.single.precision : ℕ) : ℤ) + (k - 24)) := by
  have : ((|n| : ℤ) : ℚ) < 2 ^ (24 + k) := by exact_mod_cast h
  rw [abs_ticks, div_lt_iff₀ (by norm_num),
    show ((NumberFormat.single.precision : ℕ) : ℤ) + (k - 24) = k by simp [NumberFormat.single], zpow_natCast,
      ← pow_add,
    add_comm]
  exact this

theorem le_abs_ticks (n : ℤ) (k : ℕ) (h : 2 ^ (23 + k) ≤ |n|) :
    2 ^ (((NumberFormat.single.precision : ℕ) : ℤ) + (k - 24) - 1) ≤ |(n : ℚ) / 2 ^ 24| := by
  have : (2 : ℚ) ^ (23 + k) ≤ (|n| : ℤ) := by exact_mod_cast h
  rw [abs_ticks, le_div_iff₀ (by norm_num),
    show ((NumberFormat.single.precision : ℕ) : ℤ) + (k - 24) - 1 = k - 1 by simp [NumberFormat.single],
    zpow_sub₀ two_ne_zero, zpow_natCast]
  rw [pow_add] at this
  norm_num at this ⊢
  linarith

/-- A whole number of ticks is rounded to one. -/
theorem Rounds.ticks {x : Single} {n : ℤ} (h : Rounds x (n / 2 ^ 24)) : ∃ m, Ticks x m ∧ RoundsTo n m := by
  have unit (k : ℕ) : (2 : ℚ) ^ ((k : ℤ) - 24) = 2 ^ k / 2 ^ 24 := by
    rw [zpow_sub₀ two_ne_zero, zpow_natCast]
    norm_num
  have finest (k : ℕ) : NumberFormat.single.finest ≤ (k : ℤ) - 24 := by
    simp only [NumberFormat.single]; omega
  have error (m : ℤ) : 2 * |(m : ℚ) / 2 ^ 24 - n / 2 ^ 24| = ((|2 * (m - n)| : ℤ) : ℚ) / 2 ^ 24 := by
    rw [← abs_ticks, ← abs_two, ← abs_mul]
    congr 1
    push_cast
    ring
  have whole {m c : ℤ} {k : ℕ} (value : x.value = m / 2 ^ 24) (grid : x.value = c * 2 ^ ((k : ℤ) - 24)) :
    m = c * 2 ^ k := by
    rw [value, unit, ← mul_div_assoc, div_left_inj' (by norm_num)] at grid
    exact_mod_cast grid
  obtain ⟨m, value⟩ : ∃ m : ℤ, x.value = m / 2 ^ 24 := by
    rcases lt_or_ge |n| (2 ^ 23) with small | large
    · have same : (n : ℚ) / 2 ^ 24 = n * 2 ^ (((0 : ℕ) : ℤ) - 24) := by rw [unit]; ring
      have held : |n| < 2 ^ NumberFormat.single.precision := by simp only [NumberFormat.single]; omega
      exact ⟨n, ((same ▸ h : Rounds x (n * 2 ^ (((0 : ℕ) : ℤ) - 24))).exact (finest 0) held).trans same.symm⟩
    · obtain ⟨m, value, -⟩ := h.grid (le_abs_ticks n 0 large)
      exact ⟨m, by rw [value, unit]; ring⟩
  refine ⟨m, ⟨h.finite, value⟩, fun k below => ?_, fun k full => ?_, fun k full tie => ?_⟩
  · have := h.near (finest k) (abs_ticks_lt n k below)
    rw [value, unit, error] at this
    exact_mod_cast (div_le_div_iff_of_pos_right (by norm_num)).1 this
  · obtain ⟨c, grid, -⟩ := h.grid (le_abs_ticks n k full)
    exact ⟨c, (whole value grid).trans (mul_comm _ _)⟩
  · obtain ⟨c, grid, even⟩ := h.grid (le_abs_ticks n k full)
    obtain ⟨d, rfl⟩ := even_iff_two_dvd.1 (even (by
      rw [value, unit, error, tie]
      push_cast
      rfl))
    exact ⟨d, by rw [whole value grid]; ring⟩

variable {x y : Single} {m n : ℤ}

theorem abs_ticks_lt_room (small : |n| < 2 ^ 60) : |(n : ℚ) / 2 ^ 24| < 2 ^ (NumberFormat.single.ceiling - 1) := by
  have : ((|n| : ℤ) : ℚ) < 2 ^ 60 := by exact_mod_cast small
  rw [abs_ticks, div_lt_iff₀ (by norm_num)]
  exact this.trans (by norm_num [NumberFormat.single])

theorem Ticks.add (hx : Ticks x m) (hy : Ticks y n) (small : |m + n| < 2 ^ 60) :
    ∃ k, Ticks (x + y) k ∧ RoundsTo (m + n) k := by
  have sum : x.value + y.value = (m + n : ℤ) / 2 ^ 24 := by
    rw [hx.value, hy.value]
    push_cast
    ring
  have := rounds_add NumberFormat.roomy_single hx.finite hy.finite (sum ▸ abs_ticks_lt_room small)
  exact (sum ▸ this : Rounds (x + y) ((m + n : ℤ) / 2 ^ 24)).ticks

theorem Ticks.sub (hx : Ticks x m) (hy : Ticks y n) (small : |m - n| < 2 ^ 60) :
    ∃ k, Ticks (x - y) k ∧ RoundsTo (m - n) k := by
  have difference : x.value - y.value = (m - n : ℤ) / 2 ^ 24 := by
    rw [hx.value, hy.value]
    push_cast
    ring
  have := rounds_sub NumberFormat.roomy_single hx.finite hy.finite (difference ▸ abs_ticks_lt_room small)
  exact (difference ▸ this : Rounds (x - y) ((m - n : ℤ) / 2 ^ 24)).ticks

theorem Ticks.mul (hx : Ticks x m) (hy : y.isFinite) (whole : y.value = n) (small : |m * n| < 2 ^ 60) :
    ∃ k, Ticks (x * y) k ∧ RoundsTo (m * n) k := by
  have product : x.value * y.value = (m * n : ℤ) / 2 ^ 24 := by
    rw [hx.value, whole]
    push_cast
    ring
  have := rounds_mul NumberFormat.roomy_single hx.finite hy (product ▸ abs_ticks_lt_room small)
  exact (product ▸ this : Rounds (x * y) ((m * n : ℤ) / 2 ^ 24)).ticks

theorem Ticks.add_zero (hx : Ticks x m) (small : |m| < 2 ^ 60) : Ticks (x + 0) m := by
  have zero : (0 : Single).isFinite ∧ (0 : Single).value = 0 := by decide +kernel
  have same : x.value + (0 : Single).value = x.value := by rw [zero.2, Rat.add_zero]
  have :=
    rounds_add NumberFormat.roomy_single hx.finite zero.1 (by rw [same, hx.value]; exact abs_ticks_lt_room small)
  rw [same] at this
  exact ⟨this.finite, this.eq_self.trans hx.value⟩

theorem ofInt_spec (small : |n| < 2 ^ 24) : (ofInt .single n).isFinite ∧ (ofInt .single n).value = n := by
  have room : |(n : ℚ)| < 2 ^ (NumberFormat.single.ceiling - 1) := by
    have : ((|n| : ℤ) : ℚ) < 2 ^ 24 := by exact_mod_cast small
    rw [← Int.cast_abs]
    exact this.trans (by norm_num [NumberFormat.single])
  have rounds : Rounds (ofInt .single n) (n * 2 ^ (0 : ℤ)) := by
    rw [zpow_zero, mul_one]
    exact rounds_ofRat NumberFormat.roomy_single room
  exact ⟨rounds.finite, (rounds.exact (by decide) small).trans (by simp)⟩

end Binary

end HexAtlas
