import HexAtlas.Grid.Orientation
import HexAtlas.Proofs.Grid.Coordinate

namespace HexAtlas.Orientation

open Binary

theorem radius_spec :
    (ofInt .single radius : Single).isFinite ∧ (ofInt .single radius : Single).value = (100 : ℤ) := by
  decide +kernel

theorem ticks_slope : Ticks slope 29058990 := ⟨by decide +kernel, by decide +kernel⟩

theorem ticks_half_slope : Ticks (slope / 2) 14529495 := ⟨by decide +kernel, by decide +kernel⟩

/-- The way back to the origin of a swapped grid. -/
theorem ticks_back : Ticks (-(apothem.convert .single)) (-1452949504) := ⟨by decide +kernel, by decide +kernel⟩

section

variable {n half full : ℤ}

theorem exists_straight (small : |n| < 2 ^ 20) :
    ∃ place, Ticks (ofDecimal .single false 15 (-1) * ofInt .single n * ofInt .single radius) place ∧
      Straight n place := by
  obtain ⟨finite, value⟩ := ofInt_spec (small.trans (by norm_num))
  have once : (ofDecimal .single false 15 (-1) : Single).isFinite ∧
    (ofDecimal .single false 15 (-1) : Single).value = 3 / 2 := by
    decide +kernel
  have exact : 3 / 2 * (n : ℚ) = (3 * n : ℤ) * 2 ^ (-1 : ℤ) := by
    push_cast
    rw [zpow_neg_one]
    ring
  -- one and a half times a line number is held without rounding
  have hx : Ticks (ofDecimal .single false 15 (-1) * ofInt .single n) (25165824 * n) := by
    have size : |3 * n| < 2 ^ 24 := by rw [abs_mul]; norm_num at small ⊢; omega
    have rounds := rounds_mul NumberFormat.roomy_single once.1 finite (by
      rw [once.2, value, exact, abs_mul, ← Int.cast_abs]
      have : ((|3 * n| : ℤ) : ℚ) < 2 ^ 24 := by exact_mod_cast size
      norm_num [NumberFormat.single] at this ⊢
      linarith)
    rw [once.2, value, exact] at rounds
    refine ⟨rounds.finite, (rounds.exact (by decide) size).trans ?_⟩
    push_cast
    rw [zpow_neg_one]
    ring
  obtain ⟨place, ticks, rounds⟩ := hx.mul radius_spec.1 radius_spec.2 (by
    rw [abs_mul, abs_mul]
    norm_num at small ⊢
    omega)
  exact ⟨place, ticks, by rwa [mul_comm] at rounds⟩

/-- The slanted coordinate before it is moved to the origin. -/
theorem exists_slant (low : -605396 ≤ half) (high : half ≤ 605396) (low' : -1210793 ≤ half + 2 * full)
    (high' : half + 2 * full ≤ 1210793) :
    ∃ sum scaled,
      Ticks ((slope / 2 * ofInt .single half + slope * ofInt .single full) * ofInt .single radius) scaled ∧
      Slant half full sum ∧ RoundsTo (100 * sum) scaled := by
  obtain ⟨finite, value⟩ := ofInt_spec (n := half) (abs_lt.2 (by omega))
  obtain ⟨finite', value'⟩ := ofInt_spec (n := full) (abs_lt.2 (by omega))
  obtain ⟨a, ha, nearest⟩ := ticks_half_slope.mul finite value (abs_lt.2 (by omega))
  obtain ⟨b, hb, nearest'⟩ := ticks_slope.mul finite' value' (abs_lt.2 (by omega))
  have := half_near low high nearest
  have := full_near (by omega) (by omega) nearest'
  obtain ⟨sum, hs, rounds⟩ := ha.add hb (abs_lt.2 (by omega))
  have slant : Slant half full sum := ⟨a, b, nearest, nearest', rounds⟩
  have := slant.near low high low' high'
  obtain ⟨scaled, ht, rounds⟩ := hs.mul radius_spec.1 radius_spec.2 (abs_lt.2 (by omega))
  exact ⟨sum, scaled, ht, slant, by rwa [mul_comm] at rounds⟩

end

/-- The number of the line a cell lies on counts half steps along it. -/
def half (o : Orientation) (a : Axial) : ℤ :=
  match o.layout with
  | .vertical => a.q
  | .horizontal => a.r

/-- Full steps along the line. -/
def full (o : Orientation) (a : Axial) : ℤ :=
  match o.layout with
  | .vertical => a.r
  | .horizontal => a.q

/-- The coordinate across the lines. -/
def straight (o : Orientation) (p : Single × Single) : Single :=
  match o.layout with
  | .vertical => p.1
  | .horizontal => p.2

/-- The coordinate along the lines. -/
def slanted (o : Orientation) (p : Single × Single) : Single :=
  match o.layout with
  | .vertical => p.2
  | .horizontal => p.1

/-- Cells at most `n` half steps and lines from the origin. -/
structure Near (o : Orientation) (n : ℤ) (a : Axial) : Prop where
  half : -n ≤ o.half a ∧ o.half a ≤ n
  level : -(2 * n + 1) ≤ o.half a + 2 * o.full a ∧ o.half a + 2 * o.full a ≤ 2 * n + 1

theorem straight_centre (o : Orientation) {a : Axial} (near : o.Near 605396 a) :
    ∃ place, Ticks (o.straight (o.centre a)) place ∧ Straight (o.half a) place := by
  have low := near.half.1
  have high := near.half.2
  obtain ⟨place, ticks, straight⟩ := exists_straight (n := o.half a) (abs_lt.2 (by omega))
  have small := (straight.below (k := 30) (by omega)).near
  refine ⟨place, ?_, straight⟩
  rcases o with ⟨_ | _, _ | _⟩
  all_goals exact ticks.add_zero (abs_lt.2 (by simp only [half] at *; omega))

theorem slanted_centre (o : Orientation) {a : Axial} (near : o.Near 605396 a) :
    ∃ place, Ticks (o.slanted (o.centre a)) place ∧ Slanted o.swapEvenOdd (o.half a) (o.full a) place := by
  obtain ⟨sum, scaled, ticks, slant, rounds⟩ := exists_slant near.half.1 near.half.2 near.level.1 near.level.2
  have := near.level
  have := slant.near near.half.1 near.half.2 near.level.1 near.level.2
  have := (rounds.below (k := 30) (by omega)).near
  obtain ⟨moved, back⟩ := ticks.add ticks_back (abs_lt.2 (by omega))
  rcases o with ⟨_ | _, _ | _⟩
  · exact ⟨scaled, ticks.add_zero (abs_lt.2 (by omega)), sum, scaled, slant, rounds, rfl⟩
  · exact ⟨moved, back.1, sum, scaled, slant, rounds, back.2⟩
  · refine ⟨scaled, ?_, sum, scaled, slant, rounds, rfl⟩
    rw [Binary.add_comm (slope / 2 * _)] at ticks
    exact ticks.add_zero (abs_lt.2 (by omega))
  · refine ⟨moved, ?_, sum, scaled, slant, rounds, back.2⟩
    rw [Binary.add_comm (slope / 2 * _)] at back
    exact back.1

end HexAtlas.Orientation
