import HexAtlas.Proofs.Grid.Centre
import HexAtlas.Proofs.Grid.Heading

namespace HexAtlas

def Axial.moved (a : Axial) (m : ℤ × ℤ) : Axial := ⟨a.q + m.1, a.r + m.2⟩

namespace Orientation

open Binary

/-- The parts of a turn across the lines and along them. -/
def parts (o : Orientation) (d : Direction) : ℤ × ℤ :=
  match o.layout with
  | .vertical => d.turn
  | .horizontal => d.turn.swap

/-- The move across the side that faces in a direction. No side faces across the lines alone. -/
def side? (o : Orientation) (d : Direction) : Option (ℤ × ℤ) :=
  match o.layout, d with
  | .vertical, .north => some (0, -1)
  | .vertical, .northEast => some (1, -1)
  | .vertical, .southEast => some (1, 0)
  | .vertical, .south => some (0, 1)
  | .vertical, .southWest => some (-1, 1)
  | .vertical, .northWest => some (-1, 0)
  | .horizontal, .northEast => some (1, -1)
  | .horizontal, .east => some (1, 0)
  | .horizontal, .southEast => some (0, 1)
  | .horizontal, .southWest => some (-1, 1)
  | .horizontal, .west => some (-1, 0)
  | .horizontal, .northWest => some (0, -1)
  | _, _ => none

variable {o : Orientation} {a : Axial} {d : Direction} {m : ℤ × ℤ} {n : ℤ}

/-- A side lies one line further or back, and half a step along; two half steps if on the same line. -/
theorem moved_of_side? (a : Axial) (side : o.side? d = some m) :
    o.half (a.moved m) = o.half a + (o.parts d).1 ∧
      o.half (a.moved m) + 2 * o.full (a.moved m) =
        o.half a + 2 * o.full a + (if (o.parts d).1 = 0 then 2 * (o.parts d).2 else (o.parts d).2) := by
  rcases o with ⟨_ | _, _⟩ <;> cases d <;> cases side <;>
    simp [half, full, parts, Direction.turn, Axial.moved] <;> ring

theorem parts_of_side? (side : o.side? d = some m) :
    ((o.parts d).1 = -1 ∨ (o.parts d).1 = 0 ∨ (o.parts d).1 = 1) ∧ ((o.parts d).2 = -1 ∨ (o.parts d).2 = 1) := by
  rcases o with ⟨_ | _, _⟩ <;> cases d <;> cases side <;> simp [parts, Direction.turn]

/-- The step from `p` to `q` has the parts of a side's direction, `u` long across the lines and `v` along them. For
a side on the same line `u` does not count. -/
structure Stride (o : Orientation) (d : Direction) (p q : Single × Single) (u v : ℚ) : Prop where
  across : (o.straight q - o.straight p).isFinite ∧ (o.straight q - o.straight p).value = u * (o.parts d).1
  along : (o.slanted q - o.slanted p).isFinite ∧ (o.slanted q - o.slanted p).value = v * (o.parts d).2
  width : 64 ≤ u ∧ u ≤ 256
  length : 0 < v ∧ v ≤ 256
  long : (o.parts d).1 = 0 → 64 ≤ v
  steep : 10 * v ≤ 27 * u
  turn : ((o.parts d).1 = -1 ∨ (o.parts d).1 = 0 ∨ (o.parts d).1 = 1) ∧ ((o.parts d).2 = -1 ∨ (o.parts d).2 = 1)

theorem across_spec {n σ place place' step : ℤ} (low : -605396 ≤ n ∧ -605396 ≤ n + σ)
    (high : n ≤ 605396 ∧ n + σ ≤ 605396)
    (unit : σ = -1 ∨ σ = 0 ∨ σ = 1) (h : Straight n place) (h' : Straight (n + σ) place')
    (hs : RoundsTo (place' - place) step) :
    (σ = 0 → step = 0) ∧ (σ ≠ 0 → 142 * 2 ^ 24 - 2 ^ 8 ≤ step * σ ∧ step * σ ≤ 152 * 2 ^ 24 + 2 ^ 8) := by
  rcases unit with rfl | rfl | rfl
  · have := Straight.step (by omega) (by omega) h' (by rwa [neg_add_cancel_right])
    have := (hs.below (k := 8) (by omega)).near
    omega
  · obtain rfl : place = place' := h.unique (by rwa [Straight, add_zero] at h')
    have := (hs.below (k := 0) (by omega)).near
    omega
  · have := Straight.step (by omega) (by omega) h h'
    have := (hs.below (k := 8) (by omega)).near
    omega

theorem Near.mono {n' : ℤ} (h : o.Near n a) (le : n ≤ n') : o.Near n' a := by
  obtain ⟨⟨_, _⟩, _, _⟩ := h
  exact ⟨⟨by omega, by omega⟩, by omega, by omega⟩

section

variable {b : Axial} {place place' step : ℤ}

/-- Both parts of the step between two cells come out in ticks. -/
theorem exists_across (near : o.Near 605396 a) (near' : o.Near 605396 b) :
    ∃ place place' step, Straight (o.half a) place ∧ Straight (o.half b) place' ∧ RoundsTo (place' - place) step ∧
      Ticks (o.straight (o.centre b) - o.straight (o.centre a)) step := by
  obtain ⟨place, ticks, straight⟩ := straight_centre o near
  obtain ⟨place', ticks', straight'⟩ := straight_centre o near'
  have := near.half
  have := near'.half
  have := (straight.below (k := 30) (by omega)).near
  have := (straight'.below (k := 30) (by omega)).near
  obtain ⟨step, difference, rounds⟩ := ticks'.sub ticks (abs_lt.2 (by omega))
  exact ⟨place, place', step, straight, straight', rounds, difference⟩

theorem exists_along (near : o.Near 605396 a) (near' : o.Near 605396 b) :
    ∃ place place' step, Slanted o.swapEvenOdd (o.half a) (o.full a) place ∧
      Slanted o.swapEvenOdd (o.half b) (o.full b) place' ∧ RoundsTo (place' - place) step ∧
      Ticks (o.slanted (o.centre b) - o.slanted (o.centre a)) step := by
  obtain ⟨place, ticks, slanted⟩ := slanted_centre o near
  obtain ⟨place', ticks', slanted'⟩ := slanted_centre o near'
  have := slanted.near near.half.1 near.half.2 near.level.1 near.level.2
  have := slanted'.near near'.half.1 near'.half.2 near'.level.1 near'.level.2
  have := near.level
  have := near'.level
  obtain ⟨step, difference, rounds⟩ := ticks'.sub ticks (abs_lt.2 (by omega))
  exact ⟨place, place', step, slanted, slanted', rounds, difference⟩

/-- A step along the lines is off by less than 49 pixels from the half steps it takes. -/
theorem along_near (near : o.Near 605396 a) (near' : o.Near 605396 b)
    (level : -2 ≤ o.half b + 2 * o.full b - (o.half a + 2 * o.full a) ∧
      o.half b + 2 * o.full b - (o.half a + 2 * o.full a) ≤ 2)
    (h : Slanted o.swapEvenOdd (o.half a) (o.full a) place)
    (h' : Slanted o.swapEvenOdd (o.half b) (o.full b) place') (hs : RoundsTo (place' - place) step) :
    (-2 ^ 8 ≤ step - (place' - place) ∧ step - (place' - place) ≤ 2 ^ 8) ∧
      -49 * 2 ^ 24 ≤ step - 1452949500 * (o.half b + 2 * o.full b - (o.half a + 2 * o.full a)) ∧
      step - 1452949500 * (o.half b + 2 * o.full b - (o.half a + 2 * o.full a)) ≤ 49 * 2 ^ 24 := by
  have := h.near near.half.1 near.half.2 near.level.1 near.level.2
  have := h'.near near'.half.1 near'.half.2 near'.level.1 near'.level.2
  have := (hs.below (k := 9) (by omega)).near
  omega

/-- Nearer to the origin a half step is at least 71 pixels long. -/
theorem along_step (near : o.Near 605395 a) (near' : o.Near 605395 b)
    (beside : o.half b = o.half a - 1 ∨ o.half b = o.half a + 1)
    (h : Slanted o.swapEvenOdd (o.half a) (o.full a) place)
    (h' : Slanted o.swapEvenOdd (o.half b) (o.full b) place') (hs : RoundsTo (place' - place) step) :
    (o.half b + 2 * o.full b - (o.half a + 2 * o.full a) = 1 → 72 * 2 ^ 24 - 2 ^ 8 ≤ step) ∧
      (o.half b + 2 * o.full b - (o.half a + 2 * o.full a) = -1 → step ≤ -72 * 2 ^ 24 + 2 ^ 8) := by
  have error (level) := (along_near (near.mono (by omega)) (near'.mono (by omega)) level h h' hs).1
  obtain ⟨⟨_, _⟩, _, _⟩ := near
  obtain ⟨⟨_, _⟩, _, _⟩ := near'
  constructor
  · intro level
    have := h.step ⟨by omega, by omega⟩ ⟨by omega, by omega⟩ (by omega) (by omega) (by omega) h'
    have := error (by omega)
    omega
  · intro level
    have := h'.step ⟨by omega, by omega⟩ ⟨by omega, by omega⟩ (by omega) (by omega) (by omega) h
    have := error (by omega)
    omega

end

/-- A part of a step is its length with the sign of the turn. -/
theorem exists_length {x : Single} {i σ : ℤ} (h : Ticks x i) (unit : σ = -1 ∨ σ = 1) :
    ∃ u : ℚ, x.value = u * σ ∧
      ∀ low high : ℤ, low ≤ i * σ ∧ i * σ ≤ high → low / 2 ^ 24 ≤ u ∧ u ≤ high / 2 ^ 24 := by
  refine ⟨(i * σ : ℤ) / 2 ^ 24, ?_, fun low high h => ?_⟩
  · rw [h.value]
    rcases unit with rfl | rfl <;> push_cast <;> ring
  · have low : (low : ℚ) ≤ (i * σ : ℤ) := by exact_mod_cast h.1
    have high : ((i * σ : ℤ) : ℚ) ≤ high := by exact_mod_cast h.2
    exact ⟨by gcongr, by gcongr⟩

/-- The way across a side is a stride, and nearer to the origin its parts tell its direction from all others. -/
theorem exists_stride (side : o.side? d = some m) (near : o.Near 605396 a) (near' : o.Near 605396 (a.moved m)) :
    ∃ u v, Stride o d (o.centre a) (o.centre (a.moved m)) u v ∧
      (o.Near 605395 a → o.Near 605395 (a.moved m) → 47 * u ≤ 100 * v ∧ 47 * v ≤ 100 * u) := by
  obtain ⟨across, along⟩ := moved_of_side? a side
  obtain ⟨unit, unit'⟩ := parts_of_side? side
  obtain ⟨x, x', k, sx, sx', rk, tk⟩ := exists_across near near'
  obtain ⟨y, y', l, sy, sy', rl, tl⟩ := exists_along near near'
  have := near.half
  have := near'.half
  have widths := across_spec (by omega) (by omega) unit sx (across ▸ sx') rk
  have lengths := (along_near near near' (by omega) sy sy' rl).2
  obtain ⟨v, alongValue, bounds⟩ := exists_length tl unit'
  by_cases same : (o.parts d).1 = 0
  · -- the same line: the length across it may be chosen
    rw [along, if_pos same] at lengths
    obtain ⟨low, high⟩ := bounds (124 * 2 ^ 24) (223 * 2 ^ 24) (by
      rcases unit' with turn | turn <;> rw [turn] at lengths ⊢ <;> omega)
    norm_num at low high
    have acrossValue : (o.straight (o.centre (a.moved m)) - o.straight (o.centre a)).value = v * (o.parts d).1 := by
      rw [tk.value, widths.1 same, same]
      simp
    exact ⟨v, v,
      ⟨⟨tk.finite, acrossValue⟩, ⟨tl.finite, alongValue⟩, ⟨by linarith, by linarith⟩, ⟨by linarith, by linarith⟩,
      fun _ => by linarith, by linarith, unit, unit'⟩, fun _ _ => ⟨by linarith, by linarith⟩⟩
  · rw [along, if_neg same] at lengths
    obtain ⟨low, high⟩ := bounds (37 * 2 ^ 24) (136 * 2 ^ 24) (by
      rcases unit' with turn | turn <;> rw [turn] at lengths ⊢ <;> omega)
    obtain ⟨u, acrossValue, bounds'⟩ :=
      exists_length tk (or_iff_not_imp_left.2 fun h => (unit.resolve_left h).resolve_left same)
    obtain ⟨low', high'⟩ := bounds' _ _ (widths.2 same)
    norm_num at low high low' high'
    refine ⟨u, v,
      ⟨⟨tk.finite, acrossValue⟩, ⟨tl.finite, alongValue⟩, ⟨by linarith, by linarith⟩, ⟨by linarith, by linarith⟩,
      fun h => absurd h same, by linarith, unit, unit'⟩, fun h h' => ?_⟩
    have strict := along_step h h' (by omega) sy sy' rl
    rw [along, if_neg same] at strict
    have := (bounds (72 * 2 ^ 24 - 2 ^ 8) (136 * 2 ^ 24) (by
      rcases unit' with turn | turn <;> rw [turn] at lengths strict ⊢ <;> omega)).1
    norm_num at this
    exact ⟨by linarith, by linarith⟩

namespace Stride

variable {d' : Direction} {b : Axial} {u v : ℚ}

theorem moderate {p q : Single × Single} (h : Stride o d p q u v) :
    Moderate (o.straight q - o.straight p) (o.slanted q - o.slanted p) := by
  obtain ⟨⟨hx, hu⟩, ⟨hy, hv⟩, ⟨wide, wide'⟩, ⟨high, high'⟩, long, -, turn, turn'⟩ := h
  have short {w : ℚ} {σ : ℤ} (low : 0 < w) (high : w ≤ 256) (unit : |σ| ≤ 1) : |w * σ| ≤ 256 := by
    rw [abs_mul, abs_of_pos low]
    exact (mul_le_of_le_one_right low.le (by exact_mod_cast unit)).trans high
  refine ⟨⟨hx, hy⟩, ?_, ?_⟩ <;> rw [hu, hv]
  · exact ⟨short (by linarith) wide' (abs_le.2 (by omega)), short high high' (abs_le.2 (by omega))⟩
  have square : ((o.parts d).2 : ℚ) ^ 2 = 1 := by rcases turn' with turn | turn <;> rw [turn] <;> norm_num
  rw [mul_pow, mul_pow, square]
  by_cases same : (o.parts d).1 = 0
  · nlinarith [long same, sq_nonneg (u * (o.parts d).1)]
  · have square : ((o.parts d).1 : ℚ) ^ 2 = 1 := by
      rcases turn with turn | turn | turn
      · rw [turn]; norm_num
      · exact absurd turn same
      · rw [turn]; norm_num
    rw [square]
    nlinarith

theorem aligned (h : Stride o d (o.centre a) (o.centre b) u v) (flat : 47 * u ≤ 100 * v)
    (steep : 47 * v ≤ 100 * u) :
    aligned (o.unitStep a b) d := by
  have moderate := h.moderate
  obtain ⟨⟨-, hu⟩, ⟨-, hv⟩, ⟨wide, -⟩, ⟨high, -⟩, -, -, -⟩ := h
  rw [aligned_unitStep, decide_eq_true_iff]
  rcases o with ⟨_ | _, _⟩
  · have splits : d.Splits _ _ u v := ⟨by linarith, high, hu, hv⟩
    obtain ⟨front, narrow⟩ := splits.narrow flat steep
    exact lt_along moderate front narrow
  · have splits : d.Splits _ _ v u := ⟨high, by linarith, hv, hu⟩
    obtain ⟨front, narrow⟩ := splits.narrow steep flat
    exact lt_along moderate.swap front narrow

/-- The step faces no other side, and no other direction at all if its parts are nearly as long as each other. -/
theorem not_aligned (h : Stride o d (o.centre a) (o.centre b) u v) (ne : d' ≠ d)
    (flat : (o.side? d').isSome ∨ 10 * u ≤ 27 * v) : ¬Orientation.aligned (o.unitStep a b) d' := by
  have moderate := h.moderate
  obtain ⟨⟨-, hu⟩, ⟨-, hv⟩, ⟨wide, -⟩, ⟨high, -⟩, -, steep, -⟩ := h
  rw [aligned_unitStep, decide_eq_true_iff]
  rcases o with ⟨_ | _, _⟩
  · have splits : d.Splits _ _ u v := ⟨by linarith, high, hu, hv⟩
    refine not_lt_along moderate (splits.wide ne (flat.imp_left fun side => ?_) (.inr steep))
    cases d' <;> simp [side?, Direction.turn] at side ⊢
  · have splits : d.Splits _ _ v u := ⟨high, by linarith, hv, hu⟩
    refine not_lt_along moderate.swap (splits.wide ne (.inr steep) (flat.imp_left fun side => ?_))
    cases d' <;> simp [side?, Direction.turn] at side ⊢

end Stride

end Orientation

end HexAtlas
