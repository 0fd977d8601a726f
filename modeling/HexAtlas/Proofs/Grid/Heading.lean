import HexAtlas.Grid.Orientation
import HexAtlas.Proofs.Binary.Root

namespace HexAtlas

namespace Direction

/-- East and south parts of a heading, in whole numbers. -/
def turn : Direction → ℤ × ℤ
  | north => (0, -1)
  | northEast => (1, -1)
  | east => (1, 0)
  | southEast => (1, 1)
  | south => (0, 1)
  | southWest => (-1, 1)
  | west => (-1, 0)
  | northWest => (-1, -1)

/-- The square of the length of a turn. -/
def spread (d : Direction) : ℤ := d.turn.1 ^ 2 + d.turn.2 ^ 2

theorem abs_turn_le (d : Direction) : |d.turn.1| ≤ 1 ∧ |d.turn.2| ≤ 1 := by cases d <;> decide

theorem value_diagonal : diagonal.value = 6369051672525773 / 2 ^ 53 := by decide +kernel

/-- A step `(x, y)` that has the parts of a turn, `u` and `v` long. Where the turn lacks a part its length does not
count. -/
structure Splits (d : Direction) (x y u v : ℚ) : Prop where
  east : 0 < u
  south : 0 < v
  x : x = u * d.turn.1
  y : y = v * d.turn.2

variable {d d' : Direction} {x y u v : ℚ}

/-- The squared cosine between a step and its own direction is 0.884 at least if neither part is much longer. -/
theorem Splits.narrow (h : d.Splits x y u v) (flat : 47 * u ≤ 100 * v) (steep : 47 * v ≤ 100 * u) :
    0 < x * d.turn.1 + y * d.turn.2 ∧
      884 * (d.spread * (x ^ 2 + y ^ 2)) ≤ 1000 * (x * d.turn.1 + y * d.turn.2) ^ 2 := by
  obtain ⟨hu, hv, rfl, rfl⟩ := h
  have ratio : 0 ≤ (100 * v - 47 * u) * (100 * u - 47 * v) := mul_nonneg (by linarith) (by linarith)
  cases d <;> simp [turn, spread] <;> constructor <;> nlinarith

/-- Every other direction lies behind the step, or at a squared cosine of 0.8832 at most. Only the directions along
an axis come close, and only if the other part is much longer. -/
theorem Splits.wide (h : d.Splits x y u v) (ne : d' ≠ d) (flat : d'.turn.2 ≠ 0 ∨ 10 * u ≤ 27 * v)
    (steep : d'.turn.1 ≠ 0 ∨ 10 * v ≤ 27 * u) :
    x * d'.turn.1 + y * d'.turn.2 ≤ 0 ∨
      10000 * (x * d'.turn.1 + y * d'.turn.2) ^ 2 ≤ 8832 * (d'.spread * (x ^ 2 + y ^ 2)) := by
  obtain ⟨hu, hv, rfl, rfl⟩ := h
  -- directions that share no part with the step lie behind it or across; the others are told apart by the squares
  cases d <;> cases d' <;> simp [turn, spread] at * <;> first | done | (left; linarith) | (right; nlinarith)

/-- A heading is the turn brought to length one. -/
theorem exists_heading_eq (d : Direction) :
    d.heading.1.isFinite ∧ d.heading.2.isFinite ∧
      ∃ c : ℚ, 0 < c ∧ c ≤ 1 ∧ |c ^ 2 * d.spread - 1| ≤ 1 / 2 ^ 50 ∧
        d.heading.1.value = d.turn.1 * c ∧ d.heading.2.value = d.turn.2 * c := by
  have zero : (0 : Double).value = 0 := by decide +kernel
  have one : (1 : Double).value = 1 := by decide +kernel
  have negOne : (-1 : Double).value = -1 := by decide +kernel
  have slanted : |(6369051672525773 / 2 ^ 53 : ℚ) ^ 2 * 2 - 1| ≤ 1 / 2 ^ 50 := by norm_num [abs_le]
  cases d
  case north | east | south | west =>
    refine ⟨by decide +kernel, by decide +kernel, 1, by norm_num, le_rfl, by simp [spread, turn], ?_⟩
    simp [heading, turn, zero, one, negOne]
  all_goals
    refine ⟨by decide +kernel, by decide +kernel, 6369051672525773 / 2 ^ 53, by norm_num, by norm_num, ?_, ?_⟩
    · simpa only [spread, turn, Int.cast_add, Int.cast_pow, Int.cast_one, Int.cast_neg, one_pow, even_two.neg_pow,
        show (1 : ℚ) + 1 = 2 by norm_num] using slanted
    · simp [heading, turn, value_diagonal]

end Direction

namespace Binary

variable {f : NumberFormat}

/-- The error of a number below `2 ^ (precision - k)`. -/
theorem Rounds.error {x : Binary f} {q : ℚ} (h : Rounds x q) (k : ℕ) (finest : f.finest ≤ -k)
    (below : |q| < 2 ^ f.precision / 2 ^ k) : |x.value - q| ≤ 1 / 2 ^ (k + 1) := by
  have := h.near finest (by rwa [← sub_eq_add_neg, zpow_sub₀ two_ne_zero, zpow_natCast, zpow_natCast])
  rw [zpow_neg, zpow_natCast] at this
  rw [pow_succ, one_div, mul_inv]
  linarith

theorem lt_single_room {q : ℚ} (h : |q| ≤ 2 ^ 20) : |q| < 2 ^ (NumberFormat.single.ceiling - 1) :=
  h.trans_lt (by norm_num [NumberFormat.single])

theorem lt_double_room {q : ℚ} (h : |q| ≤ 2 ^ 20) : |q| < 2 ^ (NumberFormat.double.ceiling - 1) :=
  (lt_single_room h).trans (zpow_lt_zpow_right₀ (by norm_num) (by decide))

end Binary

namespace Orientation

open Binary

/-- The parts of a step that is between 64 and 256 pixels long, or little more. -/
structure Moderate (x y : Single) : Prop where
  finite : x.isFinite ∧ y.isFinite
  short : |x.value| ≤ 256 ∧ |y.value| ≤ 256
  long : 2 ^ 12 ≤ x.value ^ 2 + y.value ^ 2

namespace Moderate

variable {x y : Single}

theorem swap (h : Moderate x y) : Moderate y x := ⟨h.finite.symm, h.short.symm, by rw [add_comm]; exact h.long⟩

theorem square_le (h : Moderate x y) : x.value ^ 2 ≤ 2 ^ 16 := by
  have := sq_le_sq' (abs_le.1 h.short.1).1 (abs_le.1 h.short.1).2
  norm_num at this ⊢
  exact this

theorem rounds_square (h : Moderate x y) : (x * x).isFinite ∧ |(x * x).value - x.value ^ 2| ≤ 1 / 2 ^ 8 := by
  have small : |x.value * x.value| ≤ 2 ^ 16 := by
    rw [← sq, abs_of_nonneg (sq_nonneg _)]
    exact h.square_le
  have rounds := rounds_mul NumberFormat.roomy_single h.finite.1 h.finite.1 (lt_single_room (by linarith))
  exact ⟨rounds.finite, sq x.value ▸ rounds.error 7 (by decide)
    (small.trans_lt (by norm_num [NumberFormat.single]))⟩

/-- The squared length, with its three roundings. -/
theorem squares_spec (h : Moderate x y) :
    (x * x + y * y).isFinite ∧ |(x * x + y * y).value - (x.value ^ 2 + y.value ^ 2)| ≤ 1 / 64 := by
  obtain ⟨finite, near⟩ := h.rounds_square
  obtain ⟨finite', near'⟩ := h.swap.rounds_square
  have := h.square_le
  have := h.swap.square_le
  obtain ⟨low, high⟩ := abs_le.1 near
  obtain ⟨low', high'⟩ := abs_le.1 near'
  have small : |(x * x).value + (y * y).value| ≤ 2 ^ 17 + 1 := abs_le.2 ⟨by nlinarith, by linarith⟩
  have rounds := rounds_add NumberFormat.roomy_single finite finite' (lt_single_room (small.trans (by norm_num)))
  obtain ⟨low'', high''⟩ :=
    abs_le.1 (rounds.error 6 (by decide) (small.trans_lt (by norm_num [NumberFormat.single])))
  exact ⟨rounds.finite, abs_le.2 ⟨by linarith, by linarith⟩⟩

/-- The length, with all roundings up to the root: its square is off by a sixteenth at most. -/
theorem length_spec (h : Moderate x y) :
    (x * x + y * y).sqrt.isFinite ∧ 62 ≤ (x * x + y * y).sqrt.value ∧ (x * x + y * y).sqrt.value ≤ 512 ∧
      |(x * x + y * y).sqrt.value ^ 2 - (x.value ^ 2 + y.value ^ 2)| ≤ 1 / 16 := by
  obtain ⟨-, near⟩ := h.squares_spec
  obtain ⟨low, high⟩ := abs_le.1 near
  have least := h.long
  have most : x.value ^ 2 + y.value ^ 2 ≤ 2 ^ 17 := by linarith [h.square_le, h.swap.square_le]
  generalize x * x + y * y = s at *
  generalize x.value ^ 2 + y.value ^ 2 = l at *
  obtain ⟨v, pos, nearv, hv⟩ := exists_rounds_sqrt NumberFormat.roomy_single (x := s) (by linarith)
    (by norm_num [NumberFormat.single]; linarith)
  have nearv' : |v ^ 2 - s.value| ≤ 1 / 64 := by
    refine nearv.trans ?_
    norm_num [NumberFormat.single]
    linarith
  obtain ⟨lowv, highv⟩ := abs_le.1 nearv'
  have above : 63 < v := lt_of_pow_lt_pow_left₀ 2 pos.le (by linarith)
  have below : v < 364 := lt_of_pow_lt_pow_left₀ 2 (by norm_num) (by linarith)
  have error := hv.error 15 (by decide) (by rw [abs_of_pos pos]; norm_num [NumberFormat.single]; linarith)
  obtain ⟨lowt, hight⟩ := abs_le.1 error
  refine ⟨hv.finite, by linarith, by linarith, ?_⟩
  have apart : |(s.sqrt.value - v) * (s.sqrt.value + v)| ≤ 1 / 2 ^ (15 + 1) * 1024 := by
    rw [abs_mul, abs_of_pos (by linarith : 0 < s.sqrt.value + v)]
    exact mul_le_mul error (by linarith) (by linarith) (by norm_num)
  obtain ⟨lowa, higha⟩ := abs_le.1 apart
  have split : s.sqrt.value ^ 2 - l =
      (s.sqrt.value - v) * (s.sqrt.value + v) + (v ^ 2 - s.value) + (s.value - l) := by ring
  rw [split]
  exact abs_le.2 ⟨by linarith, by linarith⟩

/-- What a step is scaled by makes it almost one long. -/
theorem scale_spec (h : Moderate x y) :
    (1 / (x * x + y * y).sqrt).isFinite ∧ 0 < (1 / (x * x + y * y).sqrt).value ∧
      (1 / (x * x + y * y).sqrt).value ≤ 1 / 61 ∧
      |(1 / (x * x + y * y).sqrt).value ^ 2 * (x.value ^ 2 + y.value ^ 2) - 1| ≤ 1 / 2 ^ 15 := by
  obtain ⟨finite, low, high, near⟩ := h.length_spec
  generalize (x * x + y * y).sqrt = t at *
  have one : (1 : Single).isFinite ∧ (1 : Single).value = 1 := by decide +kernel
  have pos : 0 < t.value := by linarith
  have most : 1 / t.value ≤ 1 / 62 := one_div_le_one_div_of_le (by norm_num) low
  have least : 1 / 512 ≤ 1 / t.value := one_div_le_one_div_of_le pos high
  have small : |1 / t.value| ≤ 1 / 62 := by rwa [abs_of_pos (by positivity)]
  have rounds : Rounds (1 / t) (1 / t.value) := by
    have := rounds_div NumberFormat.roomy_single one.1 finite pos.ne'
      (by rw [one.2]; exact lt_single_room (small.trans (by norm_num)))
    rwa [one.2] at this
  have error := rounds.error 29 (by decide) (small.trans_lt (by norm_num [NumberFormat.single]))
  generalize (1 / t).value = k at *
  obtain ⟨lowk, highk⟩ := abs_le.1 error
  have kpos : 0 < k := by linarith
  have ksmall : k ≤ 1 / 61 := by linarith
  have product : |k * t.value - 1| ≤ 1 / 2 ^ 21 := by
    rw [show k * t.value - 1 = (k - 1 / t.value) * t.value by field_simp, abs_mul, abs_of_pos pos]
    calc |k - 1 / t.value| * t.value ≤ 1 / 2 ^ (29 + 1) * 512 := by gcongr
      _ = 1 / 2 ^ 21 := by norm_num
  obtain ⟨lowp, highp⟩ := abs_le.1 product
  refine ⟨rounds.finite, kpos, ksmall, ?_⟩
  generalize x.value ^ 2 + y.value ^ 2 = l at *
  have rest : |k ^ 2 * (l - t.value ^ 2)| ≤ (1 / 61) ^ 2 * (1 / 16) := by
    rw [abs_mul, abs_sub_comm, abs_of_pos (by positivity)]
    gcongr
  have square : |(k * t.value - 1) * (k * t.value + 1)| ≤ 1 / 2 ^ 21 * 3 := by
    rw [abs_mul, abs_of_pos (by linarith : 0 < k * t.value + 1)]
    exact mul_le_mul product (by linarith) (by linarith) (by norm_num)
  have split : k ^ 2 * l - 1 = k ^ 2 * (l - t.value ^ 2) + (k * t.value - 1) * (k * t.value + 1) := by ring
  rw [split]
  exact (abs_add_le _ _).trans (by linarith)

end Moderate

/-- One of the two products that a step and a heading are compared by. -/
theorem part_spec {x k : Single} {h : Double} (hx : x.isFinite) (hk : k.isFinite) (hh : h.isFinite)
    (small : |x.value| ≤ 256) (pos : 0 < k.value) (least : k.value ≤ 1 / 61) (one : |h.value| ≤ 1) :
    ((x * k).convert .double * h).isFinite ∧
      |((x * k).convert .double * h).value - x.value * k.value * h.value| ≤ 1 / 2 ^ 21 ∧
      |((x * k).convert .double * h).value| ≤ 6 := by
  have size : |x.value * k.value| ≤ 5 := by
    rw [abs_mul, abs_of_pos pos]
    calc |x.value| * k.value ≤ 256 * (1 / 61) := by gcongr
      _ ≤ 5 := by norm_num
  have hu := rounds_mul NumberFormat.roomy_single hx hk (lt_single_room (size.trans (by norm_num)))
  have nearu := hu.error 21 (by decide) (size.trans_lt (by norm_num [NumberFormat.single]))
  have sizeu : |(x * k).value| ≤ 5 + 1 / 2 ^ 22 := by
    linarith [abs_sub_abs_le_abs_sub (x * k).value (x.value * k.value)]
  have hc := rounds_convert NumberFormat.roomy_double hu.finite (lt_double_room (sizeu.trans (by norm_num)))
  have nearc := hc.error 50 (by decide) (sizeu.trans_lt (by norm_num [NumberFormat.double]))
  generalize (x * k).convert .double = c at *
  have sizec : |c.value| ≤ 5 + 1 / 2 ^ 21 := by
    linarith [abs_sub_abs_le_abs_sub c.value (x * k).value]
  have size' : |c.value * h.value| ≤ 5 + 1 / 2 ^ 21 := by
    rw [abs_mul]
    exact (mul_le_of_le_one_right (abs_nonneg _) one).trans sizec
  have hp := rounds_mul NumberFormat.roomy_double hc.finite hh (lt_double_room (size'.trans (by norm_num)))
  have nearp := hp.error 50 (by decide) (size'.trans_lt (by norm_num [NumberFormat.double]))
  have close : |c.value - x.value * k.value| ≤ 1 / 2 ^ 22 + 1 / 2 ^ 51 := by
    linarith [abs_sub_le c.value (x * k).value (x.value * k.value)]
  refine ⟨hp.finite, ?_, ?_⟩
  · calc |(c * h).value - x.value * k.value * h.value|
        ≤ |(c * h).value - c.value * h.value| + |c.value * h.value - x.value * k.value * h.value| :=
          abs_sub_le _ _ _
      _ ≤ 1 / 2 ^ 51 + (1 / 2 ^ 22 + 1 / 2 ^ 51) := by
        gcongr
        rw [← sub_mul, abs_mul]
        exact (mul_le_of_le_one_right (abs_nonneg _) one).trans close
      _ ≤ 1 / 2 ^ 21 := by norm_num
  · linarith [abs_sub_abs_le_abs_sub (c * h).value (c.value * h.value)]

/-- How far a step goes along a heading. -/
def along (x y : Single) (d : Direction) : Double :=
  (x * (1 / (x * x + y * y).sqrt)).convert .double * d.heading.1 +
    (y * (1 / (x * x + y * y).sqrt)).convert .double * d.heading.2

variable {x y : Single} {d : Direction}

theorem along_spec (h : Moderate x y) (d : Direction) :
    (along x y d).isFinite ∧ ∃ k : ℚ, 0 < k ∧ |k ^ 2 * (d.spread * (x.value ^ 2 + y.value ^ 2)) - 1| ≤ 1 / 2 ^ 14 ∧
      |(along x y d).value - k * (x.value * d.turn.1 + y.value * d.turn.2)| ≤ 1 / 2 ^ 19 := by
  obtain ⟨finite, pos, least, near⟩ := h.scale_spec
  obtain ⟨hh, hh', c, cpos, cone, cnear, value, value'⟩ := d.exists_heading_eq
  have one : |d.heading.1.value| ≤ 1 := by
    rw [value, abs_mul, abs_of_pos cpos]
    exact mul_le_one₀ (by exact_mod_cast d.abs_turn_le.1) cpos.le cone
  have one' : |d.heading.2.value| ≤ 1 := by
    rw [value', abs_mul, abs_of_pos cpos]
    exact mul_le_one₀ (by exact_mod_cast d.abs_turn_le.2) cpos.le cone
  obtain ⟨hp, nearp, sizep⟩ := part_spec h.finite.1 finite hh h.short.1 pos least one
  obtain ⟨hq, nearq, sizeq⟩ := part_spec h.finite.2 finite hh' h.short.2 pos least one'
  unfold along
  generalize (1 / (x * x + y * y).sqrt) = s at *
  generalize (x * s).convert .double * d.heading.1 = p at *
  generalize (y * s).convert .double * d.heading.2 = q at *
  have size : |p.value + q.value| ≤ 12 := (abs_add_le _ _).trans (by linarith)
  have hsum := rounds_add NumberFormat.roomy_double hp hq (lt_double_room (size.trans (by norm_num)))
  have nearsum := hsum.error 49 (by decide) (size.trans_lt (by norm_num [NumberFormat.double]))
  refine ⟨hsum.finite, s.value * c, by positivity, ?_, ?_⟩
  · have split : (s.value * c) ^ 2 * (d.spread * (x.value ^ 2 + y.value ^ 2)) =
        (s.value ^ 2 * (x.value ^ 2 + y.value ^ 2)) * (c ^ 2 * d.spread) := by ring
    rw [split]
    generalize s.value ^ 2 * (x.value ^ 2 + y.value ^ 2) = u at *
    generalize c ^ 2 * (d.spread : ℚ) = v at *
    have := abs_le.1 near
    have := abs_le.1 cnear
    exact abs_le.2 ⟨by nlinarith, by nlinarith⟩
  · rw [value] at nearp
    rw [value'] at nearq
    have := abs_le.1 nearp
    have := abs_le.1 nearq
    have := abs_le.1 nearsum
    exact abs_le.2 ⟨by linarith, by linarith⟩

/-- The threshold lies between the cosines whose squares are 0.8832 and 0.884. -/
theorem threshold_spec : (ofDecimal .double false 94 (-2)).isFinite ∧
    9399 / 10000 + 1 / 2 ^ 19 < (ofDecimal .double false 94 (-2)).value ∧
      (ofDecimal .double false 94 (-2)).value < 9401 / 10000 - 1 / 2 ^ 19 := by decide +kernel

theorem aligned_unitStep (o : Orientation) (a b : Axial) (d : Direction) :
    aligned (o.unitStep a b) d =
      decide (ofDecimal .double false 94 (-2) <
        along ((o.centre b).1 - (o.centre a).1) ((o.centre b).2 - (o.centre a).2) d) := rfl

/-- A step goes in a direction whose heading it is turned away from by a squared cosine of 0.884 at least. -/
theorem lt_along (h : Moderate x y) (front : 0 < x.value * d.turn.1 + y.value * d.turn.2)
    (narrow : 884 * (d.spread * (x.value ^ 2 + y.value ^ 2)) ≤
      1000 * (x.value * d.turn.1 + y.value * d.turn.2) ^ 2) :
    ofDecimal .double false 94 (-2) < along x y d := by
  obtain ⟨finite, k, pos, scale, near⟩ := along_spec h d
  obtain ⟨hc, -, below⟩ := threshold_spec
  rw [lt_iff_value_lt hc finite]
  generalize x.value * d.turn.1 + y.value * d.turn.2 = p at *
  generalize (d.spread : ℚ) * (x.value ^ 2 + y.value ^ 2) = l at *
  have square : (9401 / 10000) ^ 2 ≤ (k * p) ^ 2 := by
    have := (abs_le.1 scale).1
    rw [mul_pow]
    nlinarith [mul_le_mul_of_nonneg_left narrow (sq_nonneg k)]
  have : 9401 / 10000 ≤ k * p := le_of_sq_le_sq square (mul_pos pos front).le
  linarith [(abs_le.1 near).1]

/-- A step does not go in a direction behind it, or with a squared cosine of 0.8832 at most. -/
theorem not_lt_along (h : Moderate x y)
    (wide : x.value * d.turn.1 + y.value * d.turn.2 ≤ 0 ∨
      10000 * (x.value * d.turn.1 + y.value * d.turn.2) ^ 2 ≤ 8832 * (d.spread * (x.value ^ 2 + y.value ^ 2))) :
    ¬ofDecimal .double false 94 (-2) < along x y d := by
  obtain ⟨finite, k, pos, scale, near⟩ := along_spec h d
  obtain ⟨hc, above, -⟩ := threshold_spec
  rw [lt_iff_value_lt hc finite, not_lt]
  generalize x.value * d.turn.1 + y.value * d.turn.2 = p at *
  generalize (d.spread : ℚ) * (x.value ^ 2 + y.value ^ 2) = l at *
  have : k * p ≤ 9399 / 10000 := by
    rcases wide with behind | wide
    · nlinarith
    · have square : (k * p) ^ 2 ≤ (9399 / 10000) ^ 2 := by
        have := (abs_le.1 scale).2
        rw [mul_pow]
        nlinarith [mul_le_mul_of_nonneg_left wide (sq_nonneg k)]
      exact (abs_le_of_sq_le_sq' square (by norm_num)).2
  linarith [(abs_le.1 near).2]

end Orientation

end HexAtlas
