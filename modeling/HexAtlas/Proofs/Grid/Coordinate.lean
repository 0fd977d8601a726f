import HexAtlas.Proofs.Binary.Ticks

namespace HexAtlas

/-- The straight coordinate of line `n`: `25165824` ticks are one and a half, the radius is 100. -/
def Straight (n place : ℤ) : Prop := RoundsTo (100 * (25165824 * n)) place

/-- The slanted coordinate before it is scaled, from half steps of `14529495` ticks and full steps of twice as
many. -/
def Slant (half full sum : ℤ) : Prop :=
  ∃ a b, RoundsTo (14529495 * half) a ∧ RoundsTo (29058990 * full) b ∧ RoundsTo (a + b) sum

/-- The slanted coordinate: swapped grids lie `1452949504` ticks back. -/
def Slanted (swapped : Bool) (half full place : ℤ) : Prop :=
  ∃ sum scaled, Slant half full sum ∧ RoundsTo (100 * sum) scaled ∧
    if swapped then RoundsTo (scaled - 1452949504) place else place = scaled

theorem Straight.step {n place place' : ℤ} (low : -605397 ≤ n) (high : n + 1 ≤ 605397)
    (h : Straight n place) (h' : Straight (n + 1) place') :
    142 * 2 ^ 24 ≤ place' - place ∧ place' - place ≤ 152 * 2 ^ 24 := by
  rcases h.zones 25 (by omega) with ⟨_, _, _⟩ | ⟨_, _, _, _, -⟩ | ⟨_, _, _, _, -⟩ <;>
    rcases h'.zones 25 (by omega) with ⟨_, _, _⟩ | ⟨_, _, _, _, -⟩ | ⟨_, _, _, _, -⟩ <;>
    omega

section Slant

variable {half full half' full' sum sum' a a' b b' : ℤ}

theorem half_step (low : -605395 ≤ half) (high : half + 1 ≤ 605395)
    (h : RoundsTo (14529495 * half) a) (h' : RoundsTo (14529495 * (half + 1)) a') :
    27 * 2 ^ 19 ≤ a' - a ∧ a' - a ≤ 28 * 2 ^ 19 := by
  rcases h.zones 17 (by omega) with ⟨_, _, _⟩ | ⟨_, _, _, _, -⟩ | ⟨_, _, _, _, -⟩ <;>
    rcases h'.zones 17 (by omega) with ⟨_, _, _⟩ | ⟨_, _, _, _, -⟩ | ⟨_, _, _, _, -⟩ <;>
    omega

/-- A full step loses more than two of its 55 units only where it has more than `2 ^ 44` ticks behind it. -/
theorem full_step (low : -908093 ≤ full) (high : full + 1 ≤ 908093)
    (h : RoundsTo (29058990 * full) b) (h' : RoundsTo (29058990 * (full + 1)) b') :
    52 * 2 ^ 19 ≤ b' - b ∧ (b' - b < 54 * 2 ^ 19 → 605396 ≤ full ∨ full + 1 ≤ -605396) := by
  rcases h.zones 19 (by omega) with ⟨_, _, _⟩ | ⟨_, _, _, _, -⟩ | ⟨_, _, _, _, -⟩ <;>
    rcases h'.zones 19 (by omega) with ⟨_, _, _⟩ | ⟨_, _, _, _, -⟩ | ⟨_, _, _, _, -⟩ <;>
    omega

theorem half_near (low : -605396 ≤ half) (high : half ≤ 605396) (h : RoundsTo (14529495 * half) a) :
    -2 ^ 19 ≤ a - 14529495 * half ∧ a - 14529495 * half ≤ 2 ^ 19 := by
  have := (h.below (k := 20) (by omega)).near
  omega

theorem full_near (low : -908095 ≤ full) (high : full ≤ 908095) (h : RoundsTo (29058990 * full) b) :
    -2 ^ 20 ≤ b - 29058990 * full ∧ b - 29058990 * full ≤ 2 ^ 20 := by
  have := (h.below (k := 21) (by omega)).near
  omega

/-- The sum of the rounded steps is rounded to a multiple of `2 ^ 20` where steps may be short. -/
theorem sum_step {n n' : ℤ} (low : -2 ^ 44 < n) (high : n' < 2 ^ 44) (long : 24 * 2 ^ 19 ≤ n' - n)
    (far : n' - n < 26 * 2 ^ 19 → 2 ^ 43 ≤ n ∨ n' ≤ -2 ^ 43) (h : RoundsTo n sum) (h' : RoundsTo n' sum') :
    12 * 2 ^ 20 ≤ sum' - sum ∧ (sum' - sum < 25 * 2 ^ 19 → 2 ^ 43 ≤ sum ∨ sum' ≤ -2 ^ 43) := by
  rcases h.zones 18 (by omega) with ⟨_, _, _⟩ | ⟨_, _, _, _, _⟩ | ⟨_, _, _, _, _⟩ <;>
    rcases h'.zones 18 (by omega) with ⟨_, _, _⟩ | ⟨_, _, _, _, _⟩ | ⟨_, _, _, _, _⟩ <;>
    omega

/-- All roundings of the sum together are off by less than a fifth of a half step. -/
theorem Slant.near (low : -605396 ≤ half) (high : half ≤ 605396) (low' : -1210793 ≤ half + 2 * full)
    (high' : half + 2 * full ≤ 1210793) (h : Slant half full sum) :
    -5 * 2 ^ 19 ≤ sum - 14529495 * (half + 2 * full) ∧ sum - 14529495 * (half + 2 * full) ≤ 5 * 2 ^ 19 := by
  obtain ⟨a, b, ha, hb, hs⟩ := h
  have := half_near low high ha
  have := full_near (by omega) (by omega) hb
  have := (hs.below (k := 21) (by omega)).near
  omega

theorem Slant.grid (low : -605396 ≤ half) (high : half ≤ 605396) (low' : -1210793 ≤ half + 2 * full)
    (high' : half + 2 * full ≤ 1210793) (h : Slant half full sum) (far : sum < -2 ^ 44 + 2 ^ 43) :
    2 ^ 20 ∣ sum := by
  obtain ⟨a, b, ha, hb, hs⟩ := h
  have := half_near low high ha
  have := full_near (by omega) (by omega) hb
  have := (hs.below (k := 21) (by omega)).near
  rcases hs.zones 19 (by omega) with ⟨_, _, _⟩ | ⟨_, _, _, _, -⟩ | ⟨_, _, _, _, -⟩ <;> omega

/-- The cells diagonally beside a cell lie one half step away, also where the half steps go back. -/
theorem Slant.step (low : -605395 ≤ half ∧ -605395 ≤ half') (high : half ≤ 605395 ∧ half' ≤ 605395)
    (bottom : -1210791 ≤ half + 2 * full) (top : half' + 2 * full' ≤ 1210791)
    (move : half' = half + 1 ∧ full' = full ∨ half' = half - 1 ∧ full' = full + 1)
    (h : Slant half full sum) (h' : Slant half' full' sum') :
    12 * 2 ^ 20 ≤ sum' - sum ∧ (sum' - sum < 25 * 2 ^ 19 → 2 ^ 43 ≤ sum ∨ sum' ≤ -2 ^ 43) := by
  obtain ⟨a, b, ha, hb, hs⟩ := h
  obtain ⟨a', b', ha', hb', hs'⟩ := h'
  have := half_near (by omega) (by omega) ha
  have := half_near (by omega) (by omega) ha'
  have := full_near (by omega) (by omega) hb
  have := full_near (by omega) (by omega) hb'
  refine sum_step (by omega) (by omega) ?_ ?_ hs hs'
  all_goals
    rcases move with ⟨rfl, rfl⟩ | ⟨rfl, rfl⟩
    · obtain rfl := hb.unique hb'
      have := half_step low.1 high.2 ha ha'
      omega
    · have := half_step low.2 (by omega) ha' (by rwa [sub_add_cancel])
      have := full_step (by omega) (by omega) hb hb'
      omega

end Slant

section Slanted

variable {sum sum' scaled scaled' place place' : ℤ}

/-- Scaled up to the radius, a half step keeps 72 of its 86 pixels. -/
theorem scaled_step (low : -2 ^ 44 < sum) (high : sum' < 2 ^ 44) (long : 12 * 2 ^ 20 ≤ sum' - sum)
    (h : RoundsTo (100 * sum) scaled) (h' : RoundsTo (100 * sum') scaled') : 72 * 2 ^ 24 ≤ scaled' - scaled := by
  rcases h.zones 25 (by omega) with ⟨_, _, _⟩ | ⟨_, _, _, _, -⟩ | ⟨_, _, _, _, -⟩ <;>
    rcases h'.zones 25 (by omega) with ⟨_, _, _⟩ | ⟨_, _, _, _, -⟩ | ⟨_, _, _, _, -⟩ <;>
    omega

/-- Far out the way back to the origin is rounded to 88 pixels, or to 84 where it crosses `-2 ^ 50` from an odd
place. -/
theorem moved_back (low : -2 ^ 44 < sum) (high : sum < 2 ^ 44) (h : RoundsTo (100 * sum) scaled)
    (far : scaled ≤ -2 ^ 49 ∨ 2 ^ 49 + 88 * 2 ^ 24 ≤ scaled) (back : RoundsTo (scaled - 1452949504) place) :
    place = scaled - 88 * 2 ^ 24 ∨
      place = scaled - 84 * 2 ^ 24 ∧ -2 ^ 50 < scaled ∧ scaled < -2 ^ 50 + 88 * 2 ^ 24 ∧
        scaled % 2 ^ 27 = 2 ^ 26 := by
  rcases h.zones 25 (by omega) with ⟨_, _, _⟩ | ⟨_, _, _, _, -⟩ | ⟨_, _, _, _, -⟩ <;>
    rcases back.zones 25 (by omega) with ⟨_, _, _⟩ | ⟨_, _, _, _, -⟩ | ⟨_, _, _, _, -⟩ <;>
    omega

/-- Near the origin the four roundings of two places are off by six of their 78 pixels at most. -/
theorem moved_back_step (low : -2 ^ 49 - 300 * 2 ^ 24 < 100 * sum) (high : 100 * sum' < 2 ^ 49 + 300 * 2 ^ 24)
    (long : 25 * 2 ^ 19 ≤ sum' - sum) (h : RoundsTo (100 * sum) scaled) (h' : RoundsTo (100 * sum') scaled')
    (back : RoundsTo (scaled - 1452949504) place) (back' : RoundsTo (scaled' - 1452949504) place') :
    72 * 2 ^ 24 ≤ place' - place := by
  rcases h.below_or_zone 25 (by omega) with ⟨_, _, _⟩ | ⟨_, _, _, _, -⟩ <;>
    rcases h'.below_or_zone 25 (by omega) with ⟨_, _, _⟩ | ⟨_, _, _, _, -⟩ <;>
    rcases back.below_or_zone 25 (by omega) with ⟨_, _, _⟩ | ⟨_, _, _, _, -⟩ <;>
    rcases back'.below_or_zone 25 (by omega) with ⟨_, _, _⟩ | ⟨_, _, _, _, -⟩ <;>
    omega

variable {half full half' full' : ℤ} {swapped : Bool}

/-- All roundings of a place together are off by less than 24 pixels, of the 86 of a half step. -/
theorem Slanted.near (low : -605396 ≤ half) (high : half ≤ 605396) (low' : -1210793 ≤ half + 2 * full)
    (high' : half + 2 * full ≤ 1210793) (h : Slanted swapped half full place) :
    -24 * 2 ^ 24 ≤ place - (1452949500 * (half + 2 * full) - if swapped then 1452949504 else 0) ∧
      place - (1452949500 * (half + 2 * full) - if swapped then 1452949504 else 0) ≤ 24 * 2 ^ 24 := by
  obtain ⟨sum, scaled, hs, ht, hp⟩ := h
  have := hs.near low high low' high'
  have := (ht.below (k := 27) (by omega)).near
  cases swapped with
  | false => simp at hp ⊢; omega
  | true =>
    simp at hp ⊢
    have := (hp.below (k := 27) (by omega)).near
    omega

/-- Of all sums around the crossing of `-2 ^ 50` only two are coordinates, and their neighbours lie 76 pixels
away. -/
theorem crossing_step {level : ℤ} (bounds : -2 ^ 44 < sum ∧ sum' < 2 ^ 44)
    (near : sum - 14529495 * level ≤ 5 * 2 ^ 19)
    (near' : -5 * 2 ^ 19 ≤ sum' - 14529495 * (level + 1)) (grid : 2 ^ 20 ∣ sum) (grid' : 2 ^ 20 ∣ sum')
    (long : 12 * 2 ^ 20 ≤ sum' - sum) (h : RoundsTo (100 * sum) scaled) (h' : RoundsTo (100 * sum') scaled')
    (low : -2 ^ 50 < scaled) (high : scaled < -2 ^ 50 + 88 * 2 ^ 24) (odd : scaled % 2 ^ 27 = 2 ^ 26) :
    76 * 2 ^ 24 ≤ scaled' - scaled := by
  have rough := (h.below (k := 27) (by omega)).near
  have rough' := (h'.below (k := 27) (by omega)).near
  by_contra short
  obtain fine | ⟨-, -, -, even, -⟩ := h.below_or_zone 26 (by omega)
  · have step := fine.grid (by omega)
    have fine' := h'.below (k := 26) (by omega)
    have step' := fine'.grid (by omega)
    obtain ⟨c, rfl⟩ := grid
    obtain ⟨d, rfl⟩ := grid'
    have next : d = c + 12 := by
      have := fine.near
      have := fine'.near
      omega
    have only : level = -774906 := by omega
    have few : c = -10737412 ∨ c = -10737411 ∨ c = -10737410 := by omega
    have := fine.near
    have := fine'.near
    omega
  · omega

theorem Slanted.step (low : -605395 ≤ half ∧ -605395 ≤ half') (high : half ≤ 605395 ∧ half' ≤ 605395)
    (bottom : -1210791 ≤ half + 2 * full) (top : half' + 2 * full' ≤ 1210791)
    (move : half' = half + 1 ∧ full' = full ∨ half' = half - 1 ∧ full' = full + 1)
    (h : Slanted swapped half full place) (h' : Slanted swapped half' full' place') :
    72 * 2 ^ 24 ≤ place' - place := by
  obtain ⟨sum, scaled, hs, ht, hp⟩ := h
  obtain ⟨sum', scaled', hs', ht', hp'⟩ := h'
  have near := hs.near (by omega) (by omega) (by omega) (by omega)
  have near' := hs'.near (by omega) (by omega) (by omega) (by omega)
  have level : half' + 2 * full' = half + 2 * full + 1 := by omega
  obtain ⟨long, far⟩ := hs.step low high bottom top move hs'
  have apart := scaled_step (by omega) (by omega) long ht ht'
  cases swapped with
  | false =>
    simp only [Bool.false_eq_true, if_false] at hp hp'
    omega
  | true =>
    simp only [if_true] at hp hp'
    by_cases inner : -2 ^ 49 - 300 * 2 ^ 24 < 100 * sum ∧ 100 * sum' < 2 ^ 49 + 300 * 2 ^ 24
    · exact moved_back_step inner.1 inner.2 (by omega) ht ht' hp hp'
    · have := (ht.below (k := 27) (by omega)).near
      have := (ht'.below (k := 27) (by omega)).near
      rcases moved_back (by omega) (by omega) ht (by omega) hp with back | ⟨back, low, high, odd⟩ <;>
        rcases moved_back (by omega) (by omega) ht' (by omega) hp' with back' | ⟨back', -, -, -⟩
      · omega
      · omega
      · have grid := hs.grid (by omega) (by omega) (by omega) (by omega) (by omega)
        have grid' := hs'.grid (by omega) (by omega) (by omega) (by omega) (by omega)
        have := crossing_step ⟨by omega, by omega⟩ near.2 (level ▸ near'.1) grid grid' long ht ht' low high odd
        omega
      · omega

end Slanted

end HexAtlas
