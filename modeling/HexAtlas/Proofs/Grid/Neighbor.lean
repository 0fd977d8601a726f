import HexAtlas.Proofs.Grid.Stride

namespace HexAtlas.Orientation

variable {o : Orientation} {a : Axial} {d d' : Direction} {m : ℤ × ℤ} {h : Hex}

theorem mem_moves_of_side? (side : o.side? d = some m) : m ∈ moves := by
  rcases o with ⟨_ | _, _⟩ <;> cases d <;> cases side <;> decide

theorem exists_side?_of_mem_moves (o : Orientation) (mem : m ∈ moves) : ∃ d, o.side? d = some m := by
  rcases o with ⟨_ | _, _⟩ <;> simp only [moves, List.mem_cons, List.not_mem_nil, or_false] at mem <;>
    rcases mem with rfl | rfl | rfl | rfl | rfl | rfl
  · exact ⟨.southEast, rfl⟩
  · exact ⟨.south, rfl⟩
  · exact ⟨.southWest, rfl⟩
  · exact ⟨.northWest, rfl⟩
  · exact ⟨.north, rfl⟩
  · exact ⟨.northEast, rfl⟩
  · exact ⟨.east, rfl⟩
  · exact ⟨.southEast, rfl⟩
  · exact ⟨.southWest, rfl⟩
  · exact ⟨.west, rfl⟩
  · exact ⟨.northWest, rfl⟩
  · exact ⟨.northEast, rfl⟩

theorem side?_injective (side : o.side? d = some m) (side' : o.side? d' = some m) : d = d' := by
  rcases o with ⟨_ | _, _⟩ <;> cases d <;> cases side <;> cases d' <;> first | rfl | simp [side?] at side'

theorem side?_opposite (side : o.side? d = some m) : o.side? d.opposite = some (-m) := by
  rcases o with ⟨_ | _, _⟩ <;> cases d <;> cases side <;> rfl

theorem moved_neg (a : Axial) (m : ℤ × ℤ) : (a.moved m).moved (-m) = a := by simp [Axial.moved]

theorem Near.moved {n : ℤ} (near : o.Near n a) (side : o.side? d = some m) : o.Near (n + 1) (a.moved m) := by
  obtain ⟨across, along⟩ := moved_of_side? a side
  obtain ⟨unit, unit'⟩ := parts_of_side? side
  obtain ⟨⟨_, _⟩, _, _⟩ := near
  refine ⟨⟨by omega, by omega⟩, ?_, ?_⟩ <;> split_ifs at along <;> omega

theorem neighbor?_eq (o : Orientation) (a : Axial) (d : Direction) :
    o.neighbor? (o.ofAxial a) d = (moves.find? fun m => aligned (o.unitStep a (a.moved m)) d).map
      fun m => o.ofAxial (a.moved m) := by
  unfold neighbor?
  simp only [toAxial_ofAxial, List.find?_map, Option.map_map]
  rfl

/-- Where the cell beyond a side is near enough too, it is found in the direction of the side. -/
theorem neighbor?_side (near : o.Near 605395 a) (side : o.side? d = some m) (near' : o.Near 605395 (a.moved m)) :
    o.neighbor? (o.ofAxial a) d = some (o.ofAxial (a.moved m)) := by
  rw [neighbor?_eq]
  obtain ⟨u, v, stride, even⟩ := exists_stride side (near.mono (by decide)) (near'.mono (by decide))
  have found : aligned (o.unitStep a (a.moved m)) d := stride.aligned (even near near').1 (even near near').2
  obtain ⟨m', first⟩ : ∃ m', (moves.find? fun m => aligned (o.unitStep a (a.moved m)) d) = some m' :=
    Option.isSome_iff_exists.1 (List.find?_isSome.2 ⟨m, mem_moves_of_side? side, found⟩)
  -- the move found faces the direction, and the other moves face other sides
  obtain ⟨d', side'⟩ := exists_side?_of_mem_moves o (List.mem_of_find?_eq_some first)
  obtain ⟨u', v', stride', -⟩ := exists_stride side' (near.mono (by decide)) (near.moved side')
  have same : d = d' := by
    by_contra other
    have facing := List.find?_some first
    exact stride'.not_aligned other (.inl (by rw [side]; rfl)) facing
  obtain rfl : m = m' := Option.some.inj (side.symm.trans (same ▸ side'))
  rw [first]
  rfl

/-- No cell is found in a direction that no side faces. -/
theorem neighbor?_none (near : o.Near 605394 a) (inward : o.side? d = none) :
    o.neighbor? (o.ofAxial a) d = none := by
  rw [neighbor?_eq, Option.map_eq_none_iff, List.find?_eq_none]
  intro m mem
  obtain ⟨d', side⟩ := exists_side?_of_mem_moves o mem
  have near' := near.moved side
  obtain ⟨u, v, stride, even⟩ := exists_stride side (near.mono (by decide)) (near'.mono (by decide))
  obtain ⟨flat, -⟩ := even (near.mono (by decide)) near'
  refine stride.not_aligned (fun same => ?_) (.inr (by linarith [stride.length.1]))
  rw [← same, inward] at side
  cases side

/-- Every other line of a grid lies half a cell back: up in a vertical one, to the left in a horizontal one. -/
def pushed (o : Orientation) (n : ℤ) : Bool := (n % 2 == 0) == o.swapEvenOdd

/-- The cell beside a cell, from the parity of its line. -/
def beside? (o : Orientation) (h : Hex) (d : Direction) : Option Hex :=
  match o.layout with
  | .vertical =>
    let upper := if o.pushed h.x then h.y - 1 else h.y
    match d with
    | .north => some ⟨h.x, h.y - 1⟩
    | .northEast => some ⟨h.x + 1, upper⟩
    | .southEast => some ⟨h.x + 1, upper + 1⟩
    | .south => some ⟨h.x, h.y + 1⟩
    | .southWest => some ⟨h.x - 1, upper + 1⟩
    | .northWest => some ⟨h.x - 1, upper⟩
    | .east | .west => none
  | .horizontal =>
    let left := if o.pushed h.y then h.x - 1 else h.x
    match d with
    | .northEast => some ⟨left + 1, h.y - 1⟩
    | .east => some ⟨h.x + 1, h.y⟩
    | .southEast => some ⟨left + 1, h.y + 1⟩
    | .southWest => some ⟨left, h.y + 1⟩
    | .west => some ⟨h.x - 1, h.y⟩
    | .northWest => some ⟨left, h.y - 1⟩
    | .north | .south => none

theorem beside?_eq (o : Orientation) (h : Hex) (d : Direction) :
    o.beside? h d = (o.side? d).map fun m => o.ofAxial ((o.toAxial h).moved m) := by
  rcases o with ⟨_ | _, _ | _⟩ <;> cases d <;>
    simp [beside?, side?, pushed, ofAxial, toAxial, shear, Axial.moved] <;> (try split_ifs) <;> omega

/-- What is expected of the neighbours of a cell: they are the cells beside it, in six different directions, and
each has the cell as its neighbour in the opposite direction. -/
structure Surrounded (o : Orientation) (h : Hex) : Prop where
  beside : ∀ d, o.neighbor? h d = o.beside? h d
  across : ∀ d, o.neighbor? h d = none ↔
    match o.layout with
    | .vertical => d = .east ∨ d = .west
    | .horizontal => d = .north ∨ d = .south
  distinct : ∀ d d' h', o.neighbor? h d = some h' → o.neighbor? h d' = some h' → d = d'
  back : ∀ d h', o.neighbor? h d = some h' → o.neighbor? h' d.opposite = some h

/-- A square of cells lies as near to the origin as it reaches. -/
theorem near_toAxial (o : Orientation) {n : ℕ} (x : |h.x| ≤ n) (y : |h.y| ≤ n) : o.Near n (o.toAxial h) := by
  have := abs_le.1 x
  have := abs_le.1 y
  rcases o with ⟨_ | _, _ | _⟩ <;> constructor <;> simp [half, full, toAxial, shear] <;> omega

theorem neighbor?_eq_beside? (near : o.Near 605394 (o.toAxial h)) (d : Direction) :
    o.neighbor? h d = o.beside? h d := by
  rw [beside?_eq]
  conv_lhs => rw [← ofAxial_toAxial o h]
  cases side : o.side? d with
  | none => exact neighbor?_none near side
  | some m => exact neighbor?_side (near.mono (by decide)) side (near.moved side)

theorem surrounded_of_near (near : o.Near 605394 (o.toAxial h)) : o.Surrounded h := by
  have beyond {d : Direction} {h' : Hex} (found : o.neighbor? h d = some h') :
      ∃ m, o.side? d = some m ∧ o.ofAxial ((o.toAxial h).moved m) = h' := by
    rwa [neighbor?_eq_beside? near, beside?_eq, Option.map_eq_some_iff] at found
  refine ⟨neighbor?_eq_beside? near, fun d => ?_, fun d d' h' found found' => ?_, fun d h' found => ?_⟩
  · rw [neighbor?_eq_beside? near, beside?_eq, Option.map_eq_none_iff]
    rcases o with ⟨_ | _, _⟩ <;> cases d <;> simp [side?]
  · obtain ⟨m, side, rfl⟩ := beyond found
    obtain ⟨m', side', same⟩ := beyond found'
    have same := congrArg o.toAxial same
    simp only [toAxial_ofAxial, Axial.moved, Axial.mk.injEq, add_right_inj] at same
    obtain rfl : m' = m := Prod.ext same.1 same.2
    exact side?_injective side side'
  · obtain ⟨m, side, rfl⟩ := beyond found
    have returned :=
      neighbor?_side (near.moved side) (side?_opposite side) (by rw [moved_neg]; exact near.mono (by decide))
    rwa [moved_neg, ofAxial_toAxial] at returned

/-- Each grid has a cell just outside whose neighbour in some direction is not found. -/
theorem exists_not_surrounded (o : Orientation) : ∃ h : Hex, |h.x| ≤ 605395 ∧ |h.y| ≤ 605395 ∧ ¬o.Surrounded h := by
  rcases o with ⟨_ | _, _ | _⟩
  · exact ⟨⟨605353, -605395⟩, by decide, by decide, fun s => absurd (s.beside .northEast) (by decide +kernel)⟩
  · exact ⟨⟨-5, 605395⟩, by decide, by decide, fun s => absurd (s.beside .southWest) (by decide +kernel)⟩
  · exact ⟨⟨-605395, 605353⟩, by decide, by decide, fun s => absurd (s.beside .southWest) (by decide +kernel)⟩
  · exact ⟨⟨605395, -5⟩, by decide, by decide, fun s => absurd (s.beside .northEast) (by decide +kernel)⟩

/-- All cells of a square around the origin have the neighbours expected, exactly if it reaches to 605394 at
most. -/
theorem forall_surrounded_iff (o : Orientation) (n : ℕ) :
    (∀ h : Hex, |h.x| ≤ n → |h.y| ≤ n → o.Surrounded h) ↔ n ≤ 605394 := by
  constructor
  · intro all
    by_contra above
    obtain ⟨h, x, y, not⟩ := exists_not_surrounded o
    exact not (all h (x.trans (by omega)) (y.trans (by omega)))
  · intro bound h x y
    exact surrounded_of_near ((near_toAxial o x y).mono (by exact_mod_cast bound))

/-- Farther out a cell even gets a neighbour in the east of a grid that has none there. -/
theorem not_forall_surrounded :
    ¬∀ (o : Orientation) (h : Hex), |h.x| ≤ 10 ^ 9 → |h.y| ≤ 10 ^ 9 → o.Surrounded h := by
  intro all
  have := (all ⟨.vertical, false⟩ ⟨20000001, 20000000⟩ (by decide) (by decide)).across .east
  exact absurd (this.2 (.inl rfl)) (by decide +kernel)

end HexAtlas.Orientation
