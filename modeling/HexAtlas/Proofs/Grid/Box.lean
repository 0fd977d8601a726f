import HexAtlas.Grid.Orientation
import HexAtlas.Proofs.Binary.Extremes

namespace HexAtlas

/-- No coordinate is a negative zero. -/
structure Point.Plain (p : Point) : Prop where
  x : ¬p.x.IsMinusZero
  y : ¬p.y.IsMinusZero

namespace Bounds

theorem foldl_add (points : List Point) (b : Bounds) :
    points.foldl add b = ⟨(points.map (·.x)).foldl Binary.min b.minX, (points.map (·.y)).foldl Binary.min b.minY,
      (points.map (·.x)).foldl Binary.max b.maxX, (points.map (·.y)).foldl Binary.max b.maxY⟩ := by
  induction points generalizing b with
  | nil => rfl
  | cons p rest ih => exact ih (b.add p)

theorem around?_eq_of_mem_iff {points points' : List Point} (plain : ∀ p ∈ points, p.Plain)
    (same : ∀ p, p ∈ points ↔ p ∈ points') : around? points = around? points' := by
  have least := Binary.chooses_min NumberFormat.roomy_double
  have greatest := Binary.chooses_max NumberFormat.roomy_double
  match points, points', same with
  | [], [], _ => rfl
  | [], p :: rest, same => exact absurd ((same p).mpr List.mem_cons_self) List.not_mem_nil
  | p :: rest, [], same => exact absurd ((same p).mp List.mem_cons_self) List.not_mem_nil
  | p :: rest, p' :: rest', same =>
    -- the coordinates on one axis are the same numbers, and all of them plain
    have axis (coordinate : Point → Double) :
        ∀ v, v ∈ coordinate p :: rest.map coordinate ↔ v ∈ coordinate p' :: rest'.map coordinate := by
      intro v
      rw [← List.map_cons, ← List.map_cons, List.mem_map, List.mem_map]
      simp only [same]
    have plainX : ∀ v ∈ (p :: rest).map (·.x), ¬v.IsMinusZero :=
      List.forall_mem_map.mpr fun point member => (plain point member).x
    have plainY : ∀ v ∈ (p :: rest).map (·.y), ¬v.IsMinusZero :=
      List.forall_mem_map.mpr fun point member => (plain point member).y
    rw [around?, around?, foldl_add, foldl_add]
    simp only [ofPoint]
    rw [least.foldl_eq_of_mem_iff plainX (axis (·.x)), least.foldl_eq_of_mem_iff plainY (axis (·.y)),
      greatest.foldl_eq_of_mem_iff plainX (axis (·.x)), greatest.foldl_eq_of_mem_iff plainY (axis (·.y))]

end Bounds

namespace Orientation

/-- A settled coordinate ends in the sum with a positive zero. -/
theorem not_isMinusZero_settle (v : Single) : ¬(settle v).IsMinusZero :=
  Binary.not_isMinusZero_add NumberFormat.roomy_double
    (.inr (Binary.not_isMinusZero_of_negative (by decide +kernel)))

theorem plain_corner (o : Orientation) (h : Hex) (c : Point) : ((o.pixels h).offset c.x c.y).Plain where
  x := Binary.not_isMinusZero_add NumberFormat.roomy_double (.inl (not_isMinusZero_settle _))
  y := Binary.not_isMinusZero_add NumberFormat.roomy_double (.inl (not_isMinusZero_settle _))

/-- The rectangle around some cells depends on the set of them. -/
theorem viewbox?_eq_of_mem_iff (o : Orientation) {cells cells' : List Hex} (same : ∀ h, h ∈ cells ↔ h ∈ cells') :
    o.viewbox? cells = o.viewbox? cells' := by
  refine Bounds.around?_eq_of_mem_iff (fun p member => ?_) fun p => ?_
  · obtain ⟨h, -, corner⟩ := List.mem_flatMap.mp member
    obtain ⟨c, -, rfl⟩ := List.mem_map.mp corner
    exact o.plain_corner h c
  · simp only [List.mem_flatMap, same]

end Orientation

end HexAtlas
