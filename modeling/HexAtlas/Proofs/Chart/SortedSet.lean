import HexAtlas.Chart
import Mathlib.Data.String.Basic

namespace HexAtlas

theorem mem_insertSorted {x y : String} {set : List String} : y ∈ insertSorted x set ↔ y = x ∨ y ∈ set := by
  induction set with
  | nil => simp [insertSorted]
  | cons z rest ih =>
    rw [insertSorted]
    split
    · rw [List.mem_cons]
    · split
      · rename_i same
        subst same
        simp
      · rw [List.mem_cons, ih, List.mem_cons]
        exact or_left_comm

theorem ascending_insertSorted {x : String} {set : List String} (ascending : set.Pairwise (· < ·)) :
    (insertSorted x set).Pairwise (· < ·) := by
  induction set with
  | nil => exact List.pairwise_singleton _ _
  | cons y rest ih =>
    obtain ⟨least, later⟩ := List.pairwise_cons.mp ascending
    rw [insertSorted]
    split
    · rename_i below
      refine List.pairwise_cons.mpr ⟨fun z member => ?_, ascending⟩
      rcases List.mem_cons.mp member with rfl | inside
      · exact below
      · exact lt_trans below (least z inside)
    · rename_i notBelow
      split
      · exact ascending
      · rename_i other
        refine List.pairwise_cons.mpr ⟨fun z member => ?_, ih later⟩
        rcases mem_insertSorted.mp member with rfl | inside
        · exact lt_of_le_of_ne (not_lt.mp notBelow) (Ne.symm other)
        · exact least z inside

theorem mem_sortedSet {xs : List String} {y : String} : y ∈ sortedSet xs ↔ y ∈ xs := by
  have run : ∀ (xs set : List String), y ∈ xs.foldl (fun set x => insertSorted x set) set ↔ y ∈ set ∨ y ∈ xs := by
    intro xs
    induction xs with
    | nil => simp
    | cons x rest ih =>
      intro set
      rw [List.foldl_cons, ih, mem_insertSorted, List.mem_cons, or_comm (a := y = x), or_assoc]
  simpa [sortedSet] using run xs []

theorem ascending_sortedSet (xs : List String) : (sortedSet xs).Pairwise (· < ·) := by
  have run : ∀ (xs set : List String), set.Pairwise (· < ·) →
      (xs.foldl (fun set x => insertSorted x set) set).Pairwise (· < ·) := by
    intro xs
    induction xs with
    | nil => exact fun _ ascending => ascending
    | cons x rest ih => exact fun _ ascending => ih _ (ascending_insertSorted ascending)
  exact run xs [] .nil

theorem nodup_sortedSet (xs : List String) : (sortedSet xs).Nodup :=
  (ascending_sortedSet xs).imp fun below => ne_of_lt below

/-- A sorted set is known by its members. -/
theorem sortedSet_ext {xs ys : List String} (same : ∀ x, x ∈ sortedSet xs ↔ x ∈ sortedSet ys) :
    sortedSet xs = sortedSet ys :=
  ((List.perm_ext_iff_of_nodup (nodup_sortedSet xs) (nodup_sortedSet ys)).mpr same).eq_of_pairwise
    (fun _ _ _ _ below above => absurd above below.not_gt) (ascending_sortedSet xs) (ascending_sortedSet ys)

end HexAtlas
