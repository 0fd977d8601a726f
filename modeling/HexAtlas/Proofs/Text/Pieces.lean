import HexAtlas.Text.Split
import Mathlib.Data.List.Basic

namespace HexAtlas

theorem splitAll_ne_nil (c : Char) (cs : List Char) : splitAll c cs ≠ [] := by
  induction cs with
  | nil => exact List.cons_ne_nil _ _
  | cons d rest ih =>
    unfold splitAll
    split
    · exact List.cons_ne_nil _ _
    · split <;> exact List.cons_ne_nil _ _

/-- The first piece goes on with a character that is no mark. -/
theorem splitAll_cons_of_ne {c d : Char} (other : d ≠ c) {cs piece : List Char} {more : List (List Char)}
    (h : splitAll c cs = piece :: more) : splitAll c (d :: cs) = (d :: piece) :: more := by
  rw [splitAll, if_neg other, h]

theorem splitAll_of_not_mem {c : Char} {cs : List Char} (free : c ∉ cs) : splitAll c cs = [cs] := by
  induction cs with
  | nil => rfl
  | cons d rest ih =>
    have other : d ≠ c := fun same => free (same ▸ List.mem_cons_self)
    exact splitAll_cons_of_ne other (ih fun member => free (List.mem_cons_of_mem d member))

/-- A mark sets the pieces before it apart from those after it. -/
theorem splitAll_append_cons (c : Char) (cs rest : List Char) :
    splitAll c (cs ++ c :: rest) = splitAll c cs ++ splitAll c rest := by
  induction cs with
  | nil => simp [splitAll]
  | cons d more ih =>
    by_cases mark : d = c
    · simp [splitAll, mark, ih]
    · obtain ⟨piece, others, split⟩ := List.exists_cons_of_ne_nil (splitAll_ne_nil c more)
      rw [split] at ih
      rw [List.cons_append, splitAll_cons_of_ne mark ih, splitAll_cons_of_ne mark split]
      rfl

theorem not_mem_of_mem_splitAll {c : Char} {cs piece : List Char} (h : piece ∈ splitAll c cs) : c ∉ piece := by
  induction cs generalizing piece with
  | nil =>
    rw [List.mem_singleton.mp h]
    exact List.not_mem_nil
  | cons d rest ih =>
    obtain ⟨first, others, split⟩ := List.exists_cons_of_ne_nil (splitAll_ne_nil c rest)
    by_cases mark : d = c
    · rw [splitAll, if_pos mark] at h
      rcases List.mem_cons.mp h with rfl | later
      · exact List.not_mem_nil
      · exact ih later
    · rw [splitAll_cons_of_ne mark split] at h
      rcases List.mem_cons.mp h with rfl | later
      · intro member
        rcases List.mem_cons.mp member with same | inside
        · exact mark same.symm
        · exact ih (split ▸ List.mem_cons_self) inside
      · exact ih (split ▸ List.mem_cons_of_mem first later)

theorem splitAll_intercalate {c : Char} {pieces : List (List Char)} (nonempty : pieces ≠ [])
    (free : ∀ piece ∈ pieces, c ∉ piece) : splitAll c ([c].intercalate pieces) = pieces := by
  induction pieces with
  | nil => exact absurd rfl nonempty
  | cons piece rest ih =>
    have first := splitAll_of_not_mem (free piece List.mem_cons_self)
    cases rest with
    | nil => rw [List.intercalate_singleton, first]
    | cons next more =>
      have later := ih (List.cons_ne_nil _ _) fun other member => free other (List.mem_cons_of_mem piece member)
      rw [List.intercalate_cons_cons, List.append_assoc, List.singleton_append, splitAll_append_cons, first, later]
      rfl

theorem intercalate_splitAll (c : Char) (cs : List Char) : [c].intercalate (splitAll c cs) = cs := by
  induction cs with
  | nil => rfl
  | cons d rest ih =>
    obtain ⟨piece, others, split⟩ := List.exists_cons_of_ne_nil (splitAll_ne_nil c rest)
    by_cases mark : d = c
    · rw [splitAll, if_pos mark, split, List.intercalate_cons_cons, ← split, ih, mark]
      rfl
    · rw [splitAll_cons_of_ne mark split]
      rw [split] at ih
      cases others with
      | nil =>
        rw [List.intercalate_singleton] at ih ⊢
        rw [ih]
      | cons next more =>
        rw [List.intercalate_cons_cons] at ih ⊢
        rw [← ih]
        rfl

end HexAtlas
