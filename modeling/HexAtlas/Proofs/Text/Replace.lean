import HexAtlas.Options
import HexAtlas.Proofs.Text.Cut
import Mathlib.Data.List.Basic

namespace HexAtlas

variable {part new cs : List Char}

theorem replaceAll_of_split {before after : List Char} (filled : part ≠ [])
    (h : splitAt? part cs = some (before, after)) :
    replaceAll part new cs = before ++ new ++ replaceAll part new after := by
  rw [replaceAll, dif_neg filled]
  split
  · rename_i unsplit
    rw [h] at unsplit
    cases unsplit
  · rename_i found
    rw [h] at found
    cases found
    rfl

theorem replaceAll_eq_self (free : ¬ part <:+: cs) : replaceAll part new cs = cs := by
  have filled : part ≠ [] := fun empty => free (empty ▸ List.nil_infix)
  rw [replaceAll, dif_neg filled]
  split
  · rfl
  · rename_i found
    rw [splitAt?_eq_none_iff.mpr free] at found
    cases found

theorem replaceAll_nil (filled : part ≠ []) : replaceAll part new [] = [] :=
  replaceAll_eq_self fun inside => filled (List.infix_nil.mp inside)

/-- The part is replaced where it stands. -/
theorem replaceAll_start (filled : part ≠ []) (rest : List Char) :
    replaceAll part new (part ++ rest) = new ++ replaceAll part new rest := by
  obtain ⟨c, more, rfl⟩ := List.exists_cons_of_ne_nil filled
  have start := afterStart?_append (c :: more) rest
  have found : splitAt? (c :: more) (c :: more ++ rest) = some ([], rest) := by
    rw [List.cons_append] at start ⊢
    rw [splitAt?, start]
  rw [replaceAll_of_split filled found, List.nil_append]

/-- A character is kept where the part does not stand. -/
theorem replaceAll_cons {c : Char} (filled : part ≠ []) (other : ¬ part <+: c :: cs) :
    replaceAll part new (c :: cs) = c :: replaceAll part new cs := by
  cases split : splitAt? part cs with
  | none =>
    have free := splitAt?_eq_none_iff.mp split
    have free' : ¬ part <:+: c :: cs := fun inside => (List.infix_cons_iff.mp inside).elim other free
    rw [replaceAll_eq_self free', replaceAll_eq_self free]
  | some found =>
    obtain ⟨before, after⟩ := found
    have found : splitAt? part (c :: cs) = some (c :: before, after) := by
      rw [splitAt?, afterStart?_eq_none_iff.mpr other, split]
      rfl
    rw [replaceAll_of_split filled found, replaceAll_of_split filled split]
    rfl

/-- Text that does not hold the first character of the part is kept. -/
theorem replaceAll_append {c : Char} {front : List Char} (first : part.head? = some c) (free : c ∉ front)
    (rest : List Char) : replaceAll part new (front ++ rest) = front ++ replaceAll part new rest := by
  obtain ⟨more, rfl⟩ := List.head?_eq_some_iff.mp first
  induction front with
  | nil => rfl
  | cons d others ih =>
    have other : ¬ c :: more <+: d :: (others ++ rest) :=
      fun start => free ((List.cons_prefix_cons.mp start).1 ▸ List.mem_cons_self)
    have later := ih fun member => free (List.mem_cons_of_mem d member)
    rw [List.cons_append, replaceAll_cons (List.cons_ne_nil _ _) other, later, List.cons_append]

/-- What the result starts with has been there before, unless it was put in. -/
theorem prefix_of_prefix_replaceAll {start : List Char} (filled : part ≠ []) (given : new ≠ [])
    (free : ∀ c ∈ start, c ∉ new) (h : start <+: replaceAll part new cs) : start <+: cs := by
  induction start generalizing cs with
  | nil => exact List.nil_prefix
  | cons s more ih =>
    obtain ⟨here, later⟩ := List.forall_mem_cons.mp free
    by_cases there : part <+: cs
    · obtain ⟨rest, rfl⟩ := there
      obtain ⟨n, others, rfl⟩ := List.exists_cons_of_ne_nil given
      rw [replaceAll_start filled, List.cons_append] at h
      obtain ⟨rfl, -⟩ := List.cons_prefix_cons.mp h
      exact absurd List.mem_cons_self here
    · cases cs with
      | nil =>
        rw [replaceAll_nil filled] at h
        exact h
      | cons c rest =>
        rw [replaceAll_cons filled there] at h
        obtain ⟨rfl, behind⟩ := List.cons_prefix_cons.mp h
        exact List.cons_prefix_cons.mpr ⟨rfl, ih later behind⟩

/-- Replacing a single character replaces each character on its own. -/
theorem replaceAll_singleton (mark : Char) (new cs : List Char) :
    replaceAll [mark] new cs = cs.flatMap fun c => if c = mark then new else [c] := by
  have filled : [mark] ≠ [] := List.cons_ne_nil _ _
  induction cs with
  | nil => exact replaceAll_nil filled
  | cons c rest ih =>
    rw [List.flatMap_cons, ← ih]
    by_cases same : c = mark
    · subst same
      rw [if_pos rfl]
      exact replaceAll_start filled rest
    · have other : ¬ [mark] <+: c :: rest := fun start => same (List.cons_prefix_cons.mp start).1.symm
      rw [if_neg same, replaceAll_cons filled other]
      rfl

/-- Passes that each replace one character, one after the other, work on each character of the text on its own. -/
theorem foldl_replaceAll_eq_flatMap (marks : List (Char × List Char)) (cs : List Char) :
    marks.foldl (fun text (mark, new) => replaceAll [mark] new text) cs =
      cs.flatMap fun c => marks.foldl (fun text (mark, new) => replaceAll [mark] new text) [c] := by
  induction marks generalizing cs with
  | nil => exact (List.flatMap_singleton' cs).symm
  | cons entry rest ih =>
    simp only [List.foldl_cons]
    rw [ih, replaceAll_singleton, List.flatMap_assoc]
    refine List.flatMap_congr fun c _ => ?_
    rw [ih (replaceAll _ _ [c]), replaceAll_singleton, List.flatMap_singleton]

end HexAtlas
