import HexAtlas.Markup.NameScope
import HexAtlas.Proofs.Text.Cut

namespace HexAtlas

/-- A text starts with a visible character other than `<`, so blanks before it stay. -/
def KeepsBlanks (cs : List Char) : Prop := ∃ c rest, cs = c :: rest ∧ isBlank c = false ∧ c ≠ '<'

theorem joinTags_nil : joinTags [] = [] := by
  rw [joinTags]

theorem joinTags_cons {c : Char} {rest : List Char} (h : ¬(c = '>' ∧ (trimStart rest).head? = some '<')) :
    joinTags (c :: rest) = c :: joinTags rest := by
  rw [joinTags]
  simp [h]

theorem joinTags_cons_of_ne {c : Char} (h : c ≠ '>') (rest : List Char) :
    joinTags (c :: rest) = c :: joinTags rest :=
  joinTags_cons fun both => h both.1

theorem joinTags_close {rest : List Char} (h : (trimStart rest).head? = some '<') :
    joinTags ('>' :: rest) = '>' :: joinTags (trimStart rest) := by
  rw [joinTags]
  simp [h]

/-- Joining tags goes on behind the blanks that it takes out, and at the next character otherwise. -/
@[elab_as_elim]
theorem joinTags_induct {motive : List Char → Prop} (nil : motive [])
    (join : ∀ rest, (trimStart rest).head? = some '<' → motive (trimStart rest) → motive ('>' :: rest))
    (keep : ∀ c rest, ¬(c = '>' ∧ (trimStart rest).head? = some '<') → motive rest → motive (c :: rest))
    (cs : List Char) : motive cs := by
  fun_induction joinTags cs with
  | case1 => exact nil
  | case2 c rest inner tags ih =>
    obtain ⟨rfl, ahead⟩ : c = '>' ∧ inner.head? = some '<' := by simpa using tags
    exact join rest ahead ih
  | case3 c rest inner tags ih => exact keep c rest (by simpa using tags) ih

theorem exists_joinTags_cons (c : Char) (rest : List Char) : ∃ tail, joinTags (c :: rest) = c :: tail := by
  by_cases h : c = '>' ∧ (trimStart rest).head? = some '<'
  · obtain ⟨rfl, inner⟩ := h
    exact ⟨_, joinTags_close inner⟩
  · exact ⟨_, joinTags_cons h⟩

theorem head?_joinTags (cs : List Char) : (joinTags cs).head? = cs.head? := by
  cases cs with
  | nil => rw [joinTags_nil]
  | cons c rest =>
    obtain ⟨tail, shape⟩ := exists_joinTags_cons c rest
    rw [shape]
    rfl

theorem joinTags_append_of_not_mem {front : List Char} (h : '>' ∉ front) (cs : List Char) :
    joinTags (front ++ cs) = front ++ joinTags cs := by
  induction front with
  | nil => rfl
  | cons c more ih =>
    have other : c ≠ '>' := fun same => h (same ▸ List.mem_cons_self)
    rw [List.cons_append, joinTags_cons_of_ne other, ih fun member => h (List.mem_cons_of_mem c member)]
    rfl

theorem joinTags_sublist (cs : List Char) : (joinTags cs).Sublist cs := by
  induction cs using joinTags_induct with
  | nil => exact List.sublist_nil.mpr joinTags_nil
  | join rest ahead ih =>
    rw [joinTags_close ahead]
    exact (ih.trans (List.dropWhile_suffix _).sublist).cons_cons '>'
  | keep c rest apart ih =>
    rw [joinTags_cons apart]
    exact ih.cons_cons c

theorem trimStart_append_keeps {after : List Char} (h : KeepsBlanks after) (cs : List Char) :
    trimStart (cs ++ after) = trimStart cs ++ after := by
  obtain ⟨c, rest, rfl, visible, _⟩ := h
  simp only [trimStart, List.dropWhile_append]
  split
  · rename_i empty
    rw [List.isEmpty_iff.mp empty, List.nil_append]
    exact List.dropWhile_cons_of_neg (by simp [visible])
  · rfl

/-- Joining tags does not reach over a visible character that starts no tag. -/
theorem joinTags_append {after : List Char} (h : KeepsBlanks after) (cs : List Char) :
    joinTags (cs ++ after) = joinTags cs ++ joinTags after := by
  have head : after.head? ≠ some '<' := by
    obtain ⟨c, rest, rfl, _, other⟩ := h
    exact fun same => other (Option.some.inj same)
  induction cs using joinTags_induct with
  | nil => rw [joinTags_nil, List.nil_append, List.nil_append]
  | join rest opens ih =>
    have tag : (trimStart (rest ++ after)).head? = some '<' := by
      rw [trimStart_append_keeps h, List.head?_append, opens]
      rfl
    rw [List.cons_append, joinTags_close tag, joinTags_close opens, trimStart_append_keeps h, ih]
    rfl
  | keep c rest apart ih =>
    have apart' : ¬(c = '>' ∧ (trimStart (rest ++ after)).head? = some '<') := by
      rintro ⟨rfl, tag⟩
      rw [trimStart_append_keeps h, List.head?_append] at tag
      -- A tag that begins behind the cut would begin with the first character of `after`.
      cases front : (trimStart rest).head? with
      | none => rw [front] at tag; exact head tag
      | some d =>
        rw [front] at tag
        exact apart ⟨rfl, front.trans tag⟩
    rw [List.cons_append, joinTags_cons apart', joinTags_cons apart, ih]
    rfl

end HexAtlas
