import HexAtlas.Proofs.Line.RegionLayout
import HexAtlas.Proofs.Text.Bytes

namespace HexAtlas

/-- Quotes stand in pairs only, with nothing between the two of a pair. -/
inductive EmptyQuoted : List Char → Prop
  | plain {cs : List Char} (free : '"' ∉ cs) : EmptyQuoted cs
  | pair {front rest : List Char} (free : '"' ∉ front) (later : EmptyQuoted rest) :
    EmptyQuoted (front ++ '"' :: '"' :: rest)

/-- Behind pairs of quotes with nothing between, one quote may be left over. -/
def LabelFree (cs : List Char) : Prop :=
  EmptyQuoted cs ∨ ∃ front back, cs = front ++ '"' :: back ∧ EmptyQuoted front ∧ '"' ∉ back

theorem LabelFree.pair {front rest : List Char} (free : '"' ∉ front) (h : LabelFree rest) :
    LabelFree (front ++ '"' :: '"' :: rest) := by
  rcases h with paired | ⟨inner, back, rfl, paired, alone⟩
  · exact Or.inl (.pair free paired)
  · exact Or.inr ⟨front ++ '"' :: '"' :: inner, back, by simp, .pair free paired, alone⟩

theorem findLabel?_of_alone {front back : List Char} (free : '"' ∉ front) (alone : '"' ∉ back) :
    findLabel? (front ++ '"' :: back) = none := by
  unfold findLabel?
  rw [cutAt?_append free]
  simp only
  split
  · rfl
  all_goals
    rename_i closed
    rw [cutAt?_eq_none alone] at closed
    cases closed

/-- Empty quotes are no label. What stands behind them is searched on its own. -/
theorem findLabel?_pair {front : List Char} (free : '"' ∉ front) (rest : List Char) :
    findLabel? (front ++ '"' :: '"' :: rest) =
      (findLabel? rest).map fun found => { found with before := front ++ '"' :: '"' :: found.before } := by
  have closed : cutAt? '"' ('"' :: rest) = some ([], rest) := cutAt?_append List.not_mem_nil rest
  conv => lhs; unfold findLabel?
  rw [cutAt?_append free]
  simp only
  split
  · rename_i unclosed
    rw [closed] at unclosed
    cases unclosed
  · rename_i empty
    rw [closed] at empty
    cases empty
    rfl
  · rename_i filled same
    rw [closed] at same
    cases same
    exact absurd rfl filled

theorem EmptyQuoted.findLabel?_append {front : List Char} (h : EmptyQuoted front) {back : List Char}
    (free : '"' ∉ back) : findLabel? front = none ∧ findLabel? (front ++ '"' :: back) = none := by
  induction h with
  | plain outside => exact ⟨findLabel?_of_not_mem outside, findLabel?_of_alone outside free⟩
  | @pair front rest outside _ ih =>
    have inner := findLabel?_pair outside (rest ++ '"' :: back)
    rw [ih.2, Option.map_none] at inner
    refine ⟨by rw [findLabel?_pair outside, ih.1, Option.map_none], ?_⟩
    rw [List.append_assoc, List.cons_append, List.cons_append, inner]

/-- No label is found exactly if there is none. -/
theorem findLabel?_eq_none_iff {cs : List Char} : findLabel? cs = none ↔ LabelFree cs := by
  constructor
  · intro missing
    fun_induction findLabel? cs with
    | case1 cs uncut => exact Or.inl (.plain (cutAt?_eq_none_iff.mp uncut))
    | case2 cs before quoted cut unclosed =>
      obtain ⟨rfl, free⟩ := cutAt?_eq_some_iff.mp cut
      exact Or.inr ⟨before, quoted, rfl, .plain free, cutAt?_eq_none_iff.mp unclosed⟩
    | case3 cs before quoted cut after close ih =>
      obtain ⟨rfl, free⟩ := cutAt?_eq_some_iff.mp cut
      obtain ⟨rfl, -⟩ := cutAt?_eq_some_iff.mp close
      exact .pair free (ih (Option.map_eq_none_iff.mp missing))
    | case4 => cases missing
    | case5 => cases missing
  · rintro (paired | ⟨front, back, rfl, paired, alone⟩)
    · exact (paired.findLabel?_append List.not_mem_nil).1
    · exact (paired.findLabel?_append alone).2

/-- What may stand behind the second quote of a label and belongs to it: a size with the blanks before it. -/
inductive IsSizeTail : Option (List Char) → List Char → Prop
  | none : IsSizeTail none []
  | size {gap token : List Char} (blank : ∀ c ∈ gap, isBlank c = true) (isSize : isSize token = true) :
    IsSizeTail (some token) (gap ++ token)

theorem IsSizeTail.not_mem {size : Option (List Char)} {tail : List Char} (h : IsSizeTail size tail) :
    '"' ∉ tail := by
  cases h with
  | none => exact List.not_mem_nil
  | size blank isSize =>
    intro member
    rcases List.mem_append.mp member with space | sign
    · exact absurd (blank _ space) (by decide)
    · exact quote_not_mem_of_isSize isSize sign

/-- A label in its place: the first text in quotes that is not empty, with the quotes and the size that it has. -/
structure LabelFound.IsCut (found : LabelFound) (cs cut : List Char) : Prop where
  parts : cs = found.before ++ (cut ++ found.after)
  quoted : ∃ tail, cut = '"' :: (found.text ++ '"' :: tail) ∧ IsSizeTail found.size tail
  filled : found.text ≠ []
  unquoted : '"' ∉ found.text
  first : EmptyQuoted found.before

theorem LabelFound.exists_isCut {cs : List Char} {found : LabelFound} (h : findLabel? cs = some found) :
    ∃ cut, found.IsCut cs cut := by
  fun_induction findLabel? cs generalizing found with
  | case1 | case2 => cases h
  | case3 cs before quoted cut after close ih =>
    obtain ⟨inner, atInner, rfl⟩ := Option.map_eq_some_iff.mp h
    obtain ⟨piece, place⟩ := ih atInner
    obtain ⟨rfl, free⟩ := cutAt?_eq_some_iff.mp cut
    obtain ⟨rfl, -⟩ := cutAt?_eq_some_iff.mp close
    refine ⟨piece, ?_, place.quoted, place.filled, place.unquoted, .pair free place.first⟩
    conv => lhs; rw [place.parts]
    simp
  | case4 cs before quoted cut text after filled close token rest split isSize =>
    cases h
    obtain ⟨rfl, outside⟩ := cutAt?_eq_some_iff.mp cut
    obtain ⟨rfl, inside⟩ := cutAt?_eq_some_iff.mp close
    have gap : ∀ c ∈ after.takeWhile isBlank, isBlank c = true := List.all_eq_true.mp List.all_takeWhile
    have behind : (word (trimStart after)).1 ++ (word (trimStart after)).2 = trimStart after :=
      List.takeWhile_append_dropWhile
    have whole : after.takeWhile isBlank ++ (token ++ rest) = after := by
      rw [split] at behind
      rw [behind]
      exact List.takeWhile_append_dropWhile
    refine ⟨_, ?_, ⟨_, rfl, .size gap isSize⟩, filled, inside, .plain outside⟩
    conv => lhs; rw [← whole]
    simp
  | case5 cs before quoted cut text after filled close token rest split other =>
    cases h
    obtain ⟨rfl, outside⟩ := cutAt?_eq_some_iff.mp cut
    obtain ⟨rfl, inside⟩ := cutAt?_eq_some_iff.mp close
    exact ⟨_, by simp, ⟨[], rfl, .none⟩, filled, inside, .plain outside⟩

namespace LabelFound

/-- The text with a blank in the place of the label. -/
def remainder (found : LabelFound) : List Char := found.before ++ ' ' :: found.after

variable {found : LabelFound} {cs cut : List Char}

theorem IsCut.isSlice (h : found.IsCut cs cut) :
    IsSlice cs (byteCount found.before) (byteCount found.before + byteCount cut) cut := by
  rw [h.parts]
  exact isSlice_append _ _ _

theorem IsCut.byteCount_pos (h : found.IsCut cs cut) : 0 < byteCount cut := by
  obtain ⟨tail, rfl, -⟩ := h.quoted
  exact HexAtlas.byteCount_pos (List.cons_ne_nil _ _)

/-- A label takes its own two quotes out of the text and no other one. -/
theorem IsCut.count_remainder (h : found.IsCut cs cut) : found.remainder.count '"' + 2 = cs.count '"' := by
  obtain ⟨tail, rfl, sized⟩ := h.quoted
  rw [h.parts]
  simp [remainder, List.count_append, List.count_eq_zero_of_not_mem h.unquoted,
    List.count_eq_zero_of_not_mem sized.not_mem]
  omega

end LabelFound

/-- One label is found in a text, and a blank takes its place. -/
def LosesLabel (cs next : List Char) : Prop := ∃ found, findLabel? cs = some found ∧ next = found.remainder

theorem LosesLabel.count_lt {cs next : List Char} (h : LosesLabel cs next) : next.count '"' < cs.count '"' := by
  obtain ⟨found, here, rfl⟩ := h
  obtain ⟨cut, place⟩ := LabelFound.exists_isCut here
  have := place.count_remainder
  omega

/-- Labels cannot be taken out of a text without end. -/
theorem wellFounded_losesLabel : WellFounded fun next cs => LosesLabel cs next :=
  Subrelation.wf (fun h => LosesLabel.count_lt h) (measure fun cs : List Char => cs.count '"').wf

/-- The labels that are found one after the other, each in what the earlier ones leave, and what is left in the
end. -/
inductive Labels : List Char → List LabelFound → List Char → Prop
  | none {cs : List Char} (missing : findLabel? cs = none) : Labels cs [] cs
  | cons {cs left : List Char} {found : LabelFound} {more : List LabelFound} (first : findLabel? cs = some found)
    (later : Labels found.remainder more left) : Labels cs (found :: more) left

theorem exists_labels (cs : List Char) : ∃ founds left, Labels cs founds left := by
  induction cs using wellFounded_losesLabel.induction with
  | h cs ih =>
    cases here : findLabel? cs with
    | none => exact ⟨[], cs, .none here⟩
    | some found =>
      obtain ⟨founds, left, later⟩ := ih found.remainder ⟨found, here, rfl⟩
      exact ⟨found :: founds, left, .cons here later⟩

namespace Labels

variable {cs left : List Char} {founds : List LabelFound}

theorem labelFree (h : Labels cs founds left) : LabelFree left := by
  induction h with
  | none missing => exact findLabel?_eq_none_iff.mp missing
  | cons _ _ ih => exact ih

theorem count (h : Labels cs founds left) : left.count '"' + 2 * founds.length = cs.count '"' := by
  induction h with
  | none => rfl
  | cons first _ ih =>
    obtain ⟨cut, place⟩ := LabelFound.exists_isCut first
    have := place.count_remainder
    rw [List.length_cons]
    omega

/-- The reader takes the labels of a text out and keeps the last of them. -/
theorem takeLabels (h : Labels cs founds left) (last : Option (List Char × Option (List Char))) :
    HexAtlas.takeLabels last cs = ((founds.getLast?.map fun found => (found.text, found.size)).or last, left) := by
  induction h generalizing last with
  | none missing => exact takeLabels_of_none missing last
  | @cons _ _ found more first _ ih =>
    rw [takeLabels_cons first, ← LabelFound.remainder, ih, List.getLast?_cons]
    cases more.getLast? <;> rfl

end Labels

/-- The search for labels ends on every text, and so does taking them out: a label that is found is a filled text in
quotes, cut out between boundaries of characters, and takes two quotes along; the labels found one after the other
are as many as pairs of quotes that went, the last of them is kept, and what is left has pairs of quotes with
nothing between and at most one quote behind these. -/
theorem exists_labels_labelFree (cs : List Char) :
    (∀ found, findLabel? cs = some found → ∃ cut, found.IsCut cs cut ∧ 0 < byteCount cut ∧
      IsSlice cs (byteCount found.before) (byteCount found.before + byteCount cut) cut ∧
        found.remainder.count '"' + 2 = cs.count '"') ∧
      (findLabel? cs = none ↔ LabelFree cs) ∧
      (WellFounded fun next cs => LosesLabel cs next) ∧
      ∃ founds left, Labels cs founds left ∧ LabelFree left ∧ left.count '"' + 2 * founds.length = cs.count '"' ∧
        ∀ last, takeLabels last cs =
          ((founds.getLast?.map fun found => (found.text, found.size)).or last, left) := by
  obtain ⟨founds, left, taken⟩ := exists_labels cs
  refine ⟨fun found here => ?_, findLabel?_eq_none_iff, wellFounded_losesLabel,
    founds, left, taken, taken.labelFree, taken.count, taken.takeLabels⟩
  obtain ⟨cut, place⟩ := LabelFound.exists_isCut here
  exact ⟨cut, place, place.byteCount_pos, place.isSlice, place.count_remainder⟩

/-- Empty quotes stay, a label goes with its size, and a quote that nothing closes stays alone. -/
example : takeLabels none "\"\" a \"é\" 1.5em \"".toList =
    (some ("é".toList, some "1.5em".toList), "\"\" a   \"".toList) := by
  decide +kernel

end HexAtlas
