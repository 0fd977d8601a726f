import HexAtlas.Line
import HexAtlas.Proofs.Line.Step

namespace HexAtlas

/-- The words behind the start cell of a line that are part of neither a label nor a label's size. -/
def openWords (line : List Char) : List (List Char) := words (takeLabels none (line.drop 4)).2

/-- A word of the line is a step. -/
def HasOpenStep (line : List Char) : Prop := ∃ token ∈ openWords line, (Step.parse? token).isSome = true

/-- A start cell is read in the same way by both shapes. -/
theorem Hex.twoDigits_of_parse?_take {line : List Char} {cell : Hex} (h : Hex.parse? (line.take 4) = some cell) :
    ∃ x y row, twoDigits? line = some (x, row) ∧ twoDigits? row = some (y, line.drop 4) ∧ cell = ⟨x, y⟩ := by
  obtain ⟨x, y, row, column, digits, rfl⟩ := Hex.parse?_eq_some_iff.mp h
  obtain ⟨a, b, front, digitA, digitB, rfl⟩ := twoDigits?_eq_some_iff.mp column
  obtain ⟨c, d, rfl, digitC, digitD, rfl⟩ := twoDigits?_eq_some_iff.mp digits
  have shape : line = a :: b :: c :: d :: line.drop 4 := by
    conv => lhs; rw [← List.take_append_drop 4 line, front]
    rfl
  refine ⟨_, _, c :: d :: line.drop 4, twoDigits?_eq_some_iff.mpr ⟨a, b, shape, digitA, digitB, rfl⟩,
    twoDigits?_eq_some_iff.mpr ⟨c, d, rfl, digitC, digitD, rfl⟩, rfl⟩

/-- The start of a path line is followed by a dash or by a blank. -/
theorem PathLine.start_of_parse? {line : List Char} {path : PathLine} (h : PathLine.parse? line = some path) :
    Hex.parse? (line.take 4) = some path.start ∧
      ((line.drop 4).head? = some '-' ∨ startsBlank (line.drop 4) = true) := by
  unfold PathLine.parse? at h
  obtain ⟨start, cell, h⟩ := Option.bind_eq_some_iff.mp h
  obtain ⟨⟨chain, tail⟩, chained, h⟩ := Option.bind_eq_some_iff.mp h
  simp only at h
  split at h
  · cases h
  · rename_i header
    split at h
    · cases h
    · cases h
      refine ⟨cell, ?_⟩
      unfold chained? at chained
      split at chained
      · rename_i after dash
        exact Or.inl (by rw [dash]; rfl)
      · cases chained
        simp only [Bool.or_eq_true, not_or, Bool.not_eq_true', Bool.not_eq_false] at header
        exact Or.inr header.1.1

theorem Region.digit_of_parse? {line : List Char} {r : Region} (h : Region.parse? line = some r) :
    ∃ c, line.head? = some c ∧ isDigit c = true := by
  obtain ⟨⟨x, row⟩, column, _⟩ := Option.bind_eq_some_iff.mp h
  obtain ⟨a, b, rfl, digit, _⟩ := twoDigits?_eq_some_iff.mp column
  exact ⟨a, rfl, digit⟩

theorem PathLine.digit_of_parse? {line : List Char} {p : PathLine} (h : PathLine.parse? line = some p) :
    ∃ c, line.head? = some c ∧ isDigit c = true := by
  obtain ⟨x, y, row, column, _⟩ := Hex.twoDigits_of_parse?_take (PathLine.start_of_parse? h).1
  obtain ⟨a, b, rfl, digit, _⟩ := twoDigits?_eq_some_iff.mp column
  exact ⟨a, rfl, digit⟩

namespace Region

/-- A dash right behind the cell is no part of a region. -/
theorem parse?_of_dash {line : List Char} {cell : Hex} (start : Hex.parse? (line.take 4) = some cell)
    (dash : (line.drop 4).head? = some '-') : Region.parse? line = none := by
  obtain ⟨x, y, row, column, digits, _⟩ := Hex.twoDigits_of_parse?_take start
  have variant := twoDigits?_eq_none dash (by decide)
  have filled : line.drop 4 ≠ [] := by
    intro empty
    rw [empty] at dash
    cases dash
  have solid : startsBlank (line.drop 4) = false := by rw [startsBlank, dash]; rfl
  unfold Region.parse?
  simp [column, digits, variant, filled, solid]

/-- Behind a blank, the words outside of labels decide. -/
theorem parse?_of_blank {line : List Char} {cell : Hex} (start : Hex.parse? (line.take 4) = some cell)
    (blank : startsBlank (line.drop 4) = true) :
    (HasOpenStep line ∧ Region.parse? line = none) ∨
      (¬ HasOpenStep line ∧ ∃ region, Region.parse? line = some region ∧ region.hex = cell) := by
  obtain ⟨x, y, row, column, digits, rfl⟩ := Hex.twoDigits_of_parse?_take start
  obtain ⟨c, atHead, visible⟩ := (Option.any_eq_true ..).mp blank
  have variant := twoDigits?_eq_none atHead (not_isDigit_of_isBlank visible)
  have steps : (openWords line).any (fun tag => (Step.parse? tag).isSome) = true ↔ HasOpenStep line :=
    List.any_eq_true
  unfold Region.parse?
  simp only [column, digits, variant, blank, Option.bind_eq_bind, Option.bind_some, Bool.not_true, Bool.and_false]
  by_cases found : HasOpenStep line
  · refine Or.inl ⟨found, ?_⟩
    have stepped := steps.mpr found
    simp only [openWords] at stepped
    simp [stepped]
  · refine Or.inr ⟨found, ?_⟩
    have plain : (openWords line).any (fun tag => (Step.parse? tag).isSome) = false := by
      rw [← Bool.not_eq_true, steps]
      exact found
    simp only [openWords] at plain
    simp [plain]

end Region

theorem findLabel?_of_not_mem {cs : List Char} (h : '"' ∉ cs) : findLabel? cs = none := by
  unfold findLabel?
  rw [cutAt?_eq_none h]

theorem takeLabels_of_none {cs : List Char} (h : findLabel? cs = none)
    (last : Option (List Char × Option (List Char))) : takeLabels last cs = (last, cs) := by
  unfold takeLabels
  split
  · rfl
  · rename_i found
    rw [h] at found
    cases found

theorem takeLabels_of_not_mem {cs : List Char} (h : '"' ∉ cs) (last : Option (List Char × Option (List Char))) :
    takeLabels last cs = (last, cs) :=
  takeLabels_of_none (findLabel?_of_not_mem h) last

/-- Without quotes every word behind the cell is open. -/
theorem hasOpenStep_iff_of_unquoted {line : List Char} (h : '"' ∉ line) :
    HasOpenStep line ↔ ∃ token ∈ words (line.drop 4), (Step.parse? token).isSome = true := by
  have unquoted : '"' ∉ line.drop 4 := fun member => h (List.mem_of_mem_drop member)
  rw [HasOpenStep, openWords, takeLabels_of_not_mem unquoted]

namespace Line

theorem recognize?_of_region {line : List Char} {r : Region} (h : Region.parse? line = some r) :
    recognize? line = some (region r) := by
  simp [recognize?, h]

theorem recognize?_of_not_region {line : List Char} {p : PathLine} (refused : Region.parse? line = none)
    (accepted : PathLine.parse? line = some p) : recognize? line = some (path p) := by
  simp [recognize?, refused, accepted]

/-- A line that reads as a path is taken for one exactly if a step is chained to its start or a step stands as a
word outside of labels and their sizes. Any other such line is taken for a region of its start cell. -/
theorem recognize?_eq_path_iff {line : List Char} {p : PathLine} (accepted : PathLine.parse? line = some p) :
    (recognize? line = some (path p) ↔ (line.drop 4).head? = some '-' ∨ HasOpenStep line) ∧
      (recognize? line = some (path p) ∨
        ∃ r : Region, recognize? line = some (region r) ∧ r.hex = p.start) ∧
      ('"' ∉ line →
        (HasOpenStep line ↔ ∃ token ∈ words (line.drop 4), (Step.parse? token).isSome = true)) := by
  obtain ⟨start, dash | blank⟩ := PathLine.start_of_parse? accepted
  · have taken := recognize?_of_not_region (Region.parse?_of_dash start dash) accepted
    exact ⟨iff_of_true taken (Or.inl dash), Or.inl taken, hasOpenStep_iff_of_unquoted⟩
  · rcases Region.parse?_of_blank start blank with ⟨stepped, refused⟩ | ⟨plain, r, read, cell⟩
    · have taken := recognize?_of_not_region refused accepted
      exact ⟨iff_of_true taken (Or.inr stepped), Or.inl taken, hasOpenStep_iff_of_unquoted⟩
    · have taken := recognize?_of_region read
      refine ⟨iff_of_false ?_ ?_, Or.inr ⟨r, taken, cell⟩, hasOpenStep_iff_of_unquoted⟩
      · rw [taken]
        simp
      · rintro (dash | stepped)
        · rw [startsBlank, dash] at blank
          exact absurd blank (by decide)
        · exact plain stepped

/-- Behind a side the step is a word of its own, so the line stays a path. -/
theorem recognize?_eq_path_iff_sided :
    let river : PathLine := ⟨"river", some "Run", some .right, none, ⟨3, 5⟩, [.reach ⟨6, 8⟩]⟩
    PathLine.parse? "0305 river \"Run\" right 0608".toList = some river ∧
      recognize? "0305 river \"Run\" right 0608".toList = some (path river) := by
  intro river
  have accepted : PathLine.parse? "0305 river \"Run\" right 0608".toList = some river := by decide +kernel
  have step : HasOpenStep "0305 river \"Run\" right 0608".toList :=
    ⟨"0608".toList, by decide +kernel, by decide⟩
  exact ⟨accepted, (recognize?_eq_path_iff accepted).1.mpr (Or.inr step)⟩

/-- A step right behind a label is taken for the label's size, and steps that a dash joins are taken for a tag. -/
theorem recognize?_ne_path_sized_joined :
    (∃ p : PathLine, PathLine.parse? "0101 road \"x\" 0102".toList = some p ∧
      recognize? "0101 road \"x\" 0102".toList ≠ some (path p)) ∧
    ∃ p : PathLine, PathLine.parse? "0101 road 0102-0103".toList = some p ∧
      recognize? "0101 road 0102-0103".toList ≠ some (path p) := by
  refine ⟨⟨⟨"road", some "x", none, none, ⟨1, 1⟩, [.reach ⟨1, 2⟩]⟩, ?_, ?_⟩,
    ⟨⟨"road", none, none, none, ⟨1, 1⟩, [.reach ⟨1, 2⟩, .reach ⟨1, 3⟩]⟩, ?_, ?_⟩⟩ <;> decide +kernel

end Line

end HexAtlas
