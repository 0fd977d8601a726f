import HexAtlas.Proofs.Line.Step
import HexAtlas.Proofs.Text.Bytes

namespace HexAtlas

variable {cs rest : List Char} {step : Step} {steps : List Step}

/-- A step at the front of a text, in the parts of the text: blanks, at most one dash, the token that is read as the
step, and the rest. -/
structure Step.IsCut (step : Step) (cs gap dash token rest : List Char) : Prop where
  parts : cs = gap ++ (dash ++ (token ++ rest))
  blank : ∀ c ∈ gap, isBlank c = true
  joint : dash = [] ∨ dash = ['-']
  read : Step.parse? token = some step
  solid : ∀ c ∈ token, isSeparator c = false
  ends : EndsSegment rest

theorem exists_dash (cs : List Char) : ∃ dash, cs = dash ++ dropDash cs ∧ (dash = [] ∨ dash = ['-']) := by
  unfold dropDash
  split
  · exact ⟨['-'], rfl, Or.inr rfl⟩
  · exact ⟨[], rfl, Or.inl rfl⟩

theorem dropDash_append {dash : List Char} (joint : dash = [] ∨ dash = ['-']) (solid : cs.head? ≠ some '-') :
    dropDash (dash ++ cs) = cs := by
  rcases joint with rfl | rfl
  · rw [List.nil_append, dropDash]
    rintro more rfl
    exact solid rfl
  · rfl

theorem Step.exists_isCut (h : splitSegment? cs = some (step, rest)) :
    ∃ gap dash token, step.IsCut cs gap dash token rest := by
  obtain ⟨gap, front, rfl, blank, visible⟩ := exists_run isBlank cs
  obtain ⟨dash, joined, joint⟩ := exists_dash front
  obtain ⟨token, tail, cut, solid, stop⟩ := exists_run (!isSeparator ·) (dropDash front)
  have unbroken : ∀ c ∈ token, isSeparator c = false := by simpa using solid
  have ends : EndsSegment tail := by simpa [EndsSegment] using stop
  have split : segment (dropDash front) = (token, tail) := by rw [cut, segment_append unbroken ends]
  simp only [splitSegment?, trimStart_gap blank visible, split] at h
  obtain ⟨_, read, same⟩ := Option.map_eq_some_iff.mp h
  cases same
  exact ⟨gap, dash, token, by rw [← cut, ← joined], blank, joint, read, unbroken, ends⟩

namespace Step.IsCut

variable {gap dash token : List Char}

theorem token_ne_nil (h : step.IsCut cs gap dash token rest) : token ≠ [] := by
  rintro rfl
  have read := h.read
  rw [Step.parse?_nil] at read
  cases read

theorem byteCount_lt (h : step.IsCut cs gap dash token rest) : byteCount rest < byteCount cs := by
  have filled := byteCount_pos h.token_ne_nil
  rw [h.parts, byteCount_append, byteCount_append, byteCount_append]
  omega

theorem suffix (h : step.IsCut cs gap dash token rest) : rest <:+ cs :=
  ⟨gap ++ (dash ++ token), by rw [h.parts]; simp only [List.append_assoc]⟩

/-- The token has no separator, so it is neither trimmed nor taken for a dash nor cut short. -/
theorem splitSegment? (h : step.IsCut cs gap dash token rest) : HexAtlas.splitSegment? cs = some (step, rest) := by
  obtain ⟨c, more, rfl⟩ := List.exists_cons_of_ne_nil h.token_ne_nil
  have solid := h.solid c List.mem_cons_self
  have visible : ∀ d, (dash ++ (c :: more ++ rest)).head? = some d → isBlank d = false := by
    rcases h.joint with rfl | rfl
    · rintro d ⟨⟩
      exact not_isBlank_of_not_isSeparator solid
    · rintro d ⟨⟩
      decide
  have front : (c :: more ++ rest).head? ≠ some '-' := by
    rintro ⟨⟩
    exact absurd solid (by decide)
  rw [HexAtlas.splitSegment?, h.parts, trimStart_gap h.blank visible, dropDash_append h.joint front,
    segment_append h.solid h.ends, h.read, Option.map_some]

end Step.IsCut

theorem splitSegment?_eq_some_iff :
    splitSegment? cs = some (step, rest) ↔ ∃ gap dash token, step.IsCut cs gap dash token rest :=
  ⟨Step.exists_isCut, fun ⟨_, _, _, cut⟩ => cut.splitSegment?⟩

theorem byteCount_lt_of_splitSegment? (h : splitSegment? cs = some (step, rest)) :
    byteCount rest < byteCount cs := by
  obtain ⟨_, _, _, cut⟩ := Step.exists_isCut h
  exact cut.byteCount_lt

/-- Steps that are split off a text one after the other, and what they leave. -/
inductive Splits : List Char → List Step → List Char → Prop
  | none {cs : List Char} : Splits cs [] cs
  | cons {cs next rest : List Char} {step : Step} {more : List Step} (first : splitSegment? cs = some (step, next))
    (later : Splits next more rest) : Splits cs (step :: more) rest

theorem segments_eq_nil (h : splitSegment? cs = none) : segments cs = [] := by
  unfold segments
  split
  · rfl
  · rename_i found
    rw [h] at found
    cases found

theorem segments_cons (h : splitSegment? cs = some (step, rest)) : segments cs = step :: segments rest := by
  rw [segments]
  split
  · rename_i found
    rw [h] at found
    cases found
  · rename_i found
    rw [h] at found
    cases found
    rfl

namespace Splits

/-- Every step takes a byte along. -/
theorem length_add_byteCount_le (h : Splits cs steps rest) : steps.length + byteCount rest ≤ byteCount cs := by
  induction h with
  | none => exact Nat.le_of_eq (Nat.zero_add _)
  | cons first _ ih =>
    have := byteCount_lt_of_splitSegment? first
    rw [List.length_cons]
    omega

/-- The reader goes through all steps that can be split off. -/
theorem segments_eq (h : Splits cs steps rest) : segments cs = steps ++ segments rest := by
  induction h with
  | none => rfl
  | cons first _ ih => rw [segments_cons first, ih, List.cons_append]

end Splits

/-- The reader stops only where no step is left. -/
theorem exists_splits (cs : List Char) : ∃ rest, Splits cs (segments cs) rest ∧ splitSegment? rest = none := by
  fun_induction segments cs with
  | case1 cs stop => exact ⟨cs, .none, stop⟩
  | case2 cs step next first ih =>
    obtain ⟨rest, later, stop⟩ := ih
    exact ⟨rest, .cons first later, stop⟩

/-- A step is split off a text exactly if the text starts with blanks, at most one dash and a token of its own that
is read as the step; a proper end of the text is left. However long this goes on, there are no more steps than
bytes, and the reader goes on until no step is left. A token is read as a step exactly if it is a way to write that
step, and what the step is written as is another one. -/
theorem exists_splits_segments (cs token : List Char) :
    (∀ step rest, splitSegment? cs = some (step, rest) ↔ ∃ gap dash token, step.IsCut cs gap dash token rest) ∧
      (∀ step rest, splitSegment? cs = some (step, rest) → rest <:+ cs ∧ rest ≠ cs) ∧
      (∀ steps rest, Splits cs steps rest → steps.length ≤ byteCount cs ∧ segments cs = steps ++ segments rest) ∧
      (∃ rest, Splits cs (segments cs) rest ∧ splitSegment? rest = none) ∧
      (∀ step, Step.parse? token = some step ↔ step.SpelledBy token) ∧
      ∀ step, Step.parse? token = some step → Step.parse? step.text.toList = some step := by
  refine ⟨fun _ _ => splitSegment?_eq_some_iff, fun step rest here => ?_, fun steps rest run =>
    ⟨?_, run.segments_eq⟩,
    exists_splits cs, fun _ => Step.parse?_eq_some_iff, fun step read => ?_⟩
  · obtain ⟨_, _, _, cut⟩ := Step.exists_isCut here
    refine ⟨cut.suffix, ?_⟩
    rintro rfl
    exact Nat.lt_irrefl _ cut.byteCount_lt
  · exact Nat.le_trans (Nat.le_add_right _ _) run.length_add_byteCount_le
  · exact Step.parse?_text (Step.parse?_eq_some_iff.mp read).writable

/-- Separators of every kind and the longest run; a run that is longer by one is left over. -/
theorem exists_splits_segments_longest :
    let cs := "\u3000-se02-n4294967295\t0102-n4294967296".toList
    let steps : List Step := [.toward .southEast 2, .toward .north 4294967295, .reach ⟨1, 2⟩]
    (∃ gap dash token, (Step.toward .southEast 2).IsCut cs gap dash token "-n4294967295\t0102-n4294967296".toList) ∧
      steps.length ≤ byteCount cs ∧ segments cs = steps ∧
      Step.parse? "se02".toList = some (.toward .southEast 2) ∧
      Step.parse? (Step.toward .southEast 2).text.toList = some (.toward .southEast 2) := by
  intro cs steps
  have first : splitSegment? cs = some (.toward .southEast 2, "-n4294967295\t0102-n4294967296".toList) := by
    decide +kernel
  have second : splitSegment? "-n4294967295\t0102-n4294967296".toList =
      some (.toward .north 4294967295, "\t0102-n4294967296".toList) := by decide +kernel
  have third : splitSegment? "\t0102-n4294967296".toList = some (.reach ⟨1, 2⟩, "-n4294967296".toList) := by
    decide +kernel
  have run : Splits cs steps "-n4294967296".toList := .cons first (.cons second (.cons third .none))
  have read : Step.parse? "se02".toList = some (.toward .southEast 2) := by decide +kernel
  have stop : segments "-n4294967296".toList = [] := segments_eq_nil (by decide +kernel)
  obtain ⟨cut, -, runs, -, -, written⟩ := exists_splits_segments cs "se02".toList
  obtain ⟨bound, all⟩ := runs steps _ run
  exact ⟨(cut _ _).mp first, bound, by rw [all, stop, List.append_nil], read, written _ read⟩

end HexAtlas
