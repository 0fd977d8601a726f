import HexAtlas.Chart
import Mathlib.Data.List.DropRight

namespace HexAtlas

theorem trimEnd_trimEnd (cs : List Char) : trimEnd (trimEnd cs) = trimEnd cs :=
  List.rdropWhile_idempotent isBlank cs

def isOptionLine (line : List Char) : Bool := (Setting.argument? line).isSome

/-- A line that is neither blank nor a comment nor an option line, and has a shape. -/
def isContentLine (line : List Char) : Bool :=
  line ≠ [] && !isComment line && !isOptionLine line && (Line.recognize? line).isSome

def optionLines (source : List (List Char)) : List (List Char) := (source.map trimEnd).filter isOptionLine

def contentLines (source : List (List Char)) : List (List Char) := (source.map trimEnd).filter isContentLine

/-- The lines of a source that count, the options first, without blanks at their ends. -/
def tidy (source : List (List Char)) : List (List Char) := optionLines source ++ contentLines source

theorem settingOf?_trimEnd (line : List Char) : settingOf? (trimEnd line) = settingOf? line := by
  simp only [settingOf?, trimEnd_trimEnd]

theorem contentOf?_trimEnd (line : List Char) : contentOf? (trimEnd line) = contentOf? line := by
  simp only [contentOf?, trimEnd_trimEnd]

/-- Only option lines set anything. -/
theorem settingOf?_eq_none {line : List Char} (h : isOptionLine (trimEnd line) = false) :
    settingOf? line = none := by
  have missing : Setting.argument? (trimEnd line) = none := by simpa [isOptionLine] using h
  simp [settingOf?, Setting.ofLine?, missing]

/-- Only lines of a known shape add anything. -/
theorem contentOf?_eq_none {line : List Char} (h : isContentLine (trimEnd line) = false) :
    contentOf? line = none := by
  unfold contentOf?
  simp only
  split
  · rfl
  · rename_i counted
    simp only [Bool.or_eq_true, not_or, Bool.not_eq_true, decide_eq_true_eq] at counted
    obtain ⟨⟨filled, spoken⟩, plain⟩ := counted
    simpa [isContentLine, isOptionLine, filled, spoken, plain] using h

/-- The two kinds of lines are apart. -/
theorem isOptionLine_of_isContentLine {line : List Char} (h : isContentLine line = true) :
    isOptionLine line = false := by
  simp only [isContentLine, Bool.and_eq_true, Bool.not_eq_true'] at h
  exact h.1.2

theorem filterMap_settingOf?_optionLines (source : List (List Char)) :
    (optionLines source).filterMap settingOf? = source.filterMap settingOf? := by
  rw [optionLines, List.filterMap_filter, List.filterMap_map]
  refine List.filterMap_congr fun line _ => ?_
  simp only [Function.comp_apply]
  split
  · exact settingOf?_trimEnd line
  · rename_i other
    exact (settingOf?_eq_none (Bool.eq_false_iff.mpr other)).symm

theorem filterMap_contentOf?_contentLines (source : List (List Char)) :
    (contentLines source).filterMap contentOf? = source.filterMap contentOf? := by
  rw [contentLines, List.filterMap_filter, List.filterMap_map]
  refine List.filterMap_congr fun line _ => ?_
  simp only [Function.comp_apply]
  split
  · exact contentOf?_trimEnd line
  · rename_i other
    exact (contentOf?_eq_none (Bool.eq_false_iff.mpr other)).symm

theorem trimEnd_of_mem_map {source : List (List Char)} {line : List Char} (h : line ∈ source.map trimEnd) :
    trimEnd line = line := by
  obtain ⟨original, _, rfl⟩ := List.mem_map.mp h
  exact trimEnd_trimEnd original

theorem filterMap_settingOf?_contentLines (source : List (List Char)) :
    (contentLines source).filterMap settingOf? = [] := by
  refine List.filterMap_eq_nil_iff.mpr fun line member => ?_
  obtain ⟨kept, content⟩ := List.mem_filter.mp member
  refine settingOf?_eq_none ?_
  rw [trimEnd_of_mem_map kept]
  exact isOptionLine_of_isContentLine content

theorem filterMap_contentOf?_optionLines (source : List (List Char)) :
    (optionLines source).filterMap contentOf? = [] := by
  refine List.filterMap_eq_nil_iff.mpr fun line member => ?_
  obtain ⟨kept, option⟩ := List.mem_filter.mp member
  refine contentOf?_eq_none (Bool.eq_false_iff.mpr fun content => ?_)
  rw [trimEnd_of_mem_map kept] at content
  rw [isOptionLine_of_isContentLine content] at option
  cases option

/-- The first pass reads the same settings in the same order. -/
theorem readOptions_tidy (source : List (List Char)) : readOptions (tidy source) = readOptions source := by
  rw [readOptions, tidy, List.filterMap_append, filterMap_settingOf?_optionLines, filterMap_settingOf?_contentLines,
    List.append_nil, readOptions]

/-- The second pass adds the same content in the same order. -/
theorem filterMap_contentOf?_tidy (source : List (List Char)) :
    (tidy source).filterMap contentOf? = source.filterMap contentOf? := by
  rw [tidy, List.filterMap_append, filterMap_contentOf?_optionLines, filterMap_contentOf?_contentLines,
    List.nil_append]

namespace Chart

theorem compile_tidy_eq (instanceName : String) (source : List (List Char)) :
    compile instanceName (tidy source) = compile instanceName source := by
  rw [compile, readOptions_tidy, filterMap_contentOf?_tidy, compile]

/-- A source gives the same map as its tidy form, so any two sources whose option lines agree and whose other lines
of a known shape agree give the same map, however the lines are mixed and whatever else stands among them. -/
theorem compile_tidy (instanceName : String) (source : List (List Char)) :
    compile instanceName (tidy source) = compile instanceName source ∧
      ∀ other, optionLines other = optionLines source → contentLines other = contentLines source →
        compile instanceName other = compile instanceName source := by
  refine ⟨compile_tidy_eq instanceName source, fun other options content => ?_⟩
  have same : tidy other = tidy source := by rw [tidy, options, content, tidy]
  rw [← compile_tidy_eq, same, compile_tidy_eq]

/-- An option after the cells, blanks at the ends of lines, a comment, an option line that looks like an attribute
line and a line without a shape: all of it is one cell on a grid of rows. -/
theorem compile_tidy_mixed :
    let mixed := ["0101 plains \t".toList, "# option global".toList, "option fill attributes x=\"1\"".toList,
      "no shape".toList, "option horizontal ".toList]
    let plain := ["option fill attributes x=\"1\"".toList, "option horizontal".toList, [], "0101 plains".toList]
    optionLines mixed = optionLines plain ∧ contentLines mixed = contentLines plain ∧
      compile "m" mixed = compile "m" plain := by
  intro mixed plain
  have options : optionLines mixed = optionLines plain := by decide +kernel
  have content : contentLines mixed = contentLines plain := by decide +kernel
  exact ⟨options, content, (compile_tidy "m" plain).2 mixed options content⟩

end Chart

end HexAtlas
