import HexAtlas.Proofs.Chart.Names
import HexAtlas.Proofs.Text.Cut
import HexAtlas.Proofs.Text.Lowercase
import HexAtlas.Theme

namespace HexAtlas
namespace TagAndTally

/-- A line in one piece. -/
def chars (pieces : List String) : List Char := pieces.flatMap String.toList

/-- The characters of some pieces. Literals are compared with lists of characters at once, while the evaluation of
`String.toList` would decode them byte by byte. -/
inductive Spells : List String → List Char → Prop
  | nil : Spells [] []
  | cons {piece : String} {pieces : List String} {cs ds : List Char} (first : piece = String.ofList cs)
      (rest : Spells pieces ds) : Spells (piece :: pieces) (cs ++ ds)

theorem Spells.chars_eq {pieces : List String} {cs : List Char} (h : Spells pieces cs) : chars pieces = cs := by
  induction h with
  | nil => rfl
  | cons first _ ih => rw [chars, List.flatMap_cons, first, String.toList_ofList, ← ih, chars]

/-- Every line is spelled and passes a check. -/
inductive Checked (check : List Char → Bool) : List (List String) → Prop
  | nil : Checked check []
  | cons {line : List String} {others : List (List String)} {cs : List Char} (spelled : Spells line cs)
      (passed : check cs = true) (rest : Checked check others) : Checked check (line :: others)

theorem Checked.check_of_mem {check : List Char → Bool} {ls : List (List String)} (h : Checked check ls)
    {line : List String} (member : line ∈ ls) : check (chars line) = true := by
  induction h with
  | nil => cases member
  | cons spelled passed _ ih =>
    rcases List.mem_cons.mp member with rfl | later
    · rw [spelled.chars_eq]
      exact passed
    · exact ih later

/-- A single line without a setting that does not begin as a cell does. -/
def isBareLine (cs : List Char) : Bool :=
  !cs.contains '\n' && cs.getLast? != some '\r' && (settingOf? cs).isNone && !cs.head?.any isDigit

set_option maxRecDepth 20000 in
theorem checked_sourceLines : Checked isBareLine sourceLines := by
  dsimp only [sourceLines, headLines, groundLines, outlineLines, definitionLines, districtLines, List.cons_append,
    List.nil_append]
  -- The pieces of a line are spelled before it is checked, which leaves a closed check to evaluate.
  repeat' first | apply Checked.cons | apply Spells.cons rfl | exact Spells.nil | exact Checked.nil | decide +kernel

theorem toList_text : text.toList = (sourceLines.map chars).flatMap (· ++ ['\n']) := by
  simp only [text, chars, String.toList_join, List.flatMap_map, String.toList_append]
  rfl

/-- The text falls into the lines that it was put together from. -/
theorem lines_text : lines text.toList = sourceLines.map chars := by
  rw [toList_text]
  refine lines_flatMap ?_ ?_
  all_goals
    intro line member
    obtain ⟨pieces, listed, rfl⟩ := List.mem_map.mp member
    have bare := checked_sourceLines.check_of_mem listed
    simp only [isBareLine, Bool.and_eq_true] at bare
  · simpa using bare.1.1.1
  · simpa using bare.1.1.2

end TagAndTally

namespace Theme

/-- The themes by their names in small letters. -/
def ofSmall? : String → Option Theme
  | "tag-and-tally" => some tagAndTally
  | "plain" => some plain
  | "none" => some plain
  | _ => none

/-- The theme that a word names, in letters of any case. A word has no blanks around it. -/
def named? (word : List Char) : Option Theme := ofSmall? (String.ofList (word.map Char.toLower))

theorem ofSmall?_congr {x y : String} (h : ∀ name ∈ ["tag-and-tally", "plain", "none"], x = name ↔ y = name) :
    ofSmall? x = ofSmall? y := by
  simp only [List.forall_mem_cons] at h
  obtain ⟨tag, plain, none, -⟩ := h
  unfold ofSmall?
  split <;> simp_all

/-- Letters beyond the alphabet make no name of a theme when they are made small. -/
theorem isBasic_of_mem_name :
    ∀ name ∈ ["tag-and-tally", "plain", "none"], ∀ d ∈ name.toList, LetterCase.IsBasic d := by
  have all : ∀ name ∈ ["tag-and-tally", "plain", "none"], name.toList.all (LetterCase.IsBasic ·) = true := by decide
  exact fun name member d listed => of_decide_eq_true (List.all_eq_true.mp (all name member) d listed)

theorem ofList_eq_iff {cs : List Char} {name : String} : String.ofList cs = name ↔ cs = name.toList := by
  rw [← String.toList_inj, String.toList_ofList]

/-- A name stands for the same theme with and without blanks around it. -/
theorem ofName?_eq (name : String) : ofName? name = named? (trim name.toList) := by
  refine ofSmall?_congr fun known member => ?_
  rw [ofList_eq_iff, ofList_eq_iff]
  exact lowercase_eq_iff (isBasic_of_mem_name known member)

theorem named?_lowercase (word : List Char) : named? (lowercase word) = named? word := by
  refine ofSmall?_congr fun known member => ?_
  rw [ofList_eq_iff, ofList_eq_iff]
  exact map_toLower_lowercase_eq_iff (isBasic_of_mem_name known member)

theorem resolve_lowercase {word : List Char} (visible : ∀ c ∈ word, isBlank c = false) :
    resolve (String.ofList (lowercase word)) = (named? word).getD tagAndTally := by
  have solid := isBlank_of_mem_lowercase visible
  have trimmed : trim (lowercase word) = lowercase word := by
    refine trim_eq_self ((Option.all_eq_true _ _).mpr fun c first => ?_)
      ((Option.all_eq_true _ _).mpr fun c last => ?_)
    · simp [solid c (List.mem_of_head? first)]
    · simp [solid c (List.mem_of_getLast? last)]
  rw [resolve, ofName?_eq, String.toList_ofList, trimmed, named?_lowercase]
  rfl

theorem isBareLine_of_mem_source {t : Theme} {line : List Char} (h : line ∈ t.source) :
    TagAndTally.isBareLine line = true := by
  cases t with
  | tagAndTally =>
    rw [source, Theme.text, TagAndTally.lines_text] at h
    obtain ⟨pieces, listed, rfl⟩ := List.mem_map.mp h
    exact TagAndTally.checked_sourceLines.check_of_mem listed
  | plain =>
    have empty : plain.source = [] := by
      rw [source, lines]
      rfl
    rw [empty] at h
    cases h

/-- Themes set no option. -/
theorem settingOf?_of_mem_source {t : Theme} {line : List Char} (h : line ∈ t.source) : settingOf? line = none := by
  have bare := isBareLine_of_mem_source h
  simp only [TagAndTally.isBareLine, Bool.and_eq_true] at bare
  exact Option.isNone_iff_eq_none.mp bare.1.2

/-- The options of a map are those of its own lines. -/
theorem readOptions_source_append (t : Theme) (source : List (List Char)) :
    readOptions (t.source ++ source) = readOptions source := by
  have none : t.source.filterMap settingOf? = [] :=
    List.filterMap_eq_nil_iff.mpr fun _ member => settingOf?_of_mem_source member
  rw [readOptions, List.filterMap_append, none, List.nil_append, readOptions]

end Theme

namespace Chart

/-- A map keeps its names to itself unless its own lines say otherwise. -/
theorem scope_compileThemed (instanceName : String) (text : List Char) (given : Theme) :
    (compileThemed instanceName text given).scope = .ofInstance instanceName (readOptions (lines text)).global := by
  rw [compileThemed, scope_compile, Theme.readOptions_source_append]

theorem named_compileThemed (instanceName : String) (text : List Char) (given : Theme) :
    (compileThemed instanceName text given).Named :=
  named_compile instanceName _

end Chart

end HexAtlas
