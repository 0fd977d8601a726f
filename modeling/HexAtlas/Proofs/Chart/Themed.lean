import HexAtlas.Proofs.Chart.Content
import HexAtlas.Proofs.Line.Shapes
import HexAtlas.Proofs.Options
import HexAtlas.Proofs.Theme

namespace HexAtlas

namespace Line

theorem placeless_of_shape? {line : List Char} {l : Line} (h : shape? line = some l) :
    l.region? = none ∧ l.path? = none := by
  obtain ⟨⟨name, rest⟩, _, rfl⟩ := Option.map_eq_some_iff.mp h
  simp only
  split <;> exact ⟨rfl, rfl⟩

theorem placeless_of_letters? {line : List Char} {l : Line} (h : letters? line = some l) :
    l.region? = none ∧ l.path? = none := by
  simp only [letters?, Option.orElse_eq_orElse, Option.orElse_eq_or, Option.or_eq_some_iff,
    Option.map_eq_some_iff] at h
  rcases h with ⟨rest, _, rfl⟩ | ⟨_, ⟨rest, _, rfl⟩ | ⟨_, rest, _, rfl⟩⟩ <;> exact ⟨rfl, rfl⟩

/-- Only the readers of regions and of paths place anything. -/
theorem recognize?_cases {line : List Char} {l : Line} (h : recognize? line = some l) :
    (∃ r, Region.parse? line = some r) ∨ (∃ p, PathLine.parse? line = some p) ∨
      l.region? = none ∧ l.path? = none := by
  simp only [recognize?, Option.orElse_eq_orElse, Option.orElse_eq_or, Option.or_eq_some_iff] at h
  rcases h with region | ⟨_, path | ⟨_, fill | ⟨_, definition | ⟨_, shape | ⟨_, letters⟩⟩⟩⟩⟩
  · obtain ⟨r, read, _⟩ := Option.map_eq_some_iff.mp region
    exact Or.inl ⟨r, read⟩
  · obtain ⟨p, read, _⟩ := Option.map_eq_some_iff.mp path
    exact Or.inr (Or.inl ⟨p, read⟩)
  · obtain ⟨⟨name, rest⟩, _, rfl⟩ := Option.map_eq_some_iff.mp fill
    exact Or.inr (Or.inr ⟨rfl, rfl⟩)
  · unfold definition? at definition
    split at definition
    · cases definition
      exact Or.inr (Or.inr ⟨rfl, rfl⟩)
    · cases definition
  · exact Or.inr (Or.inr (placeless_of_shape? shape))
  · exact Or.inr (Or.inr (placeless_of_letters? letters))

end Line

/-- What places something begins with a digit, also before the blanks at its end are taken off. -/
theorem placeless_of_contentOf? {line : List Char} {l : Line} (h : contentOf? line = some l)
    (start : line.head?.any isDigit = false) : l.region? = none ∧ l.path? = none := by
  have started : ¬∃ c, (trimEnd line).head? = some c ∧ isDigit c = true := by
    rintro ⟨c, atHead, digit⟩
    obtain ⟨rest, whole⟩ : trimEnd line <+: line := by
      simpa [trimEnd] using List.reverse_prefix.mpr (List.dropWhile_suffix (l := line.reverse) isBlank)
    have first : line.head? = some c := by
      rw [← whole, List.head?_append, atHead, Option.some_or]
    rw [first, Option.any_some, digit] at start
    cases start
  simp only [contentOf?] at h
  split at h
  · cases h
  · rcases Line.recognize?_cases h with ⟨r, read⟩ | ⟨p, read⟩ | placeless
    · exact absurd (Region.digit_of_parse? read) started
    · exact absurd (PathLine.digit_of_parse? read) started
    · exact placeless

namespace Theme

/-- The raw definitions of a theme. -/
def definitions (t : Theme) : List String := (content t.source).filterMap Line.markup?

/-- The styles that a theme sets by itself. -/
def styles (t : Theme) : Styles := (Chart.compile "" t.source).styles

theorem placeless_of_mem_content {t : Theme} {line : Line} (h : line ∈ content t.source) :
    line.region? = none ∧ line.path? = none := by
  obtain ⟨text, listed, recognized⟩ := List.mem_filterMap.mp h
  have bare := isBareLine_of_mem_source listed
  simp only [TagAndTally.isBareLine, Bool.and_eq_true, Bool.not_eq_true'] at bare
  exact placeless_of_contentOf? recognized bare.2

theorem regions_content (t : Theme) : (content t.source).filterMap Line.region? = [] :=
  List.filterMap_eq_nil_iff.mpr fun _ member => (placeless_of_mem_content member).1

theorem paths_content (t : Theme) : (content t.source).filterMap Line.path? = [] :=
  List.filterMap_eq_nil_iff.mpr fun _ member => (placeless_of_mem_content member).2

/-- The theme that the last line `option theme <name>` names, the standard one if there is none of that name; the
given theme if there is no such line. -/
def lastNamed (source : List (List Char)) (given : Theme) : Theme :=
  match ((arguments .theme source).filterMap List.head?).getLast? with
  | some name => (named? name).getD tagAndTally
  | none => given

theorem ofSource_eq (source : List (List Char)) (given : Theme) :
    ofSource source given = lastNamed source given := by
  rw [ofSource, Options.readOptions_theme, lastNamed]
  cases last : ((arguments .theme source).filterMap List.head?).getLast? with
  | none => rfl
  | some name =>
    obtain ⟨args, listed, first⟩ := List.mem_filterMap.mp (List.mem_of_getLast? last)
    have visible := isBlank_of_mem_arguments listed (List.mem_of_head? first)
    rw [Option.map_some, Option.map_some, Option.getD_some, resolve_lowercase visible]

/-- Capitals do not matter, and an unknown name takes back what an earlier line chose. -/
example : ofSource ["option theme NONE".toList] tagAndTally = plain ∧
    ofSource ["option theme plain".toList, "option theme plains".toList] plain = tagAndTally := by decide +kernel

end Theme

/-- Some line of the source sets a part of the map. -/
def Sets {α : Type} (source : List (List Char)) (part : Line → Option α) : Bool :=
  (content source).any fun line => (part line).isSome

/-- The last line of the back that sets a part counts, and the last of the front if there is none in the back. -/
theorem getLast?_content_append {α : Type} (part : Line → Option α) (front back : List (List Char)) :
    ((content (front ++ back)).filterMap part).getLast? =
      if Sets back part then ((content back).filterMap part).getLast?
      else ((content front).filterMap part).getLast? := by
  rw [content_append, List.filterMap_append, List.getLast?_append]
  by_cases set : Sets back part = true
  · obtain ⟨line, member, given⟩ := List.any_eq_true.mp set
    obtain ⟨value, given⟩ := Option.isSome_iff_exists.mp given
    have filled : (content back).filterMap part ≠ [] :=
      List.ne_nil_of_mem (List.mem_filterMap.mpr ⟨line, member, given⟩)
    rw [if_pos set, List.getLast?_eq_some_getLast filled, Option.some_or]
  · have bare : (content back).filterMap part = [] := by
      refine List.filterMap_eq_nil_iff.mpr fun line member => Option.not_isSome_iff_eq_none.mp fun given => set ?_
      exact List.any_eq_true.mpr ⟨line, member, given⟩
    rw [if_neg set, bare, List.getLast?_nil, Option.none_or]

namespace Chart

/-- The map `p` of a source, and the same map `m` with the theme `t`. -/
structure ThemedBy (t : Theme) (source : List (List Char)) (p m : Chart) : Prop where
  options : m.options = p.options
  orientation : m.orientation = p.orientation
  scope : m.scope = p.scope
  regions : m.regions = p.regions
  paths : m.paths = p.paths
  bounds : m.bounds? = p.bounds?
  centre : m.centre = p.centre
  zoom : m.options.zoom = p.options.zoom
  types : m.types = p.types
  definitions : m.definitions = t.definitions.map p.scope.marked ++ p.definitions
  fill : ∀ name, m.styles.fill.get? name =
    if Sets source (Line.fillOf? name) then p.styles.fill.get? name else t.styles.fill.get? name
  stroke : ∀ name, m.styles.stroke.get? name =
    if Sets source (Line.strokeOf? name) then p.styles.stroke.get? name else t.styles.stroke.get? name
  geometry : ∀ name, m.styles.geometry.get? name =
    if Sets source (Line.geometryOf? name) then p.styles.geometry.get? name else t.styles.geometry.get? name
  text : m.styles.text = if Sets source Line.text? then p.styles.text else t.styles.text
  glow : m.styles.glow = if Sets source Line.glow? then p.styles.glow else t.styles.glow
  label : m.styles.label = if Sets source Line.label? then p.styles.label else t.styles.label

/-- What the lines set in whole is taken from the source if it sets it, else from the theme. -/
theorem eq_ite_of_last {α : Type} {part : Line → Option α} {front back : List (List Char)} {m p t empty : α}
    (whole : some m = ((content (front ++ back)).filterMap part).getLast?.or (some empty))
    (own : some p = ((content back).filterMap part).getLast?.or (some empty))
    (below : some t = ((content front).filterMap part).getLast?.or (some empty)) :
    m = if Sets back part then p else t := by
  rw [getLast?_content_append] at whole
  split
  · rename_i set
    rw [if_pos set, ← own] at whole
    exact Option.some.inj whole
  · rename_i unset
    rw [if_neg unset, ← below] at whole
    exact Option.some.inj whole

theorem regions_source_append (instanceName : String) (t : Theme) (source : List (List Char)) :
    (compile instanceName (t.source ++ source)).regions = (compile instanceName source).regions := by
  rw [regions_compile, content_append, List.filterMap_append, t.regions_content, List.nil_append, regions_compile]

theorem scope_source_append (instanceName : String) (t : Theme) (source : List (List Char)) :
    (compile instanceName (t.source ++ source)).scope = (compile instanceName source).scope := by
  rw [scope_compile, Theme.readOptions_source_append, scope_compile]

theorem paths_source_append (instanceName : String) (t : Theme) (source : List (List Char)) :
    (compile instanceName (t.source ++ source)).paths = (compile instanceName source).paths := by
  rw [paths_compile, content_append, List.filterMap_append, t.paths_content, List.nil_append, scope_source_append,
    paths_compile]

/-- A theme only adds styles and definitions, and only where the map says nothing itself. The theme is the one that
the last line `option theme <name>` names, else the given one. -/
theorem themedBy_compileThemed (instanceName : String) (text : List Char) (given : Theme) :
    ThemedBy (Theme.lastNamed (lines text) given) (lines text) (compile instanceName (lines text))
      (compileThemed instanceName text given) := by
  rw [compileThemed, Theme.ofSource_eq]
  generalize lines text = source
  generalize Theme.lastNamed source given = t
  have options : (compile instanceName (t.source ++ source)).options = (compile instanceName source).options := by
    rw [options_compile, Theme.readOptions_source_append, options_compile]
  have orientation : (compile instanceName (t.source ++ source)).orientation =
      (compile instanceName source).orientation := congrArg Options.orientation options
  have scope := scope_source_append instanceName t source
  have regions := regions_source_append instanceName t source
  have paths := paths_source_append instanceName t source
  exact {
    options, orientation, scope, regions, paths
    bounds := by rw [bounds?, orientation, regions, bounds?]
    centre := by rw [centre, centreCell, orientation, options, regions, centre, centreCell]
    zoom := congrArg Options.zoom options
    types := by rw [types, regions, paths, types]
    definitions := by
      rw [definitions_compile, content_append, List.filterMap_append, List.map_append, scope, definitions_compile]
      rfl
    fill := fun name => by simp only [Theme.styles, fill_compile, getLast?_content_append]
    stroke := fun name => by simp only [Theme.styles, stroke_compile, getLast?_content_append]
    geometry := fun name => by simp only [Theme.styles, geometry_compile, getLast?_content_append]
    text := eq_ite_of_last (text_compile _ _) (text_compile _ _) (text_compile _ _)
    glow := eq_ite_of_last (glow_compile _ _) (glow_compile _ _) (glow_compile _ _)
    label := eq_ite_of_last (label_compile _ _) (label_compile _ _) (label_compile _ _) }

end Chart

end HexAtlas
