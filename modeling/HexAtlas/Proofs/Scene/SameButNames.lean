import HexAtlas.Proofs.Chart.Content
import HexAtlas.Proofs.Command.InstanceToken
import HexAtlas.Proofs.Markup.Anonymous
import HexAtlas.Proofs.Scene.WellFormed

namespace HexAtlas

def Path.anonymous (p : Path) : Path := { p with id := "" }

/-- The kinds of the names in raw markup, in their order. -/
def referenceKinds (markup : String) : List ReferenceKind := (references markup.toList).map (·.kind)

theorem referenceKinds_marked {s : NameScope} (mark : IsMark s.ending.toList) (markup : String) :
    referenceKinds (s.marked markup) = referenceKinds markup := by
  have kinds (text : List Char) : (references text).map (·.kind) = (names (pieces text)).map Prod.fst := by
    rw [← map_referencesFrom 0, List.map_map]
    rfl
  rw [referenceKinds, referenceKinds, kinds, kinds, NameScope.marked, String.toList_ofList, names_markNames mark,
    List.map_map]
  rfl

theorem Options.global_foldl_apply {settings : List Setting} {o : Options} :
    (settings.foldl Options.apply o).global = true ↔ o.global = true ∨ .global ∈ settings := by
  induction settings generalizing o with
  | nil => simp
  | cons setting rest ih =>
    rw [List.foldl_cons, ih]
    cases setting <;> simp [Options.apply]

/-- Names are global if some line says so; no other line takes it back. -/
theorem global_readOptions_iff {source : List (List Char)} :
    (readOptions source).global = true ↔ ∃ line ∈ source, settingOf? line = some .global := by
  rw [readOptions, Options.global_foldl_apply, List.mem_filterMap]
  exact or_iff_right Bool.false_ne_true

example : settingOf? "option global ".toList = some .global := by decide +kernel

namespace Chart

/-- A map without its names. -/
def anonymous (c : Chart) : Chart :=
  { c with
    instanceName := ""
    scope := ⟨none⟩
    paths := c.paths.map Path.anonymous
    definitions := c.definitions.map fun _ => "" }

/-- Two maps that are the same in everything but names. -/
structure SameButNames (c d : Chart) : Prop where
  options : c.options = d.options
  orientation : c.orientation = d.orientation
  regions : c.regions = d.regions
  styles : c.styles = d.styles
  bounds : c.bounds? = d.bounds?
  centre : c.centre = d.centre
  zoom : c.options.zoom = d.options.zoom
  types : c.types = d.types
  paths : c.paths.map Path.toPathLine = d.paths.map Path.toPathLine
  scene : ∀ viewport, (c.scene viewport).anonymous = (d.scene viewport).anonymous
  references : ∀ viewport, (c.scene viewport).raws.map referenceKinds = (d.scene viewport).raws.map referenceKinds

variable (c : Chart)

@[simp] theorem orientation_anonymous : c.anonymous.orientation = c.orientation := rfl

@[simp] theorem styles_anonymous : c.anonymous.styles = c.styles := rfl

theorem types_anonymous : c.anonymous.types = c.types := by
  have kinds : c.anonymous.paths.map (·.kind) = c.paths.map (·.kind) := List.map_map
  rw [types, types, kinds]
  rfl

theorem anonymous_useSymbol (cell : Hex) (type : String) :
    (c.anonymous.useSymbol cell type).anonymous = (c.useSymbol cell type).anonymous := by
  simp [useSymbol]

theorem anonymous_outline (r : Region) : (c.anonymous.outline r).anonymous = (c.outline r).anonymous := by
  simp [outline]

theorem anonymous_connector? (p : Path) :
    (c.anonymous.connector? p.anonymous).map Element.anonymous = (c.connector? p).map Element.anonymous := by
  have points : c.anonymous.pathPoints p.anonymous = c.pathPoints p := rfl
  have kind : p.anonymous.kind = p.kind := rfl
  simp [connector?, points, kind, Function.comp_def]

/-- The texts of a label are the same if each of them is. -/
theorem anonymous_withGlow {text text' : Attributes → Element}
    (same : ∀ extra, (text' extra).anonymous = (text extra).anonymous) :
    (c.anonymous.withGlow text').anonymous = (c.withGlow text).anonymous := by
  cases dark : c.styles.glow.isEmpty <;> simp [withGlow, dark, same]

theorem anonymous_pathLabel? (p : Path) :
    (c.anonymous.pathLabel? p.anonymous).map Element.anonymous = (c.pathLabel? p).map Element.anonymous := by
  have points : c.anonymous.pathPoints p.anonymous = c.pathPoints p := rfl
  have label : p.anonymous.label = p.label := rfl
  have labelStart : p.anonymous.labelStart = p.labelStart := rfl
  have right (ps : List Point) : labelOnRight p.anonymous ps = labelOnRight p ps := rfl
  rw [pathLabel?, pathLabel?, points, label]
  split
  · simp only [Option.map_some]
    refine congrArg some (anonymous_withGlow c fun extra => ?_)
    rw [right, labelStart]
    cases labelOnRight p _ <;> cases p.labelStart <;> simp
  · rfl

theorem anonymous_symbol? (type : String) :
    (c.anonymous.symbol? type).map Element.anonymous = (c.symbol? type).map Element.anonymous := by
  rw [symbol?, symbol?, styles_anonymous]
  cases c.styles.fill.get? type <;> cases c.styles.geometry.get? type <;> simp

/-- Every layer is the same without names. -/
theorem anonymous_layerElements (l : Layer) :
    (c.anonymous.layerElements l).map Element.anonymous = (c.layerElements l).map Element.anonymous := by
  have uses (keep : String → Bool) :
      (c.regions.flatMap fun r => (r.types.filter keep).map (c.anonymous.useSymbol r.hex)).map Element.anonymous =
        (c.regions.flatMap fun r => (r.types.filter keep).map (c.useSymbol r.hex)).map Element.anonymous := by
    simp [List.map_flatMap, Function.comp_def, anonymous_useSymbol]
  -- Coordinates and labels of regions have no names to lose.
  cases l with
  | backgrounds => exact uses _
  | paths =>
    have paths : c.anonymous.paths = c.paths.map Path.anonymous := rfl
    simp [layerElements, paths, List.map_filterMap, List.filterMap_map, anonymous_connector?]
  | things => exact uses _
  | coordinates => rfl
  | regions =>
    have regions : c.anonymous.regions = c.regions := rfl
    simp [layerElements, regions, Function.comp_def, anonymous_outline]
  | pathLabels =>
    have paths : c.anonymous.paths = c.paths.map Path.anonymous := rfl
    simp [layerElements, paths, List.map_filterMap, List.filterMap_map, anonymous_pathLabel?]
  | labels => rfl

theorem anonymous_layer (l : Layer) : (c.anonymous.layer l).anonymous = (c.layer l).anonymous := by
  simp [layer, anonymous_layerElements]

theorem anonymous_definitionsElement :
    c.anonymous.definitionsElement.anonymous = c.definitionsElement.anonymous := by
  have raws : c.anonymous.definitions = c.definitions.map fun _ => "" := rfl
  have symbols : (c.types.filterMap c.anonymous.symbol?).map Element.anonymous =
      (c.types.filterMap c.symbol?).map Element.anonymous := by
    simp only [List.map_filterMap, anonymous_symbol?]
  have nodes (es : List Element) : (es.map Element.toNode).map Node.anonymous =
      (es.map Element.anonymous).map Element.toNode := by
    simp [Element.anonymous_toNode]
  simp only [definitionsElement, Element.anonymous, List.map_append, nodes, types_anonymous, symbols, raws,
    List.map_map, Function.comp_def, Node.anonymous]

/-- The drawing of a map without names is its drawing, but for names. -/
theorem anonymous_scene (viewport : Viewport) :
    (c.anonymous.scene viewport).anonymous = (c.scene viewport).anonymous := by
  have root : c.anonymous.root viewport = c.root viewport := rfl
  have bounds : c.anonymous.bounds? = c.bounds? := rfl
  simp [scene, root, bounds, anonymous_definitionsElement, anonymous_layer, Function.comp_def]

variable {c} {d : Chart}

/-- Maps that are the same without names draw the same without names, from the same cells and styles. -/
theorem sameButNames_of_anonymous (same : c.anonymous = d.anonymous)
    (kinds : c.definitions.map referenceKinds = d.definitions.map referenceKinds) : SameButNames c d where
  options := congrArg (·.options) same
  orientation := congrArg (·.orientation) same
  regions := congrArg (·.regions) same
  styles := congrArg (·.styles) same
  bounds := congrArg (·.bounds?) same
  centre := congrArg (·.centre) same
  zoom := congrArg (·.options.zoom) same
  types := by rw [← types_anonymous, same, types_anonymous]
  paths := by
    have lines (e : Chart) : e.anonymous.paths.map Path.toPathLine = e.paths.map Path.toPathLine := List.map_map
    rw [← lines, same, lines]
  scene viewport := by rw [← anonymous_scene, same, anonymous_scene]
  references viewport := by rw [raws_scene, raws_scene, kinds]

/-- What a line adds to a map does not depend on the names that are there, but for names. -/
theorem anonymous_add (c : Chart) (line : Line) : (c.anonymous.add line).anonymous = (c.add line).anonymous := by
  cases line <;> simp [add, addPath, anonymous, Path.anonymous]

theorem anonymous_foldl_add (lines : List Line) (same : c.anonymous = d.anonymous) :
    (lines.foldl add c).anonymous = (lines.foldl add d).anonymous := by
  induction lines generalizing c d with
  | nil => exact same
  | cons line rest ih =>
    refine ih ?_
    rw [← anonymous_add, same, anonymous_add]

theorem anonymous_compile (name₁ name₂ : String) (source : List (List Char)) :
    (compile name₁ source).anonymous = (compile name₂ source).anonymous :=
  anonymous_foldl_add (content source) rfl

/-- Marking a definition keeps the kinds of its names. -/
theorem referenceKinds_definitions_compile {token : String} (h : IsToken token) (source : List (List Char)) :
    (compile token source).definitions.map referenceKinds =
      ((content source).filterMap Line.markup?).map referenceKinds := by
  have mark : IsMark (compile token source).scope.ending.toList := by
    rw [scope_compile]
    cases (readOptions source).global with
    | true => exact List.forall_mem_nil _
    | false =>
      rw [NameScope.ending_ofInstance h.nonempty]
      exact h.isMark
  rw [definitions_compile, List.map_map]
  exact List.map_congr_left fun markup _ => referenceKinds_marked mark markup

/-- A drawing does not show what its map is called, only how its names are marked. -/
theorem scene_eq_of_scope_eq (same : c.anonymous = d.anonymous) (scope : c.scope = d.scope)
    (paths : c.paths = d.paths)
    (definitions : c.definitions = d.definitions) (viewport : Viewport) : c.scene viewport = d.scene viewport := by
  have renamed : c = { d with instanceName := c.instanceName } := by
    have options : c.options = d.options := congrArg (·.options) same
    have regions : c.regions = d.regions := congrArg (·.regions) same
    have styles : c.styles = d.styles := congrArg (·.styles) same
    rw [← options, ← scope, ← regions, ← paths, ← styles, ← definitions]
  rw [renamed]
  rfl

theorem scene_compile_of_global {source : List (List Char)} (set : (readOptions source).global = true)
    (name₁ name₂ : String) (viewport : Viewport) :
    (compile name₁ source).scene viewport = (compile name₂ source).scene viewport := by
  have scope : (compile name₁ source).scope = (compile name₂ source).scope := by
    rw [scope_compile, scope_compile, set]
    rfl
  refine scene_eq_of_scope_eq (anonymous_compile _ _ _) scope ?_ ?_ viewport
  · rw [paths_compile, scope, ← paths_compile]
  · rw [definitions_compile, scope, ← definitions_compile]

/-- The token of a map goes into its names only. Under two tokens the maps of one source are the same but for names,
and if the source has the option for global names, their drawings are the same altogether. -/
theorem sameButNames_compile (name₁ name₂ : String) (source : List (List Char)) :
    let c := compile (instanceToken name₁) source
    let d := compile (instanceToken name₂) source
    SameButNames c d ∧
      ((∃ line ∈ source, settingOf? line = some .global) → ∀ viewport, c.scene viewport = d.scene viewport) := by
  intro c d
  refine ⟨sameButNames_of_anonymous (anonymous_compile _ _ source) ?_, fun set viewport => ?_⟩
  · rw [referenceKinds_definitions_compile (isToken_instanceToken name₁),
      referenceKinds_definitions_compile (isToken_instanceToken name₂)]
  · exact scene_compile_of_global (global_readOptions_iff.mpr set) _ _ viewport

end Chart
end HexAtlas
