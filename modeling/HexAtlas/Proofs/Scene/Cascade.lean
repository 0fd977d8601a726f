import HexAtlas.Proofs.Scene.Symbols

namespace HexAtlas

namespace Table

variable {α : Type}

def single (key : String) (value : α) : Table α := ⟨[(key, value)]⟩

/-- The value of a key in the first of some tables that has the key. -/
def first? (tables : List (Table α)) (key : String) : Option α := tables.findSome? (·.get? key)

theorem first?_cons (t : Table α) (tables : List (Table α)) (key : String) :
    first? (t :: tables) key = (t.get? key).or (first? tables key) := by
  rw [first?, List.findSome?_cons]
  cases t.get? key <;> rfl

theorem get?_single (key : String) (value : α) (k : String) :
    (single key value).get? k = if k = key then some value else none :=
  lookup_cons k key value []

end Table

namespace Element

/-- The attributes of an element, each once, come from the lists `sources`, of which the first one that has a key
decides. -/
structure Cascades (sources : List Attributes) (e : Element) : Prop where
  distinct : e.attributes.Distinct
  value : ∀ key, e.attributes.get? key = Table.first? sources key

theorem cascades_named (name : String) : (named name).Cascades [] := ⟨Table.distinct_empty, fun _ => rfl⟩

variable {sources : List Attributes} {e : Element}

theorem Cascades.attr (h : e.Cascades sources) (key value : String) :
    (e.attr key value).Cascades (.single key value :: sources) where
  distinct := h.distinct.set key value
  value k := by
    rw [Element.attr, Table.get?_set, Table.first?_cons, Table.get?_single, h.value]
    split <;> rfl

theorem Cascades.attrs (h : e.Cascades sources) {given : Attributes} (distinct : given.Distinct) :
    (e.attrs given).Cascades (given :: sources) where
  distinct := h.distinct.setAll given.entries
  value k := by rw [Element.attrs, Table.get?_extend distinct, Table.first?_cons, h.value]

/-- What stands inside an element makes no difference. -/
theorem Cascades.push (h : e.Cascades sources) (node : Node) : (e.push node).Cascades sources :=
  ⟨h.distinct, h.value⟩

end Element

namespace Chart

/-- The outline of a cell. The style may change its name but not its corners. -/
structure IsStyledOutline (c : Chart) (r : Region) (e : Element) : Prop where
  name : e.name = "polygon"
  leaf : e.children = []
  cascades : e.Cascades [
    .single "points" (pointsText (c.orientation.corners.map fun corner =>
      (c.orientation.pixels r.hex).offset corner.x corner.y)),
    c.styles.outline,
    .single "id" (c.scope.apply r.id)]

/-- The line of a path. The style may change its name but not its curve. -/
structure IsStyledConnector (c : Chart) (p : Path) (e : Element) : Prop where
  name : e.name = "path"
  leaf : e.children = []
  cascades : ∃ d, curveText? (c.pathPoints p) = some d ∧ e.Cascades [
    .single "d" d,
    (c.styles.stroke.get? p.kind).getD .empty,
    .single "id" p.id]

/-- What the place of a text gives it. -/
def placing (p : Point) : Attributes :=
  ⟨[("text-anchor", "middle"), ("x", coordinateText p.x), ("y", coordinateText p.y)]⟩

/-- A text that is the label of a region. Nothing comes before the size of the label. -/
structure IsRegionText (c : Chart) (r : Region) (glow : List Attributes) (e : Element) : Prop where
  name : e.name = "text"
  content : e.children = r.label.toList.map .text
  cascades : e.Cascades (r.size.toList.map (.single "font-size") ++ glow ++
    [c.styles.label, placing ((c.orientation.pixels r.hex).offset 0 c.orientation.textOffset)])

/-- A text that is the label of a path and runs along it. -/
structure IsPathText (c : Chart) (p : Path) (glow : List Attributes) (e : Element) : Prop where
  name : e.name = "text"
  content : ∃ along : Element, e.children = [along.toNode] ∧ along.name = "textPath" ∧
    along.children = p.label.toList.map .text
  cascades : e.Cascades (glow ++ [c.styles.label])

/-- A label: its text, which the glow has no part in, and, if there is a glow, a backdrop that the glow is part
of. -/
structure IsGlowing (c : Chart) (text : List Attributes → Element → Prop) (group : Element)
    (backdrop : Option Element) (front : Element) : Prop where
  name : group.name = "g"
  children : group.children = (backdrop.toList ++ [front]).map Element.toNode
  backdrop_iff : backdrop.isSome ↔ c.styles.glow.entries ≠ []
  backdrop : ∀ e ∈ backdrop, text [c.styles.glow] e
  front : text [] front

/-- Everything that the styles have a part in. -/
structure Styled (c : Chart) (p : Parts) (symbols : List (String × Element)) : Prop where
  outlines : (p.layer .regions).HoldsEach c.regions c.IsStyledOutline
  connectors : (p.layer .paths).HoldsEach (c.paths.filter c.moves) c.IsStyledConnector
  labels : (p.layer .labels).HoldsEach (c.regions.filter (·.label.isSome)) fun r group =>
    ∃ backdrop front, c.IsGlowing (c.IsRegionText r) group backdrop front
  pathLabels : (p.layer .pathLabels).HoldsEach (c.paths.filter fun p => p.label.isSome && c.moves p) fun p group =>
    ∃ backdrop front, c.IsGlowing (c.IsPathText p) group backdrop front
  definitions : p.definitions.children = c.definitions.map .raw ++ symbols.map fun s => s.2.toNode
  symbols : ∀ s ∈ symbols, ∃ parts, c.IsSymbol s.1 s.2 parts

variable {c : Chart}

theorem isStyledOutline (distinct : c.styles.Distinct) (r : Region) : c.IsStyledOutline r (c.outline r) where
  name := rfl
  leaf := rfl
  cascades := (((Element.cascades_named _).attr _ _).attrs distinct.outline).attr _ _

theorem isStyledConnector (distinct : c.styles.Distinct) {p : Path} {line : Element}
    (drawn : c.connector? p = some line) : c.IsStyledConnector p line := by
  obtain ⟨d, curve, rfl⟩ := Option.map_eq_some_iff.mp drawn
  have cascades := (((Element.cascades_named "path").attr "id" p.id).attrs (distinct.strokeOf p.kind)).attr "d" d
  exact ⟨rfl, rfl, d, curve, cascades⟩

theorem cascades_textAt (p : Point) : (textAt p).Cascades [placing p] := by
  have placed : (textAt p).attributes = placing p := by
    simp [textAt, placing, Element.attr, Element.named, Table.set, Table.setIn, Table.empty]
  refine ⟨?_, fun key => ?_⟩
  · rw [placed]
    exact (by decide : ["text-anchor", "x", "y"].Nodup)
  · rw [placed, Table.first?_cons]
    exact Option.or_none.symm

/-- The attributes that a text takes from the glow, as such and as a list: all of them behind a label, none in
front. -/
inductive IsGlowPart (c : Chart) : Attributes → List Attributes → Prop
  | backdrop : IsGlowPart c c.styles.glow [c.styles.glow]
  | front : IsGlowPart c .empty []

theorem IsGlowPart.cascades {extra : Attributes} {glow : List Attributes} (part : c.IsGlowPart extra glow)
    (distinct : c.styles.Distinct) {sources : List Attributes} {e : Element} (h : e.Cascades sources) :
    (e.attrs extra).Cascades (glow ++ sources) := by
  cases part with
  | backdrop => exact h.attrs distinct.glow
  | front => exact h

theorem isGlowing {text : List Attributes → Element → Prop} {draw : Attributes → Element}
    (drawn : ∀ extra glow, c.IsGlowPart extra glow → text glow (draw extra)) :
    ∃ backdrop front, c.IsGlowing text (c.withGlow draw) backdrop front := by
  have front := drawn _ _ .front
  by_cases dark : c.styles.glow.entries = []
  · have plain : c.styles.glow.isEmpty = true := List.isEmpty_iff.mpr dark
    refine ⟨none, draw .empty, rfl, ?_, by simp [dark], nofun, front⟩
    simp [withGlow, plain, Element.extend, Element.named]
  · have lit : c.styles.glow.isEmpty = false := List.isEmpty_eq_false_iff.mpr dark
    refine ⟨some (draw c.styles.glow), draw .empty, rfl, ?_, by simp [dark], ?_, front⟩
    · simp [withGlow, lit, Element.extend, Element.named]
    · rintro e ⟨⟩
      exact drawn _ _ .backdrop

theorem isGlowing_regionLabel (distinct : c.styles.Distinct) {r : Region} {group : Element}
    (drawn : c.regionLabel? r = some group) :
    ∃ backdrop front, c.IsGlowing (c.IsRegionText r) group backdrop front := by
  obtain ⟨label, labelled, rfl⟩ := Option.map_eq_some_iff.mp drawn
  refine isGlowing fun extra glow part => ?_
  have styled := part.cascades distinct ((cascades_textAt
    ((c.orientation.pixels r.hex).offset 0 c.orientation.textOffset)).attrs distinct.label)
  -- the size is set after everything else, if there is one
  cases sized : r.size with
  | none => exact ⟨rfl, by rw [labelled]; rfl, by rw [sized]; exact styled.push _⟩
  | some size =>
    exact ⟨rfl, by rw [labelled]; rfl, by rw [sized]; exact (styled.attr "font-size" size).push _⟩

theorem isGlowing_pathLabel (distinct : c.styles.Distinct) {p : Path} {group : Element}
    (drawn : c.pathLabel? p = some group) :
    ∃ backdrop front, c.IsGlowing (c.IsPathText p) group backdrop front := by
  rw [pathLabel?] at drawn
  split at drawn
  · rename_i label first second rest labelled _
    cases drawn
    refine isGlowing fun extra glow part => ?_
    have styled := part.cascades distinct ((Element.cascades_named "text").attrs distinct.label)
    refine ⟨rfl, ⟨_, rfl, ?_⟩, styled.push _⟩
    rw [labelled]
    cases labelOnRight p (first :: second :: rest) <;> cases p.labelStart <;> exact ⟨rfl, rfl⟩
  · cases drawn

/-- In every drawing each key of each element has the value that the order of precedence gives it, whatever keys the
styles set: shapes keep their corners and curves, labels their size and their text, and the glow touches only the
backdrops. The styles hold each key once, as all tables do that are made by settings. -/
theorem exists_styled_scene (c : Chart) (distinct : c.styles.Distinct) (viewport : Viewport) :
    ∃ p : Parts, (c.scene viewport).children = p.nodes ∧ ∃ symbols, c.Styled p symbols := by
  have drawn := tagsDrawn distinct
  refine ⟨_, c.children_scene_eq_nodes viewport, c.symbols, ?_⟩
  exact {
    outlines := ⟨_, c.children_layer _, forall₂_map fun r _ => isStyledOutline distinct r⟩
    connectors := ⟨_, c.children_layer _, forall₂_filterMap (fun p _ => c.connector?_isSome p)
      fun _ _ _ line => isStyledConnector distinct line⟩
    labels := ⟨_, c.children_layer _, forall₂_filterMap (fun r _ => c.regionLabel?_isSome r)
      fun _ _ _ label => isGlowing_regionLabel distinct label⟩
    pathLabels := ⟨_, c.children_layer _, forall₂_filterMap (fun p _ => c.pathLabel?_isSome p)
      fun _ _ _ label => isGlowing_pathLabel distinct label⟩
    definitions := drawn.definitions
    symbols := drawn.drawn }

/-- Styles that set the corners of cells, the curve of a path, and the place and size of labels. -/
theorem exists_styled_scene_clashing :
    let source := ["default attributes points=\"0,0\"", "hill attributes points=\"1,1\"", "hill path M0,0",
      "road path attributes d=\"M1,1\"", "label font-size=\"20pt\" x=\"1\"",
        "glow font-size=\"9pt\" stroke=\"white\"",
      "0101 hill \"Peak\" 30", "0101-0102 road \"Old Road\""].map String.toList
    let c := compile "m" source
    c.styles.Distinct ∧ c.styles.outline.get? "points" = some "0,0" ∧ c.regions.map (·.size) = [some "30"] ∧
      ∃ p : Parts, (c.scene .standard).children = p.nodes ∧ ∃ symbols, c.Styled p symbols := by
  intro source c
  have distinct : c.styles.Distinct := (named_compile "m" source).styles
  have clash : c.styles.outline.get? "points" = some "0,0" := by decide +kernel
  have sized : c.regions.map (·.size) = [some "30"] := by decide +kernel
  exact ⟨distinct, clash, sized, exists_styled_scene c distinct .standard⟩

end Chart
end HexAtlas
