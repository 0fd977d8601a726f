import HexAtlas.Proofs.Chart.Content
import HexAtlas.Proofs.Markup.DeclaredIds
import HexAtlas.Scene
import Mathlib.Data.List.Forall2

namespace HexAtlas

theorem forall₂_filterMap {α β : Type} {draw : α → Option β} {keep : α → Bool} {R : α → β → Prop} {items : List α}
    (kept : ∀ a ∈ items, (draw a).isSome = keep a) (drawn : ∀ a ∈ items, ∀ b, draw a = some b → R a b) :
    List.Forall₂ R (items.filter keep) (items.filterMap draw) := by
  induction items with
  | nil => exact .nil
  | cons a rest ih =>
    obtain ⟨keptHere, keptLater⟩ := List.forall_mem_cons.mp kept
    obtain ⟨drawnHere, drawnLater⟩ := List.forall_mem_cons.mp drawn
    have later := ih keptLater drawnLater
    cases found : draw a with
    | none =>
      rw [found] at keptHere
      rw [List.filterMap_cons_none found, List.filter_cons_of_neg (by simp [← keptHere])]
      exact later
    | some b =>
      rw [found] at keptHere
      rw [List.filterMap_cons_some found, List.filter_cons_of_pos keptHere.symm]
      exact .cons (drawnHere b found) later

theorem forall₂_map {α β : Type} {draw : α → β} {R : α → β → Prop} {items : List α}
    (drawn : ∀ a ∈ items, R a (draw a)) : List.Forall₂ R items (items.map draw) :=
  List.forall₂_map_right_iff.mpr (List.forall₂_same.mpr drawn)

theorem Orientation.viewbox?_isSome_iff (o : Orientation) (cells : List Hex) :
    (o.viewbox? cells).isSome ↔ cells ≠ [] := by
  cases cells with
  | nil => simp [viewbox?, Bounds.around?]
  | cons cell rest =>
    obtain ⟨corner, corners, whole⟩ : ∃ corner corners, o.corners = corner :: corners := by
      unfold corners
      cases o.layout <;> exact ⟨_, _, rfl⟩
    simp [viewbox?, whole, Bounds.around?]

/-- A curve takes two points. -/
theorem curveText?_isSome_iff (points : List Point) : (curveText? points).isSome ↔ 2 ≤ points.length := by
  match points with
  | [] => simp [curveText?, curve]
  | [_] => simp [curveText?, curve]
  | first :: second :: rest =>
    obtain ⟨command, commands, whole⟩ :
      ∃ command commands, curve (first :: second :: rest) = command :: commands := by
      simp only [curve]
      split <;> exact ⟨_, _, rfl⟩
    simp [curveText?, whole]

namespace Chart

/-- The walk of a path comes to a cell after its first one. The first one counts again if the walk comes back to
it. -/
def moves (c : Chart) (p : Path) : Bool := 2 ≤ (c.orientation.walk p.start p.steps).length

theorem length_pathPoints (c : Chart) (p : Path) :
    (c.pathPoints p).length = (c.orientation.walk p.start p.steps).length :=
  List.length_map _

theorem connector?_isSome (c : Chart) (p : Path) : (c.connector? p).isSome = c.moves p := by
  rw [connector?, Option.isSome_map, moves, ← length_pathPoints, Bool.eq_iff_iff, curveText?_isSome_iff,
    decide_eq_true_iff]

theorem pathLabel?_isSome (c : Chart) (p : Path) : (c.pathLabel? p).isSome = (p.label.isSome && c.moves p) := by
  rw [moves, ← length_pathPoints, pathLabel?]
  split
  · rename_i labelled points
    simp [labelled, points]
  · rename_i other
    cases labelled : p.label with
    | none => rfl
    | some label =>
      match points : c.pathPoints p with
      | [] => rfl
      | [_] => rfl
      | first :: second :: rest => exact absurd points (other label first second rest labelled)

theorem regionLabel?_isSome (c : Chart) (r : Region) : (c.regionLabel? r).isSome = r.label.isSome :=
  Option.isSome_map

/-- The text of a cell's coordinates. -/
structure IsCoordinates (c : Chart) (r : Region) (e : Element) : Prop where
  name : e.name = "text"
  content : e.children = [.text (c.options.formatCoordinates r.hex)]

/-- The six corners of a cell. -/
structure IsOutline (c : Chart) (r : Region) (e : Element) : Prop where
  name : e.name = "polygon"
  leaf : e.children = []
  points : e.attributes.get? "points" =
    some (pointsText
      (c.orientation.corners.map fun corner => (c.orientation.pixels r.hex).offset corner.x corner.y))

/-- A group of texts, at least one, that all are the label of the region. -/
structure IsRegionLabel (r : Region) (e : Element) : Prop where
  name : e.name = "g"
  filled : e.children ≠ []
  texts : ∀ node ∈ e.children, ∃ text : Element, node = text.toNode ∧ text.name = "text" ∧
    text.children = r.label.toList.map .text

/-- The curve through the cells of a path. -/
structure IsConnector (c : Chart) (p : Path) (e : Element) : Prop where
  name : e.name = "path"
  leaf : e.children = []
  curve : e.attributes.get? "d" = curveText? (c.pathPoints p)

/-- A group of texts, at least one, that all run along the path and are its label. -/
structure IsPathLabel (p : Path) (e : Element) : Prop where
  name : e.name = "g"
  filled : e.children ≠ []
  texts : ∀ node ∈ e.children, ∃ text along : Element, node = text.toNode ∧ text.name = "text" ∧
    text.children = [along.toNode] ∧ along.name = "textPath" ∧
    along.attributes.get? "href" = some ("#" ++ p.id) ∧ along.children = p.label.toList.map .text

variable (c : Chart)

theorem isCoordinates (r : Region) : c.IsCoordinates r (c.coordinates r) := ⟨rfl, rfl⟩

theorem isOutline (r : Region) : c.IsOutline r (c.outline r) :=
  ⟨rfl, rfl, (Table.get?_set _ _ _ _).trans (if_pos rfl)⟩

variable {c}

theorem isConnector {p : Path} {line : Element} (drawn : c.connector? p = some line) : c.IsConnector p line := by
  obtain ⟨d, curve, rfl⟩ := Option.map_eq_some_iff.mp drawn
  exact ⟨rfl, rfl, ((Table.get?_set _ _ _ _).trans (if_pos rfl)).trans curve.symm⟩

/-- A label is one text or, if there is a glow, two. -/
theorem children_withGlow (text : Attributes → Element) :
    (c.withGlow text).children ≠ [] ∧ ∀ node ∈ (c.withGlow text).children, ∃ extra, node = (text extra).toNode := by
  by_cases dark : c.styles.glow.isEmpty = true
  · have children : (c.withGlow text).children = [(text .empty).toNode] := by
      simp [withGlow, dark, Element.extend, Element.named]
    rw [children]
    exact ⟨List.cons_ne_nil _ _, List.forall_mem_singleton.mpr ⟨_, rfl⟩⟩
  · have children : (c.withGlow text).children = [(text c.styles.glow).toNode, (text .empty).toNode] := by
      simp [withGlow, dark, Element.extend, Element.named]
    rw [children]
    exact ⟨List.cons_ne_nil _ _, List.forall_mem_cons.mpr ⟨⟨_, rfl⟩, List.forall_mem_singleton.mpr ⟨_, rfl⟩⟩⟩

theorem isRegionLabel {r : Region} {label : Element} (drawn : c.regionLabel? r = some label) :
    IsRegionLabel r label := by
  obtain ⟨text, labelled, rfl⟩ := Option.map_eq_some_iff.mp drawn
  obtain ⟨filled, texts⟩ := c.children_withGlow _
  refine ⟨rfl, filled, fun node member => ?_⟩
  obtain ⟨extra, rfl⟩ := texts node member
  refine ⟨_, rfl, ?_⟩
  rw [labelled]
  cases r.size <;> exact ⟨rfl, rfl⟩

theorem isPathLabel {p : Path} {label : Element} (drawn : c.pathLabel? p = some label) : IsPathLabel p label := by
  rw [pathLabel?] at drawn
  split at drawn
  · rename_i text first second rest labelled _
    cases drawn
    obtain ⟨filled, texts⟩ := c.children_withGlow _
    refine ⟨rfl, filled, fun node member => ?_⟩
    obtain ⟨extra, rfl⟩ := texts node member
    refine ⟨_, _, rfl, rfl, rfl, ?_⟩
    rw [labelled]
    cases labelOnRight p (first :: second :: rest) <;> cases p.labelStart <;>
      simp [Element.text, Element.push, Element.attr, Element.named, Table.get?_set]
  · cases drawn

end Chart

/-- The layer holds one element for each item, in the order of the items, and nothing else. -/
def Element.HoldsEach {α : Type} (layer : Element) (items : List α) (drawing : α → Element → Prop) : Prop :=
  ∃ es : List Element, layer.children = es.map Element.toNode ∧ List.Forall₂ drawing items es

namespace Chart

/-- The parts of a drawing. -/
structure Parts where
  sheet : Option Element
  definitions : Element
  layer : Layer → Element

/-- The parts in the order of drawing. -/
def Parts.nodes (p : Parts) : List Node :=
  (p.sheet.toList ++ p.definitions :: Layer.all.map p.layer).map Element.toNode

/-- The parts are those of the map. A region or path that stands in the map twice is drawn twice. -/
structure LaidOut (c : Chart) (p : Parts) : Prop where
  sheet : p.sheet.isSome ↔ c.regions ≠ []
  rect : ∀ e ∈ p.sheet, e.name = "rect"
  definitions : p.definitions.name = "defs"
  group : ∀ l, (p.layer l).name = "g"
  id : ∀ l, (p.layer l).id? = some (c.scope.apply l.name)
  coordinates : (p.layer .coordinates).HoldsEach c.regions c.IsCoordinates
  outlines : (p.layer .regions).HoldsEach c.regions c.IsOutline
  labels : (p.layer .labels).HoldsEach (c.regions.filter (·.label.isSome)) IsRegionLabel
  connectors : (p.layer .paths).HoldsEach (c.paths.filter c.moves) c.IsConnector
  pathLabels : (p.layer .pathLabels).HoldsEach (c.paths.filter fun p => p.label.isSome && c.moves p) IsPathLabel

theorem children_layer (c : Chart) (l : Layer) :
    (c.layer l).children = (c.layerElements l).map Element.toNode := rfl

theorem children_scene_eq_nodes (c : Chart) (viewport : Viewport) :
    (c.scene viewport).children = (Parts.mk (c.bounds?.map sheet) c.definitionsElement c.layer).nodes := by
  have sheets : (c.bounds?.map Chart.sheet).toList = c.bounds?.toList.map Chart.sheet := by
    cases c.bounds? <;> rfl
  rw [Parts.nodes, sheets]
  rfl

/-- The parts of every map. -/
theorem laidOut (c : Chart) : c.LaidOut ⟨c.bounds?.map sheet, c.definitionsElement, c.layer⟩ where
  sheet := by
    rw [Option.isSome_map, bounds?, Orientation.viewbox?_isSome_iff, ne_eq, List.map_eq_nil_iff]
  rect e member := by
    obtain ⟨b, _, rfl⟩ := Option.map_eq_some_iff.mp member
    rfl
  definitions := rfl
  group _ := rfl
  id _ := rfl
  coordinates := ⟨_, c.children_layer _, forall₂_map fun r _ => c.isCoordinates r⟩
  outlines := ⟨_, c.children_layer _, forall₂_map fun r _ => c.isOutline r⟩
  labels := ⟨_, c.children_layer _,
    forall₂_filterMap (fun r _ => c.regionLabel?_isSome r) fun _ _ _ drawn => isRegionLabel drawn⟩
  connectors := ⟨_, c.children_layer _,
    forall₂_filterMap (fun p _ => c.connector?_isSome p) fun _ _ _ drawn => isConnector drawn⟩
  pathLabels := ⟨_, c.children_layer _,
    forall₂_filterMap (fun p _ => c.pathLabel?_isSome p) fun _ _ _ drawn => isPathLabel drawn⟩

end Chart
end HexAtlas
