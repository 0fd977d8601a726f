import HexAtlas.Proofs.Scene.Symbols
import HexAtlas.Proofs.Theme

namespace HexAtlas
namespace Chart

variable {c : Chart}

/-- Every text of a path label runs along its path. -/
theorem IsPathLabel.alongs {p : Path} {label : Element} (h : IsPathLabel p label) :
    label.toNode.withTag "textPath" ≠ [] ∧
      ∀ along ∈ label.toNode.withTag "textPath", along.attributes.get? "href" = some ("#" ++ p.id) := by
  have group : label.name ≠ "textPath" := by
    rw [h.name]
    decide
  rw [Element.withTag_of_ne group, Element.descendantsNamed_eq]
  have each : ∀ node ∈ label.children, ∃ along : Element, node.withTag "textPath" = [along] ∧
      along.attributes.get? "href" = some ("#" ++ p.id) := by
    intro node member
    obtain ⟨text, along, rfl, name, children, alongName, href, texts⟩ := h.texts node member
    have plain : text.name ≠ "textPath" := by
      rw [name]
      decide
    refine ⟨along, ?_, href⟩
    rw [Element.withTag_of_ne plain, Element.descendantsNamed_eq, children, List.flatMap_singleton,
      Element.withTag_of_name alongName, Element.descendantsNamed_of_texts texts]
  constructor
  · obtain ⟨node, member⟩ := List.exists_mem_of_ne_nil _ h.filled
    obtain ⟨along, alone, _⟩ := each node member
    exact List.ne_nil_of_mem (List.mem_flatMap.mpr ⟨node, member, alone ▸ List.mem_singleton_self along⟩)
  · intro along member
    obtain ⟨node, listed, inside⟩ := List.mem_flatMap.mp member
    obtain ⟨other, alone, href⟩ := each node listed
    rw [alone] at inside
    rw [List.mem_singleton.mp inside]
    exact href

theorem withTag_coordinates (r : Region) : (c.coordinates r).toNode.withTag "textPath" = [] := by
  have content : (c.coordinates r).children = [c.options.formatCoordinates r.hex].map .text :=
    (c.isCoordinates r).content
  rw [Element.withTag_of_ne (by rw [(c.isCoordinates r).name]; decide)]
  exact Element.descendantsNamed_of_texts content

theorem withTag_outline (r : Region) : (c.outline r).toNode.withTag "textPath" = [] :=
  Element.withTag_leaf (c.isOutline r).leaf (by rw [(c.isOutline r).name]; decide)

theorem withTag_useSymbol (tag : PlacedTag) :
    (c.useSymbol tag.region.hex tag.type).toNode.withTag "textPath" = [] :=
  Element.withTag_leaf (c.isUse tag).leaf (by rw [(c.isUse tag).name]; decide)

theorem IsConnector.withTag {p : Path} {line : Element} (h : c.IsConnector p line) :
    line.toNode.withTag "textPath" = [] :=
  Element.withTag_leaf h.leaf (by rw [h.name]; decide)

theorem IsRegionLabel.withTag {r : Region} {label : Element} (h : IsRegionLabel r label) :
    label.toNode.withTag "textPath" = [] := by
  rw [Element.withTag_of_ne (by rw [h.name]; decide), Element.descendantsNamed_eq, List.flatMap_eq_nil_iff]
  intro node member
  obtain ⟨text, rfl, name, content⟩ := h.texts node member
  exact (Element.withTag_of_ne (by rw [name]; decide)).trans (Element.descendantsNamed_of_texts content)

/-- Only the layer of path labels has texts along paths. -/
theorem withTag_layer {l : Layer} (other : l ≠ .pathLabels) : (c.layer l).toNode.withTag "textPath" = [] := by
  have group : (c.layer l).name ≠ "textPath" := by
    show "g" ≠ "textPath"
    decide
  rw [Element.withTag_of_ne group, Element.descendantsNamed_of_children (c.children_layer l),
    List.flatMap_eq_nil_iff]
  intro e member
  cases l with
  | backgrounds =>
    rw [layerElements_backgrounds] at member
    obtain ⟨tag, _, rfl⟩ := List.mem_map.mp member
    exact withTag_useSymbol tag
  | paths =>
    obtain ⟨path, _, drawn⟩ := List.mem_filterMap.mp member
    exact (isConnector drawn).withTag
  | things =>
    rw [layerElements_things] at member
    obtain ⟨tag, _, rfl⟩ := List.mem_map.mp member
    exact withTag_useSymbol tag
  | coordinates =>
    obtain ⟨region, _, rfl⟩ := List.mem_map.mp member
    exact withTag_coordinates region
  | regions =>
    obtain ⟨region, _, rfl⟩ := List.mem_map.mp member
    exact withTag_outline region
  | pathLabels => exact absurd rfl other
  | labels =>
    obtain ⟨region, _, drawn⟩ := List.mem_filterMap.mp member
    exact (isRegionLabel drawn).withTag

/-- Nor have symbols: all that stands in one is a path or a polygon. -/
theorem IsSymbol.withTag {type : String} {group : Element} {parts : SymbolParts}
    (h : c.IsSymbol type group parts) : group.toNode.withTag "textPath" = [] := by
  rw [Element.withTag_of_ne (by rw [h.name]; decide), Element.descendantsNamed_of_children h.children,
    List.flatMap_eq_nil_iff]
  intro e member
  simp only [List.mem_append, Option.mem_toList] at member
  rcases member with (halo | cell) | stroked
  · have styled := h.halo e halo
    exact Element.withTag_leaf styled.leaf (by rw [styled.name]; decide)
  · obtain ⟨given, filled⟩ := Option.isSome_iff_exists.mp (h.cell_iff.mp (Option.isSome_of_mem cell))
    have styled := h.cell e cell given filled
    exact Element.withTag_leaf styled.leaf (by rw [styled.name]; decide)
  · have styled := h.stroked e stroked
    exact Element.withTag_leaf styled.leaf (by rw [styled.name]; decide)

theorem withTag_definitionsElement (distinct : c.styles.Distinct) :
    c.definitionsElement.toNode.withTag "textPath" = [] := by
  have defs : c.definitionsElement.name ≠ "textPath" := by
    show "defs" ≠ "textPath"
    decide
  rw [Element.withTag_of_ne defs, Element.descendantsNamed_eq, children_definitionsElement, List.flatMap_append,
    List.append_eq_nil_iff, List.flatMap_map, List.flatMap_map]
  refine ⟨List.flatMap_eq_nil_iff.mpr fun markup _ => rfl, List.flatMap_eq_nil_iff.mpr fun group member => ?_⟩
  obtain ⟨type, _, drawn⟩ := List.mem_filterMap.mp member
  exact (isSymbol distinct drawn).withTag

theorem withTag_sheet (b : Bounds) : (sheet b).toNode.withTag "textPath" = [] :=
  Element.withTag_leaf rfl (by show "rect" ≠ "textPath"; decide)

/-- The texts along paths are those of the path labels, in the order of the paths. -/
theorem descendantsNamed_scene (distinct : c.styles.Distinct) (viewport : Viewport) :
    (c.scene viewport).descendantsNamed "textPath" =
      (c.paths.filterMap c.pathLabel?).flatMap fun label => label.toNode.withTag "textPath" := by
  have sheets : (c.bounds?.toList.map sheet).flatMap (fun e => e.toNode.withTag "textPath") = [] := by
    rw [List.flatMap_map, List.flatMap_eq_nil_iff]
    exact fun b _ => withTag_sheet b
  have labels : (c.layer .pathLabels).toNode.withTag "textPath" =
      (c.paths.filterMap c.pathLabel?).flatMap fun label => label.toNode.withTag "textPath" := by
    have group : (c.layer .pathLabels).name ≠ "textPath" := by
      show "g" ≠ "textPath"
      decide
    rw [Element.withTag_of_ne group, Element.descendantsNamed_of_children (c.children_layer _)]
    rfl
  have layers : (Layer.all.map c.layer).flatMap (fun e => e.toNode.withTag "textPath") =
      (c.layer .pathLabels).toNode.withTag "textPath" := by
    simp [Layer.all, withTag_layer]
  rw [Element.descendantsNamed_of_children (c.children_scene viewport), List.flatMap_append, sheets,
    List.nil_append, List.flatMap_cons, withTag_definitionsElement distinct, List.nil_append, layers, labels]

/-- What a text along a path refers to is a line in the layer of paths. -/
def Attached (c : Chart) (along : Element) : Prop :=
  ∃ id, along.attributes.get? "href" = some ("#" ++ id) ∧ ∃ line ∈ (c.layer .paths).elements, line.id? = some id

theorem attached_iff {along : Element} {id : String} (href : along.attributes.get? "href" = some ("#" ++ id)) :
    c.Attached along ↔ ∃ path ∈ c.paths, ∃ line, c.connector? path = some line ∧ line.id? = some id := by
  have lines : (c.layer .paths).elements = c.paths.filterMap c.connector? :=
    Element.elements_of_children (c.children_layer .paths)
  constructor
  · rintro ⟨other, same, line, member, name⟩
    rw [href, Option.some.injEq, String.append_right_inj] at same
    subst same
    obtain ⟨path, listed, drawn⟩ := List.mem_filterMap.mp (lines ▸ member)
    exact ⟨path, listed, line, drawn, name⟩
  · rintro ⟨path, listed, line, drawn, name⟩
    exact ⟨id, href, line, lines ▸ List.mem_filterMap.mpr ⟨path, listed, drawn⟩, name⟩

/-- All texts of all labels are attached to a line exactly if every path that moves and has a label leaves its name
to some line. -/
theorem forall_attached_iff (distinct : c.styles.Distinct) (viewport : Viewport) :
    (∀ along ∈ (c.scene viewport).descendantsNamed "textPath", c.Attached along) ↔
      ∀ path ∈ c.paths, path.label.isSome → c.moves path →
        ∃ other ∈ c.paths, ∃ line, c.connector? other = some line ∧ line.id? = some path.id := by
  rw [descendantsNamed_scene distinct]
  constructor
  · intro attached path listed labelled moves
    have shown : (c.pathLabel? path).isSome := by
      rw [pathLabel?_isSome, labelled, moves]
      rfl
    obtain ⟨label, drawn⟩ := Option.isSome_iff_exists.mp shown
    obtain ⟨some, hrefs⟩ := (isPathLabel drawn).alongs
    obtain ⟨along, inside⟩ := List.exists_mem_of_ne_nil _ some
    refine (attached_iff (hrefs along inside)).mp (attached along ?_)
    exact List.mem_flatMap.mpr ⟨label, List.mem_filterMap.mpr ⟨path, listed, drawn⟩, inside⟩
  · intro named along member
    obtain ⟨label, shown, inside⟩ := List.mem_flatMap.mp member
    obtain ⟨path, listed, drawn⟩ := List.mem_filterMap.mp shown
    have some := Option.isSome_of_eq_some drawn
    rw [pathLabel?_isSome, Bool.and_eq_true] at some
    exact (attached_iff ((isPathLabel drawn).alongs.2 along inside)).mpr (named path listed some.1 some.2)

/-- The line of a path bears the name of `path` if the attributes of its kind say so, or if they are silent and it
is the line of `path` itself. -/
theorem exists_line_iff (named : c.Named) (apart : (c.paths.map Path.id).Nodup) {path : Path}
    (listed : path ∈ c.paths) (moves : c.moves path) :
    (∃ other ∈ c.paths, ∃ line, c.connector? other = some line ∧ line.id? = some path.id) ↔
      c.givenLineId? path = none ∨ ∃ other ∈ c.paths, c.moves other ∧ c.givenLineId? other = some path.id := by
  constructor
  · rintro ⟨other, otherListed, line, drawn, name⟩
    rw [id?_connector named drawn, Option.or_eq_some_iff] at name
    rcases name with given | ⟨silent, own⟩
    · have otherMoves := Option.isSome_of_eq_some drawn
      rw [connector?_isSome] at otherMoves
      exact Or.inr ⟨other, otherListed, otherMoves, given⟩
    · obtain rfl : other = path := List.inj_on_of_nodup_map apart otherListed listed (Option.some.inj own)
      exact Or.inl silent
  · have drawnOf {p : Path} (moving : c.moves p) : ∃ line, c.connector? p = some line := by
      rw [← Option.isSome_iff_exists, connector?_isSome, moving]
    rintro (silent | ⟨other, otherListed, otherMoves, given⟩)
    · obtain ⟨line, drawn⟩ := drawnOf moves
      exact ⟨path, listed, line, drawn, by rw [id?_connector named drawn, silent, Option.none_or]⟩
    · obtain ⟨line, drawn⟩ := drawnOf otherMoves
      exact ⟨other, otherListed, line, drawn, by rw [id?_connector named drawn, given, Option.some_or]⟩

/-- The labels of a map are all attached to lines exactly if no path that has a label loses its name: the attributes
of its kind give no other one to its line, or by chance those of some path give that very name. -/
theorem forall_attached_compileThemed_iff (instanceName : String) (text : List Char) (given : Theme)
    (viewport : Viewport) :
    let c := compileThemed instanceName text given
    (∀ along ∈ (c.scene viewport).descendantsNamed "textPath", c.Attached along) ↔
      ∀ path ∈ c.paths, path.label.isSome → c.moves path →
        c.givenLineId? path = none ∨ ∃ other ∈ c.paths, c.moves other ∧ c.givenLineId? other = some path.id := by
  intro c
  have named : c.Named := named_compileThemed instanceName text given
  have apart : (c.paths.map Path.id).Nodup := nodup_ids_compile instanceName _
  rw [forall_attached_iff named.styles]
  refine forall₄_congr fun path listed _ moves => ?_
  exact exists_line_iff named apart listed moves

/-- The attributes of roads give a name to the line, and the label refers to the name that the line would have. -/
theorem exists_not_attached :
    let text := "road path attributes id=\"main\"\n0101-0102 road \"Old Road\"\n".toList
    let c := compileThemed "m" text .plain
    ∃ along ∈ (c.scene .standard).descendantsNamed "textPath", ¬c.Attached along := by
  intro text c
  have lines : (c.layer .paths).elements.map Element.id? = [some "main"] := by decide +kernel
  have hrefs : ((c.scene .standard).descendantsNamed "textPath").map (·.attributes.get? "href") =
      [some "#path-1-m"] := by decide +kernel
  obtain ⟨along, member, href⟩ := List.mem_map.mp (hrefs ▸ List.mem_singleton_self (some "#path-1-m"))
  refine ⟨along, member, ?_⟩
  rintro ⟨id, same, line, listed, name⟩
  have main : some id = some "main" := by
    rw [← List.mem_singleton, ← lines, ← name]
    exact List.mem_map_of_mem listed
  rw [href, Option.some.inj main] at same
  exact absurd same (by decide)

end Chart
end HexAtlas
