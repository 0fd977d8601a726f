import HexAtlas.Proofs.Chart.Names
import HexAtlas.Proofs.Markup.DeclaredIds
import HexAtlas.Proofs.Markup.Marking
import HexAtlas.Scene
import Mathlib.Data.List.Basic

namespace HexAtlas

theorem Styles.Distinct.outline {s : Styles} (h : s.Distinct) : s.outline.Distinct := by
  rw [Styles.outline]
  cases found : s.fill.get? "default" with
  | none => exact Table.distinct_empty
  | some attributes => exact h.fill "default" attributes found

theorem Styles.Distinct.strokeOf {s : Styles} (h : s.Distinct) (kind : String) :
    ((s.stroke.get? kind).getD .empty).Distinct := by
  cases found : s.stroke.get? kind with
  | none => exact Table.distinct_empty
  | some attributes => exact h.stroke kind attributes found

namespace Chart

/-- The identifiers that a map gives out itself. -/
inductive MarkedId (c : Chart) : String → Prop
  | layer (l : Layer) : MarkedId c (c.scope.apply l.name)
  | outline {region : Region} (member : region ∈ c.regions) (bare : c.styles.outline.get? "id" = none) :
      MarkedId c (c.scope.apply region.id)
  | connector {path : Path} (member : path ∈ c.paths) (drawn : (c.connector? path).isSome)
      (bare : ((c.styles.stroke.get? path.kind).getD .empty).get? "id" = none) : MarkedId c path.id
  | symbol {type : String} (member : type ∈ c.types) (drawn : (c.symbol? type).isSome) :
      MarkedId c (c.scope.apply type)
  | definition {markup i : String} (member : markup ∈ c.definitions) (declared : i ∈ Node.rawIds markup) :
    MarkedId c i

/-- The identifiers that attribute lists give to the elements that they are merged into. -/
inductive StyledId (c : Chart) : String → Prop
  | coordinates {region : Region} {i : String} (member : region ∈ c.regions)
      (given : c.styles.text.get? "id" = some i) : StyledId c i
  | outline {region : Region} {i : String} (member : region ∈ c.regions)
      (given : c.styles.outline.get? "id" = some i) : StyledId c i
  | connector {path : Path} {i : String} (member : path ∈ c.paths) (drawn : (c.connector? path).isSome)
      (given : ((c.styles.stroke.get? path.kind).getD .empty).get? "id" = some i) : StyledId c i
  | regionLabel {region : Region} {i : String} (member : region ∈ c.regions)
    (drawn : (c.regionLabel? region).isSome)
      (given : c.styles.label.get? "id" = some i ∨ c.styles.glow.get? "id" = some i) : StyledId c i
  | pathLabel {path : Path} {i : String} (member : path ∈ c.paths) (drawn : (c.pathLabel? path).isSome)
      (given : c.styles.label.get? "id" = some i ∨ c.styles.glow.get? "id" = some i) : StyledId c i
  | halo {type i : String} (member : type ∈ c.types) (traced : (c.styles.geometry.get? type).isSome)
      (unfilled : c.styles.fill.get? type = none) (given : c.styles.glow.get? "id" = some i) : StyledId c i
  | cell {type i : String} {attributes : Attributes} (member : type ∈ c.types)
      (filled : c.styles.fill.get? type = some attributes) (given : attributes.get? "id" = some i) : StyledId c i
  | stroke {type i : String} (member : type ∈ c.types) (traced : (c.styles.geometry.get? type).isSome)
      (given : ((c.styles.stroke.get? type).getD .empty).get? "id" = some i) : StyledId c i

/-- The identifier that the attributes of its kind give to the line of a path. -/
def givenLineId? (c : Chart) (p : Path) : Option String := ((c.styles.stroke.get? p.kind).getD .empty).get? "id"

/-- The attributes of the texts of a label, which are two if there is a glow. -/
def labelStyles (c : Chart) : List Attributes :=
  (if c.styles.glow.isEmpty then [] else [c.styles.label.extend c.styles.glow]) ++ [c.styles.label]

/-- The attributes of the parts of a symbol. -/
def symbolStyles (c : Chart) (type : String) : List Attributes :=
  (if (c.styles.geometry.get? type).isSome && (c.styles.fill.get? type).isNone then [c.styles.glow] else []) ++
    (c.styles.fill.get? type).toList ++
    (if (c.styles.geometry.get? type).isSome then [(c.styles.stroke.get? type).getD .empty] else [])

theorem children_scene (c : Chart) (viewport : Viewport) :
    (c.scene viewport).children =
      (c.bounds?.toList.map sheet ++ c.definitionsElement :: Layer.all.map c.layer).map Element.toNode := rfl

theorem children_definitionsElement (c : Chart) :
    c.definitionsElement.children = c.definitions.map .raw ++
      (c.types.filterMap c.symbol?).map Element.toNode := rfl

@[simp] theorem id?_textAt (p : Point) : (textAt p).id? = none := by
  simp [textAt]

theorem declaredIds_useSymbol (c : Chart) (cell : Hex) (type : String) :
    (c.useSymbol cell type).declaredIds = [] := by
  simp [useSymbol]

theorem declaredIds_sheet (b : Bounds) : (sheet b).declaredIds = [] := by
  simp [sheet]

theorem declaredIds_root (c : Chart) (viewport : Viewport) : (c.root viewport).declaredIds = [] := by
  simp [root]

theorem Layer.mem_all (l : Layer) : l ∈ all := by
  cases l <;> decide

theorem declaredIds_layer (c : Chart) (l : Layer) :
    (c.layer l).declaredIds = c.scope.apply l.name :: (c.layerElements l).flatMap Element.declaredIds := by
  rw [layer, Element.declaredIds_extend, Element.declaredIds_named_id]
  rfl

theorem mem_declaredIds_layer {c : Chart} {l : Layer} {i : String} :
    i ∈ (c.layer l).declaredIds ↔ i = c.scope.apply l.name ∨ ∃ e ∈ c.layerElements l, i ∈ e.declaredIds := by
  rw [declaredIds_layer, List.mem_cons, List.mem_flatMap]

theorem declaredIds_definitionsElement (c : Chart) :
    c.definitionsElement.declaredIds =
      c.definitions.flatMap Node.rawIds ++ (c.types.filterMap c.symbol?).flatMap Element.declaredIds := by
  have unnamed : c.definitionsElement.id? = none := rfl
  rw [Element.declaredIds_eq, unnamed, children_definitionsElement, List.flatMap_append, List.flatMap_map,
    List.flatMap_map]
  rfl

theorem mem_declaredIds_definitionsElement {c : Chart} {i : String} :
    i ∈ c.definitionsElement.declaredIds ↔
      (∃ markup ∈ c.definitions, i ∈ Node.rawIds markup) ∨
      ∃ type ∈ c.types, ∃ group, c.symbol? type = some group ∧ i ∈ group.declaredIds := by
  rw [declaredIds_definitionsElement]
  simp only [List.mem_append, List.mem_flatMap, List.mem_filterMap]
  refine or_congr Iff.rfl ⟨?_, ?_⟩
  · rintro ⟨group, ⟨type, member, drawn⟩, declared⟩
    exact ⟨type, member, group, drawn, declared⟩
  · rintro ⟨type, member, group, drawn, declared⟩
    exact ⟨group, ⟨type, member, drawn⟩, declared⟩

/-- The root and the white sheet have no names. -/
theorem declaredIds_scene (c : Chart) (viewport : Viewport) :
    (c.scene viewport).declaredIds =
      c.definitionsElement.declaredIds ++ Layer.all.flatMap fun l => (c.layer l).declaredIds := by
  have sheets : (c.bounds?.toList.map sheet).flatMap Element.declaredIds = [] := by
    rw [List.flatMap_map, List.flatMap_eq_nil_iff]
    exact fun b _ => declaredIds_sheet b
  rw [scene, Element.declaredIds_extend, declaredIds_root, List.nil_append, List.flatMap_append, sheets,
    List.nil_append, List.flatMap_cons, List.flatMap_map]

theorem mem_declaredIds_scene_iff_part {c : Chart} {viewport : Viewport} {i : String} :
    i ∈ (c.scene viewport).declaredIds ↔
      i ∈ c.definitionsElement.declaredIds ∨ ∃ l, i ∈ (c.layer l).declaredIds := by
  rw [declaredIds_scene, List.mem_append, List.mem_flatMap]
  refine or_congr Iff.rfl ⟨?_, ?_⟩
  · rintro ⟨l, _, declared⟩
    exact ⟨l, declared⟩
  · rintro ⟨l, declared⟩
    exact ⟨l, Layer.mem_all l, declared⟩

theorem mem_declaredIds_scene_of_symbol {c : Chart} {viewport : Viewport} {type : String} {group : Element}
    {i : String}
    (member : type ∈ c.types) (drawn : c.symbol? type = some group) (declared : i ∈ group.declaredIds) :
    i ∈ (c.scene viewport).declaredIds :=
  mem_declaredIds_scene_iff_part.mpr
    (Or.inl (mem_declaredIds_definitionsElement.mpr (Or.inr ⟨type, member, group, drawn, declared⟩)))

theorem mem_declaredIds_scene_of_layer {c : Chart} {viewport : Viewport} {l : Layer} {e : Element} {i : String}
    (member : e ∈ c.layerElements l) (declared : i ∈ e.declaredIds) : i ∈ (c.scene viewport).declaredIds :=
  mem_declaredIds_scene_iff_part.mpr (Or.inr ⟨l, mem_declaredIds_layer.mpr (Or.inr ⟨e, member, declared⟩)⟩)

theorem exists_symbol_of_traced {c : Chart} {type : String} (traced : (c.styles.geometry.get? type).isSome) :
    ∃ group, c.symbol? type = some group := by
  obtain ⟨d, found⟩ := Option.isSome_iff_exists.mp traced
  simp [symbol?, found]

theorem exists_symbol_of_filled {c : Chart} {type : String} {attributes : Attributes}
    (filled : c.styles.fill.get? type = some attributes) : ∃ group, c.symbol? type = some group := by
  simp [symbol?, filled]

variable {c : Chart} (named : c.Named)

include named

theorem declaredIds_coordinates (region : Region) :
    (c.coordinates region).declaredIds = (c.styles.text.get? "id").toList := by
  rw [coordinates, Element.declaredIds_text, Element.declaredIds_of_children_nil rfl,
    Element.id?_attrs named.styles.text, id?_textAt, Option.or_none]

theorem declaredIds_outline (region : Region) :
    (c.outline region).declaredIds = [(c.styles.outline.get? "id").getD (c.scope.apply region.id)] := by
  rw [outline, Element.declaredIds_attr (by decide), Element.declaredIds_of_children_nil rfl,
    Element.id?_attrs named.styles.outline, Element.id?_attr, if_pos rfl]
  cases c.styles.outline.get? "id" <;> rfl

theorem mem_declaredIds_outline (region : Region) {i : String} :
    i ∈ (c.outline region).declaredIds ↔
      c.styles.outline.get? "id" = some i ∨ c.styles.outline.get? "id" = none ∧ i = c.scope.apply region.id := by
  rw [declaredIds_outline named, List.mem_singleton]
  cases c.styles.outline.get? "id" <;> simp [eq_comm]

theorem id?_connector {path : Path} {line : Element} (drawn : c.connector? path = some line) :
    line.id? = (c.givenLineId? path).or (some path.id) := by
  obtain ⟨d, _, rfl⟩ := Option.map_eq_some_iff.mp drawn
  rw [Element.id?_attr, if_neg (by decide), Element.id?_attrs (named.styles.strokeOf path.kind), Element.id?_attr,
    if_pos rfl, givenLineId?]

theorem declaredIds_connector {path : Path} {line : Element} (drawn : c.connector? path = some line) :
    line.declaredIds = [(c.givenLineId? path).getD path.id] := by
  have leaf : line.children = [] := by
    obtain ⟨d, _, rfl⟩ := Option.map_eq_some_iff.mp drawn
    rfl
  rw [Element.declaredIds_of_children_nil leaf, id?_connector named drawn]
  cases c.givenLineId? path <;> rfl

theorem mem_declaredIds_connector {path : Path} {line : Element} (drawn : c.connector? path = some line)
    {i : String} :
    i ∈ line.declaredIds ↔
      ((c.styles.stroke.get? path.kind).getD .empty).get? "id" = some i ∨
      ((c.styles.stroke.get? path.kind).getD .empty).get? "id" = none ∧ i = path.id := by
  rw [declaredIds_connector named drawn, List.mem_singleton, givenLineId?]
  cases ((c.styles.stroke.get? path.kind).getD .empty).get? "id" <;> simp [eq_comm]

/-- A label is drawn once, and once more behind itself if there is a glow. -/
theorem declaredIds_withGlow {text : Attributes → Element}
    (ids : ∀ extra : Attributes, extra.Distinct →
      (text extra).declaredIds = ((extra.get? "id").or (c.styles.label.get? "id")).toList) :
    (c.withGlow text).declaredIds = c.labelStyles.filterMap (·.get? "id") := by
  have front : (text .empty).declaredIds = (c.styles.label.get? "id").toList := ids .empty Table.distinct_empty
  have whole : (c.withGlow text).declaredIds =
      (if c.styles.glow.isEmpty then [] else (text c.styles.glow).declaredIds) ++ (text .empty).declaredIds := by
    rw [withGlow, Element.declaredIds_extend, Element.declaredIds_of_children_nil rfl]
    cases c.styles.glow.isEmpty <;> simp
  rw [whole, front, ids c.styles.glow named.styles.glow, ← Table.get?_extend named.styles.glow, labelStyles,
    List.filterMap_eq_flatMap_toList]
  cases c.styles.glow.isEmpty <;> simp

theorem mem_labelStyles_ids {i : String} :
    i ∈ c.labelStyles.filterMap (·.get? "id") ↔
      c.styles.label.get? "id" = some i ∨ c.styles.glow.get? "id" = some i := by
  by_cases dark : c.styles.glow.isEmpty = true
  · have unset : c.styles.glow.get? "id" = none := by
      rw [Table.get?, List.isEmpty_iff.mp dark]
      rfl
    simp [labelStyles, dark, unset]
  · have merged := Table.get?_extend named.styles.glow c.styles.label "id"
    cases given : c.styles.glow.get? "id" with
    | none => simp [labelStyles, dark, merged, given]
    | some own => simp [labelStyles, dark, merged, given, or_comm, eq_comm]

/-- The attributes of labels, and those of the glow after them, are merged into a text that has no name. -/
theorem declaredIds_labelText {e : Element} (unnamed : e.id? = none) (leaf : e.children = []) {extra : Attributes}
    (distinct : extra.Distinct) :
    ((e.attrs c.styles.label).attrs extra).declaredIds =
      ((extra.get? "id").or (c.styles.label.get? "id")).toList := by
  have text : ((e.attrs c.styles.label).attrs extra).children = [] := leaf
  rw [Element.declaredIds_of_children_nil text, Element.id?_attrs distinct, Element.id?_attrs named.styles.label,
    unnamed, Option.or_none]

theorem declaredIds_regionLabel {region : Region} {label : Element} (drawn : c.regionLabel? region = some label) :
    label.declaredIds = c.labelStyles.filterMap (·.get? "id") := by
  obtain ⟨text, _, rfl⟩ := Option.map_eq_some_iff.mp drawn
  refine declaredIds_withGlow named fun extra distinct => ?_
  cases region.size with
  | none => rw [Element.declaredIds_text, declaredIds_labelText named (id?_textAt _) rfl distinct]
  | some size =>
    rw [Element.declaredIds_text, Element.declaredIds_attr (by decide),
      declaredIds_labelText named (id?_textAt _) rfl distinct]

theorem mem_declaredIds_regionLabel {region : Region} {label : Element} (drawn : c.regionLabel? region = some label)
    {i : String} :
    i ∈ label.declaredIds ↔ c.styles.label.get? "id" = some i ∨ c.styles.glow.get? "id" = some i := by
  rw [declaredIds_regionLabel named drawn, mem_labelStyles_ids named]

theorem declaredIds_pathLabel {path : Path} {label : Element} (drawn : c.pathLabel? path = some label) :
    label.declaredIds = c.labelStyles.filterMap (·.get? "id") := by
  rw [pathLabel?] at drawn
  split at drawn
  · rename_i text first second rest _ _
    cases drawn
    refine declaredIds_withGlow named fun extra distinct => ?_
    rw [Element.declaredIds_child, declaredIds_labelText named (Element.id?_named _) rfl distinct,
      Element.declaredIds_text, List.append_right_eq_self]
    cases labelOnRight path (first :: second :: rest) <;> cases path.labelStart <;> simp
  · cases drawn

theorem mem_declaredIds_pathLabel {path : Path} {label : Element} (drawn : c.pathLabel? path = some label)
    {i : String} :
    i ∈ label.declaredIds ↔ c.styles.label.get? "id" = some i ∨ c.styles.glow.get? "id" = some i := by
  rw [declaredIds_pathLabel named drawn, mem_labelStyles_ids named]

theorem declaredIds_symbol {type : String} {group : Element} (drawn : c.symbol? type = some group) :
    group.declaredIds = c.scope.apply type :: (c.symbolStyles type).filterMap (·.get? "id") := by
  have stroke := named.styles.strokeOf type
  simp only [symbol?] at drawn
  split at drawn
  · cases drawn
  · cases drawn
    rw [Element.declaredIds_extend, Element.declaredIds_named_id, symbolStyles, List.filterMap_eq_flatMap_toList]
    -- Only a type without a fill has a halo.
    cases filled : c.styles.fill.get? type with
    | none =>
      cases traced : c.styles.geometry.get? type <;>
        simp [Element.declaredIds_named_attrs, named.styles.glow, stroke]
    | some attributes =>
      have fill := named.styles.fill type attributes filled
      cases traced : c.styles.geometry.get? type <;>
        simp [Element.declaredIds_named_attrs, fill, stroke]

theorem mem_declaredIds_symbol {type : String} {group : Element} (drawn : c.symbol? type = some group)
    {i : String} :
    i ∈ group.declaredIds ↔
      i = c.scope.apply type ∨
      ((c.styles.geometry.get? type).isSome ∧ c.styles.fill.get? type = none ∧ c.styles.glow.get? "id" = some i) ∨
      (∃ attributes, c.styles.fill.get? type = some attributes ∧ attributes.get? "id" = some i) ∨
      ((c.styles.geometry.get? type).isSome ∧
        ((c.styles.stroke.get? type).getD .empty).get? "id" = some i) := by
  rw [declaredIds_symbol named drawn, List.mem_cons, symbolStyles]
  cases c.styles.fill.get? type <;> cases c.styles.geometry.get? type <;> simp

theorem markedId_or_styledId_of_mem_definitionsElement {i : String} (h : i ∈ c.definitionsElement.declaredIds) :
    c.MarkedId i ∨ c.StyledId i := by
  rcases mem_declaredIds_definitionsElement.mp h with
    ⟨markup, member, declared⟩ | ⟨type, member, group, drawn, declared⟩
  · exact Or.inl (.definition member declared)
  · rcases (mem_declaredIds_symbol named drawn).mp declared with
      rfl | ⟨traced, unfilled, given⟩ | ⟨attributes, filled, given⟩ | ⟨traced, given⟩
    · exact Or.inl (.symbol member (Option.isSome_of_eq_some drawn))
    · exact Or.inr (.halo member traced unfilled given)
    · exact Or.inr (.cell member filled given)
    · exact Or.inr (.stroke member traced given)

theorem markedId_or_styledId_of_mem_layerElements {l : Layer} {e : Element} {i : String}
    (member : e ∈ c.layerElements l) (declared : i ∈ e.declaredIds) : c.MarkedId i ∨ c.StyledId i := by
  cases l with
  | backgrounds =>
    obtain ⟨region, _, used⟩ := List.mem_flatMap.mp member
    obtain ⟨type, _, rfl⟩ := List.mem_map.mp used
    rw [declaredIds_useSymbol] at declared
    cases declared
  | paths =>
    obtain ⟨path, listed, drawn⟩ := List.mem_filterMap.mp member
    have some := Option.isSome_of_eq_some drawn
    rcases (mem_declaredIds_connector named drawn).mp declared with given | ⟨bare, rfl⟩
    · exact Or.inr (.connector listed some given)
    · exact Or.inl (.connector listed some bare)
  | things =>
    obtain ⟨region, _, used⟩ := List.mem_flatMap.mp member
    obtain ⟨type, _, rfl⟩ := List.mem_map.mp used
    rw [declaredIds_useSymbol] at declared
    cases declared
  | coordinates =>
    obtain ⟨region, listed, rfl⟩ := List.mem_map.mp member
    rw [declaredIds_coordinates named, Option.mem_toList] at declared
    exact Or.inr (.coordinates listed declared)
  | regions =>
    obtain ⟨region, listed, rfl⟩ := List.mem_map.mp member
    rcases (mem_declaredIds_outline named region).mp declared with given | ⟨bare, rfl⟩
    · exact Or.inr (.outline listed given)
    · exact Or.inl (.outline listed bare)
  | pathLabels =>
    obtain ⟨path, listed, drawn⟩ := List.mem_filterMap.mp member
    have given := (mem_declaredIds_pathLabel named drawn).mp declared
    exact Or.inr (.pathLabel listed (Option.isSome_of_eq_some drawn) given)
  | labels =>
    obtain ⟨region, listed, drawn⟩ := List.mem_filterMap.mp member
    have given := (mem_declaredIds_regionLabel named drawn).mp declared
    exact Or.inr (.regionLabel listed (Option.isSome_of_eq_some drawn) given)

theorem mem_declaredIds_scene_of_markedId {viewport : Viewport} {i : String} (h : c.MarkedId i) :
    i ∈ (c.scene viewport).declaredIds := by
  cases h with
  | layer l => exact mem_declaredIds_scene_iff_part.mpr (Or.inr ⟨l, mem_declaredIds_layer.mpr (Or.inl rfl)⟩)
  | @outline region member bare =>
    have declared := (mem_declaredIds_outline named region).mpr (Or.inr ⟨bare, rfl⟩)
    exact mem_declaredIds_scene_of_layer (l := .regions) (List.mem_map_of_mem member) declared
  | @connector path member drawn bare =>
    obtain ⟨line, drawn⟩ := Option.isSome_iff_exists.mp drawn
    have declared := (mem_declaredIds_connector named drawn).mpr (Or.inr ⟨bare, rfl⟩)
    exact mem_declaredIds_scene_of_layer (l := .paths) (List.mem_filterMap.mpr ⟨path, member, drawn⟩) declared
  | symbol member drawn =>
    obtain ⟨group, drawn⟩ := Option.isSome_iff_exists.mp drawn
    exact mem_declaredIds_scene_of_symbol member drawn ((mem_declaredIds_symbol named drawn).mpr (Or.inl rfl))
  | definition member declared =>
    exact mem_declaredIds_scene_iff_part.mpr
      (Or.inl (mem_declaredIds_definitionsElement.mpr (Or.inl ⟨_, member, declared⟩)))

theorem mem_declaredIds_scene_of_styledId {viewport : Viewport} {i : String} (h : c.StyledId i) :
    i ∈ (c.scene viewport).declaredIds := by
  cases h with
  | @coordinates region _ member given =>
    refine mem_declaredIds_scene_of_layer (l := .coordinates) (List.mem_map_of_mem member) ?_
    rw [declaredIds_coordinates named]
    exact Option.mem_toList.mpr given
  | @outline region _ member given =>
    have declared := (mem_declaredIds_outline named region).mpr (Or.inl given)
    exact mem_declaredIds_scene_of_layer (l := .regions) (List.mem_map_of_mem member) declared
  | @connector path _ member drawn given =>
    obtain ⟨line, drawn⟩ := Option.isSome_iff_exists.mp drawn
    have declared := (mem_declaredIds_connector named drawn).mpr (Or.inl given)
    exact mem_declaredIds_scene_of_layer (l := .paths) (List.mem_filterMap.mpr ⟨path, member, drawn⟩) declared
  | @regionLabel region _ member drawn given =>
    obtain ⟨label, drawn⟩ := Option.isSome_iff_exists.mp drawn
    exact mem_declaredIds_scene_of_layer (l := .labels) (List.mem_filterMap.mpr ⟨region, member, drawn⟩)
      ((mem_declaredIds_regionLabel named drawn).mpr given)
  | @pathLabel path _ member drawn given =>
    obtain ⟨label, drawn⟩ := Option.isSome_iff_exists.mp drawn
    exact mem_declaredIds_scene_of_layer (l := .pathLabels) (List.mem_filterMap.mpr ⟨path, member, drawn⟩)
      ((mem_declaredIds_pathLabel named drawn).mpr given)
  | halo member traced unfilled given =>
    obtain ⟨group, drawn⟩ := exists_symbol_of_traced traced
    exact mem_declaredIds_scene_of_symbol member drawn
      ((mem_declaredIds_symbol named drawn).mpr (Or.inr (Or.inl ⟨traced, unfilled, given⟩)))
  | @cell _ _ attributes member filled given =>
    obtain ⟨group, drawn⟩ := exists_symbol_of_filled filled
    exact mem_declaredIds_scene_of_symbol member drawn
      ((mem_declaredIds_symbol named drawn).mpr (Or.inr (Or.inr (Or.inl ⟨attributes, filled, given⟩))))
  | stroke member traced given =>
    obtain ⟨group, drawn⟩ := exists_symbol_of_traced traced
    exact mem_declaredIds_scene_of_symbol member drawn
      ((mem_declaredIds_symbol named drawn).mpr (Or.inr (Or.inr (Or.inr ⟨traced, given⟩))))

/-- Every identifier of a drawing is given out by the map or by an attribute list, and all of these are declared. -/
theorem mem_declaredIds_scene {viewport : Viewport} {i : String} :
    i ∈ (c.scene viewport).declaredIds ↔ c.MarkedId i ∨ c.StyledId i := by
  constructor
  · intro declared
    rcases mem_declaredIds_scene_iff_part.mp declared with definition | ⟨l, inLayer⟩
    · exact markedId_or_styledId_of_mem_definitionsElement named definition
    · rcases mem_declaredIds_layer.mp inLayer with rfl | ⟨e, member, inElement⟩
      · exact Or.inl (.layer l)
      · exact markedId_or_styledId_of_mem_layerElements named member inElement
  · rintro (marked | styled)
    · exact mem_declaredIds_scene_of_markedId named marked
    · exact mem_declaredIds_scene_of_styledId named styled

/-- What a map gives out itself is a name of its scope. -/
theorem MarkedId.exists_apply (mark : IsMark c.scope.ending.toList) {i : String} (h : c.MarkedId i) :
    ∃ name, i = c.scope.apply name := by
  cases h with
  | layer l => exact ⟨_, rfl⟩
  | outline => exact ⟨_, rfl⟩
  | @connector path member => exact named.paths path member
  | symbol => exact ⟨_, rfl⟩
  | @definition markup _ member declared =>
    obtain ⟨original, rfl⟩ := named.definitions markup member
    rw [Node.rawIds, String.toList_ofList] at declared
    obtain ⟨r, kept, rfl⟩ := List.mem_map.mp declared
    have listed : (r.kind, r.name) ∈ names (pieces (c.scope.markNames original)) := by
      rw [← map_referencesFrom 0]
      exact List.mem_map_of_mem (List.mem_filter.mp kept).1
    rw [names_markNames mark] at listed
    obtain ⟨⟨kind, name⟩, _, same⟩ := List.mem_map.mp listed
    have text : joinTags name ++ c.scope.ending.toList = r.name := congrArg Prod.snd same
    exact ⟨String.ofList (joinTags name),
      by rw [NameScope.apply, ← text, String.ofList_append, String.ofList_toList]⟩

end Chart

end HexAtlas
