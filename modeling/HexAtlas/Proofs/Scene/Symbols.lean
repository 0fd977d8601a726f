import HexAtlas.Proofs.Chart.SortedSet
import HexAtlas.Proofs.Markup.Descendants
import HexAtlas.Proofs.Scene.DeclaredIds
import HexAtlas.Proofs.Scene.Layout
import HexAtlas.Proofs.Scene.OwnNames

namespace HexAtlas

/-- What the elements right inside an element refer to. -/
def Element.hrefs (e : Element) : List (Option String) := e.elements.map (·.attributes.get? "href")

/-- A leaf with one attribute that is computed; all others are those of a list. -/
structure Element.IsStyled (name : String) (given : Attributes) (key : String) (value : Option String)
    (e : Element) :
    Prop where
  name : e.name = name
  leaf : e.children = []
  computed : e.attributes.get? key = value
  styled : ∀ k ≠ key, e.attributes.get? k = given.get? k

theorem Element.isStyled {given : Attributes} (distinct : given.Distinct) (name key value : String) :
    (((named name).attrs given).attr key value).IsStyled name given key (some value) where
  name := rfl
  leaf := rfl
  computed := (Table.get?_set _ _ _ _).trans (if_pos rfl)
  styled k other := by
    have kept : (((named name).attrs given).attr key value).attributes.get? k =
        ((named name).attrs given).attributes.get? k :=
      (Table.get?_set _ _ _ _).trans (if_neg other)
    rw [kept]
    exact (Table.get?_extend distinct _ _).trans Option.or_none

/-- A tag in its place: one of the types on the line of a region. -/
structure PlacedTag where
  region : Region
  type : String

namespace Chart

/-- All tags of a map, in the order of the lines and of the words on each line. -/
def tags (c : Chart) : List PlacedTag := c.regions.flatMap fun r => r.types.map (PlacedTag.mk r)

/-- The tags whose type has attributes of a filled cell. -/
def backgroundTags (c : Chart) : List PlacedTag := c.tags.filter fun tag => (c.styles.fill.get? tag.type).isSome

/-- The tags whose type has none. -/
def thingTags (c : Chart) : List PlacedTag := c.tags.filter fun tag => (c.styles.fill.get? tag.type).isNone

/-- A reference to the symbol of a tag, in the middle of the cell. -/
structure IsUse (c : Chart) (tag : PlacedTag) (e : Element) : Prop where
  name : e.name = "use"
  leaf : e.children = []
  x : e.attributes.get? "x" = some (coordinateText (c.orientation.pixels tag.region.hex).x)
  y : e.attributes.get? "y" = some (coordinateText (c.orientation.pixels tag.region.hex).y)
  href : e.attributes.get? "href" = some (c.scope.href tag.type)

/-- The types of a map that have something to draw, each with its group. -/
def symbols (c : Chart) : List (String × Element) := c.types.filterMap fun type => (c.symbol? type).map (type, ·)

/-- What may stand in the group of a type. -/
structure SymbolParts where
  halo : Option Element
  cell : Option Element
  stroked : Option Element

def SymbolParts.nodes (p : SymbolParts) : List Node :=
  (p.halo.toList ++ p.cell.toList ++ p.stroked.toList).map Element.toNode

/-- The group of a type: the glow of an outline that has no fill, the filled cell, and the stroked outline. -/
structure IsSymbol (c : Chart) (type : String) (group : Element) (p : SymbolParts) : Prop where
  name : group.name = "g"
  id : group.id? = some (c.scope.apply type)
  children : group.children = p.nodes
  halo_iff : p.halo.isSome ↔ (c.styles.geometry.get? type).isSome ∧ c.styles.fill.get? type = none
  cell_iff : p.cell.isSome ↔ (c.styles.fill.get? type).isSome
  stroked_iff : p.stroked.isSome ↔ (c.styles.geometry.get? type).isSome
  halo : ∀ e ∈ p.halo, e.IsStyled "path" c.styles.glow "d" (c.styles.geometry.get? type)
  cell : ∀ e ∈ p.cell, ∀ given ∈ c.styles.fill.get? type,
    e.IsStyled "polygon" given "points" (some (pointsText c.orientation.corners))
  stroked : ∀ e ∈ p.stroked,
    e.IsStyled "path" ((c.styles.stroke.get? type).getD .empty) "d" (c.styles.geometry.get? type)

/-- Tags, references to symbols and symbols fit together: the two layers of references hold one for each tag, and
the definitions hold one group for each type in use that has a fill or an outline. -/
structure TagsDrawn (c : Chart) (p : Parts) (symbols : List (String × Element)) : Prop where
  id : ∀ l, (p.layer l).id? = some (c.scope.apply l.name)
  backgrounds : (p.layer .backgrounds).HoldsEach c.backgroundTags c.IsUse
  things : (p.layer .things).HoldsEach c.thingTags c.IsUse
  once : ((p.layer .backgrounds).hrefs ++ (p.layer .things).hrefs).Perm
    (c.tags.map fun tag => some (c.scope.href tag.type))
  name : p.definitions.name = "defs"
  definitions : p.definitions.children = c.definitions.map .raw ++ symbols.map fun s => s.2.toNode
  ascending : (symbols.map Prod.fst).Pairwise (· < ·)
  listed : ∀ type, type ∈ symbols.map Prod.fst ↔
    ((∃ tag ∈ c.tags, tag.type = type) ∨ ∃ path ∈ c.paths, path.kind = type) ∧
      ((c.styles.fill.get? type).isSome ∨ (c.styles.geometry.get? type).isSome)
  drawn : ∀ s ∈ symbols, ∃ parts, c.IsSymbol s.1 s.2 parts
  apart : (symbols.map fun s => s.2.id?).Nodup
  target : ∀ tag ∈ c.tags, (c.styles.fill.get? tag.type).isSome ∨ (c.styles.geometry.get? tag.type).isSome →
    ∃! s, s ∈ symbols ∧ s.2.id?.map ("#" ++ ·) = some (c.scope.href tag.type)

variable (c : Chart)

theorem isUse (tag : PlacedTag) : c.IsUse tag (c.useSymbol tag.region.hex tag.type) where
  name := rfl
  leaf := rfl
  x := by simp [useSymbol, Element.attr, Table.get?_set]
  y := by simp [useSymbol, Element.attr, Table.get?_set]
  href := by simp [useSymbol, Element.attr, Table.get?_set]

/-- The references to types of one sort, for all regions at once. -/
theorem flatMap_useSymbol (keep : String → Bool) :
    (c.regions.flatMap fun r => (r.types.filter keep).map (c.useSymbol r.hex)) =
      (c.tags.filter fun tag => keep tag.type).map fun tag => c.useSymbol tag.region.hex tag.type := by
  rw [tags, List.filter_flatMap, List.map_flatMap]
  refine List.flatMap_congr fun r _ => ?_
  rw [List.filter_map, List.map_map]
  rfl

/-- A type is drawn as a background exactly if it has attributes of a filled cell. -/
theorem isBackground_eq (s : Styles) : s.isBackground = fun type => (s.fill.get? type).isSome := rfl

theorem layerElements_backgrounds :
    c.layerElements .backgrounds = c.backgroundTags.map fun tag => c.useSymbol tag.region.hex tag.type := by
  have drawn := c.flatMap_useSymbol c.styles.isBackground
  have backgrounds : c.backgroundTags = c.tags.filter fun tag => c.styles.isBackground tag.type := by
    simp only [backgroundTags, isBackground_eq]
  rw [backgrounds]
  exact drawn

theorem layerElements_things :
    c.layerElements .things = c.thingTags.map fun tag => c.useSymbol tag.region.hex tag.type := by
  have drawn := c.flatMap_useSymbol fun type => !c.styles.isBackground type
  have things : c.thingTags = c.tags.filter fun tag => !c.styles.isBackground tag.type := by
    simp only [thingTags, isBackground_eq, Option.not_isSome]
  rw [things]
  exact drawn

theorem hrefs_layer {l : Layer} {tags : List PlacedTag}
    (h : c.layerElements l = tags.map fun tag => c.useSymbol tag.region.hex tag.type) :
    (c.layer l).hrefs = tags.map fun tag => some (c.scope.href tag.type) := by
  rw [Element.hrefs, Element.elements_of_children (c.children_layer l), h, List.map_map]
  exact List.map_congr_left fun tag _ => (c.isUse tag).href

/-- Every tag is a background or a thing, and none is both. -/
theorem backgroundTags_append_thingTags_perm : (c.backgroundTags ++ c.thingTags).Perm c.tags := by
  simp only [backgroundTags, thingTags, ← Option.not_isSome]
  exact List.filter_append_perm (fun tag : PlacedTag => (c.styles.fill.get? tag.type).isSome) c.tags

theorem symbol?_isSome_iff (type : String) :
    (c.symbol? type).isSome ↔ (c.styles.fill.get? type).isSome ∨ (c.styles.geometry.get? type).isSome := by
  rw [symbol?]
  cases c.styles.fill.get? type <;> cases c.styles.geometry.get? type <;> simp

theorem mem_symbols {type : String} {group : Element} :
    (type, group) ∈ c.symbols ↔ type ∈ c.types ∧ c.symbol? type = some group := by
  simp only [symbols, List.mem_filterMap, Option.map_eq_some_iff, Prod.mk.injEq]
  constructor
  · rintro ⟨type, member, group, drawn, rfl, rfl⟩
    exact ⟨member, drawn⟩
  · rintro ⟨member, drawn⟩
    exact ⟨type, member, group, drawn, rfl, rfl⟩

/-- The names of the groups are those types of the map that have one. -/
theorem map_fst_symbols : c.symbols.map Prod.fst = c.types.filter fun type => (c.symbol? type).isSome := by
  rw [symbols, List.map_filterMap]
  induction c.types with
  | nil => rfl
  | cons type rest ih =>
    cases drawn : c.symbol? type with
    | none => rw [List.filterMap_cons_none (by rw [drawn]; rfl), List.filter_cons_of_neg (by simp [drawn]), ih]
    | some group =>
      rw [List.filterMap_cons_some (by rw [drawn]; rfl), List.filter_cons_of_pos (by simp [drawn]), ih]

theorem map_snd_symbols : c.symbols.map Prod.snd = c.types.filterMap c.symbol? := by
  rw [symbols, List.map_filterMap]
  refine List.filterMap_congr fun type _ => ?_
  rw [Option.map_map]
  exact Option.map_id'

theorem mem_types_iff {type : String} :
    type ∈ c.types ↔ (∃ tag ∈ c.tags, tag.type = type) ∨ ∃ path ∈ c.paths, path.kind = type := by
  rw [types, mem_sortedSet, List.mem_append, List.mem_flatMap, List.mem_map, tags]
  refine or_congr ?_ Iff.rfl
  simp only [List.mem_flatMap, List.mem_map]
  constructor
  · rintro ⟨region, listed, member⟩
    exact ⟨⟨region, type⟩, ⟨region, listed, type, member, rfl⟩, rfl⟩
  · rintro ⟨_, ⟨region, listed, type, member, rfl⟩, rfl⟩
    exact ⟨region, listed, member⟩

theorem id?_of_symbol {c : Chart} {type : String} {group : Element} (drawn : c.symbol? type = some group) :
    group.id? = some (c.scope.apply type) := by
  simp only [symbol?] at drawn
  split at drawn
  · cases drawn
  · cases drawn
    rfl

/-- The groups have names of their own. -/
theorem nodup_ids_symbols : (c.symbols.map fun s => s.2.id?).Nodup := by
  have ids :
    (c.symbols.map fun s => s.2.id?) = (c.symbols.map Prod.fst).map fun type => some (c.scope.apply type) := by
    rw [List.map_map]
    refine List.map_congr_left fun s member => ?_
    exact id?_of_symbol (c.mem_symbols.mp member).2
  rw [ids, map_fst_symbols]
  refine List.Nodup.map (fun first second same => ?_) ((nodup_sortedSet _).filter _)
  exact c.scope.apply_injective (Option.some.inj same)

variable {c}

/-- The parts of the symbol of a type, by what the type has. -/
def symbolParts (c : Chart) (type : String) : SymbolParts where
  halo :=
    if (c.styles.fill.get? type).isSome then none
    else (c.styles.geometry.get? type).map fun d => ((Element.named "path").attrs c.styles.glow).attr "d" d
  cell := (c.styles.fill.get? type).map fun given =>
    ((Element.named "polygon").attrs given).attr "points" (pointsText c.orientation.corners)
  stroked := (c.styles.geometry.get? type).map fun d =>
    ((Element.named "path").attrs ((c.styles.stroke.get? type).getD .empty)).attr "d" d

theorem name_symbol {type : String} {group : Element} (drawn : c.symbol? type = some group) : group.name = "g" := by
  simp only [symbol?] at drawn
  split at drawn
  · cases drawn
  · cases drawn
    rfl

theorem children_symbol {type : String} {group : Element} (drawn : c.symbol? type = some group) :
    group.children = (c.symbolParts type).nodes := by
  simp only [symbol?] at drawn
  split at drawn
  · cases drawn
  · cases drawn
    cases filled : c.styles.fill.get? type <;> cases traced : c.styles.geometry.get? type <;>
      simp [SymbolParts.nodes, symbolParts, filled, traced, Element.extend, Element.attr, Element.named]

theorem isSymbol (distinct : c.styles.Distinct) {type : String} {group : Element}
    (drawn : c.symbol? type = some group) : c.IsSymbol type group (c.symbolParts type) where
  name := name_symbol drawn
  id := id?_of_symbol drawn
  children := children_symbol drawn
  halo_iff := by
    cases filled : c.styles.fill.get? type <;> simp [symbolParts, filled]
  cell_iff := by rw [symbolParts, Option.isSome_map]
  stroked_iff := by rw [symbolParts, Option.isSome_map]
  halo e member := by
    simp only [symbolParts] at member
    split at member
    · cases member
    · obtain ⟨d, traced, rfl⟩ := Option.map_eq_some_iff.mp member
      rw [traced]
      exact Element.isStyled distinct.glow _ _ _
  cell e member given filled := by
    obtain ⟨own, found, rfl⟩ := Option.map_eq_some_iff.mp member
    rw [Option.mem_def, found, Option.some.injEq] at filled
    subst filled
    exact Element.isStyled (distinct.fill type own found) _ _ _
  stroked e member := by
    obtain ⟨d, traced, rfl⟩ := Option.map_eq_some_iff.mp member
    rw [traced]
    exact Element.isStyled (distinct.strokeOf type) _ _ _

/-- A type has one symbol at most, so a name refers to one at most. -/
theorem existsUnique_target {type : String} {group : Element} (member : (type, group) ∈ c.symbols) :
    ∃! s, s ∈ c.symbols ∧ s.2.id?.map ("#" ++ ·) = some (c.scope.href type) := by
  have drawn := (c.mem_symbols.mp member).2
  refine ⟨(type, group), ⟨member, congrArg (Option.map _) (id?_of_symbol drawn)⟩, ?_⟩
  rintro ⟨other, otherGroup⟩ ⟨otherMember, same⟩
  have otherDrawn := (c.mem_symbols.mp otherMember).2
  have names : some (c.scope.href other) = some (c.scope.href type) := by
    rw [← same, id?_of_symbol otherDrawn]
    rfl
  obtain rfl : other = type := c.scope.href_injective (Option.some.inj names)
  rw [drawn] at otherDrawn
  rw [Option.some.inj otherDrawn]

theorem tagsDrawn (distinct : c.styles.Distinct) :
    c.TagsDrawn ⟨c.bounds?.map sheet, c.definitionsElement, c.layer⟩ c.symbols where
  id _ := rfl
  backgrounds := ⟨_, (c.children_layer _).trans (congrArg _ c.layerElements_backgrounds),
    forall₂_map fun tag _ => c.isUse tag⟩
  things :=
    ⟨_, (c.children_layer _).trans (congrArg _ c.layerElements_things), forall₂_map fun tag _ => c.isUse tag⟩
  once := by
    rw [hrefs_layer c c.layerElements_backgrounds, hrefs_layer c c.layerElements_things, ← List.map_append]
    exact c.backgroundTags_append_thingTags_perm.map _
  name := rfl
  definitions := by
    have groups : (c.types.filterMap c.symbol?).map Element.toNode = c.symbols.map fun s => s.2.toNode := by
      rw [← map_snd_symbols, List.map_map]
      rfl
    rw [← groups]
    rfl
  ascending := by
    rw [map_fst_symbols]
    exact (ascending_sortedSet _).filter _
  listed type := by rw [map_fst_symbols, List.mem_filter, c.mem_types_iff, c.symbol?_isSome_iff]
  drawn s member := ⟨_, isSymbol distinct (c.mem_symbols.mp member).2⟩
  apart := c.nodup_ids_symbols
  target tag member shown := by
    obtain ⟨group, drawn⟩ := Option.isSome_iff_exists.mp ((c.symbol?_isSome_iff tag.type).mpr shown)
    have used : tag.type ∈ c.types := c.mem_types_iff.mpr (Or.inl ⟨tag, member, rfl⟩)
    exact existsUnique_target (c.mem_symbols.mpr ⟨used, drawn⟩)

/-- Every tag on the lines of a map is drawn once, in the layer that its type belongs to. The definitions hold the
raw ones of the map in the order of their lines, and after them the symbols, one for each type in use that has any;
a tag of such a type refers to exactly one of them. -/
theorem exists_tagsDrawn_compile (instanceName : String) (source : List (List Char)) (viewport : Viewport) :
    let c := compile instanceName source
    c.regions = (content source).filterMap Line.region? ∧
      c.paths.map Path.toPathLine = (content source).filterMap Line.path? ∧
      c.definitions = ((content source).filterMap Line.markup?).map c.scope.marked ∧
      ∃ p : Parts, (c.scene viewport).children = p.nodes ∧ ∃ symbols, c.TagsDrawn p symbols := by
  intro c
  have named : c.Named := named_compile instanceName source
  refine ⟨regions_compile instanceName source, ?_, definitions_compile instanceName source, _,
    c.children_scene_eq_nodes viewport, _, tagsDrawn named.styles⟩
  rw [paths_compile, NameScope.map_numbered]

end Chart
end HexAtlas
