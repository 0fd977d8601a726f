import HexAtlas.Proofs.Chart.Content
import HexAtlas.Proofs.Command.InstanceToken
import HexAtlas.Proofs.Markup.WellFormed
import HexAtlas.Proofs.Scene.DeclaredIds

namespace HexAtlas
namespace Chart

/-- The attribute lists that are merged into the elements of a drawing. -/
inductive Merged (c : Chart) : Attributes → Prop
  | coordinates {region : Region} (member : region ∈ c.regions) : Merged c c.styles.text
  | outline {region : Region} (member : region ∈ c.regions) : Merged c c.styles.outline
  | connector {path : Path} (member : path ∈ c.paths) (drawn : (c.connector? path).isSome) :
      Merged c ((c.styles.stroke.get? path.kind).getD .empty)
  | regionLabel {region : Region} {attributes : Attributes} (member : region ∈ c.regions)
      (drawn : (c.regionLabel? region).isSome) (given : attributes = c.styles.label ∨ attributes = c.styles.glow) :
      Merged c attributes
  | pathLabel {path : Path} {attributes : Attributes} (member : path ∈ c.paths) (drawn : (c.pathLabel? path).isSome)
      (given : attributes = c.styles.label ∨ attributes = c.styles.glow) : Merged c attributes
  | halo {type : String} (member : type ∈ c.types) (traced : (c.styles.geometry.get? type).isSome)
      (unfilled : c.styles.fill.get? type = none) : Merged c c.styles.glow
  | cell {type : String} {attributes : Attributes} (member : type ∈ c.types)
      (filled : c.styles.fill.get? type = some attributes) : Merged c attributes
  | stroke {type : String} (member : type ∈ c.types) (traced : (c.styles.geometry.get? type).isSome) :
      Merged c ((c.styles.stroke.get? type).getD .empty)

/-- The elements in the layers of a drawing. -/
inductive Drawn (c : Chart) : Element → Prop
  | symbol (cell : Hex) (type : String) : Drawn c (c.useSymbol cell type)
  | connector {path : Path} {line : Element} (member : path ∈ c.paths) (drawn : c.connector? path = some line) :
      Drawn c line
  | coordinates {region : Region} (member : region ∈ c.regions) : Drawn c (c.coordinates region)
  | outline {region : Region} (member : region ∈ c.regions) : Drawn c (c.outline region)
  | pathLabel {path : Path} {label : Element} (member : path ∈ c.paths) (drawn : c.pathLabel? path = some label) :
      Drawn c label
  | regionLabel {region : Region} {label : Element} (member : region ∈ c.regions)
      (drawn : c.regionLabel? region = some label) : Drawn c label

variable {c : Chart}

theorem drawn_of_mem_layerElements {l : Layer} {e : Element} (member : e ∈ c.layerElements l) : c.Drawn e := by
  cases l with
  | backgrounds =>
    obtain ⟨region, _, used⟩ := List.mem_flatMap.mp member
    obtain ⟨type, _, rfl⟩ := List.mem_map.mp used
    exact .symbol region.hex type
  | paths =>
    obtain ⟨path, listed, drawn⟩ := List.mem_filterMap.mp member
    exact .connector listed drawn
  | things =>
    obtain ⟨region, _, used⟩ := List.mem_flatMap.mp member
    obtain ⟨type, _, rfl⟩ := List.mem_map.mp used
    exact .symbol region.hex type
  | coordinates =>
    obtain ⟨region, listed, rfl⟩ := List.mem_map.mp member
    exact .coordinates listed
  | regions =>
    obtain ⟨region, listed, rfl⟩ := List.mem_map.mp member
    exact .outline listed
  | pathLabels =>
    obtain ⟨path, listed, drawn⟩ := List.mem_filterMap.mp member
    exact .pathLabel listed drawn
  | labels =>
    obtain ⟨region, listed, drawn⟩ := List.mem_filterMap.mp member
    exact .regionLabel listed drawn

theorem raws_withGlow {text : Attributes → Element} (rawless : ∀ extra, (text extra).raws = []) :
    (c.withGlow text).raws = [] := by
  cases dark : c.styles.glow.isEmpty <;> simp [withGlow, dark, rawless]

theorem raws_symbol {type : String} {group : Element} (drawn : c.symbol? type = some group) : group.raws = [] := by
  simp only [symbol?] at drawn
  split at drawn
  · cases drawn
  · cases drawn
    cases c.styles.fill.get? type <;> cases c.styles.geometry.get? type <;> simp

theorem Drawn.raws {e : Element} (h : c.Drawn e) : e.raws = [] := by
  cases h with
  | symbol => simp [useSymbol]
  | connector _ drawn =>
    obtain ⟨d, _, rfl⟩ := Option.map_eq_some_iff.mp drawn
    simp
  | coordinates => simp [Chart.coordinates, textAt]
  | outline => simp [Chart.outline]
  | @pathLabel path _ _ drawn =>
    rw [pathLabel?] at drawn
    split at drawn
    · cases drawn
      refine raws_withGlow fun extra => ?_
      cases labelOnRight path _ <;> cases path.labelStart <;> simp
    · cases drawn
  | @regionLabel region _ _ drawn =>
    obtain ⟨text, _, rfl⟩ := Option.map_eq_some_iff.mp drawn
    refine raws_withGlow fun extra => ?_
    cases region.size <;> simp [textAt]

/-- Only the definitions of a map are drawn as they are. -/
theorem raws_scene (viewport : Viewport) : (c.scene viewport).raws = c.definitions := by
  have definitions : c.definitionsElement.raws = c.definitions := by
    have symbols : ((c.types.filterMap c.symbol?).map Element.toNode).flatMap Node.raws = [] := by
      rw [List.flatMap_map, List.flatMap_eq_nil_iff]
      intro group member
      obtain ⟨type, _, drawn⟩ := List.mem_filterMap.mp member
      exact raws_symbol drawn
    rw [Element.raws_eq, children_definitionsElement, List.flatMap_append, symbols, List.append_nil,
      List.flatMap_map]
    simp [Node.raws]
  have layers : (Layer.all.map c.layer).flatMap Element.raws = [] := by
    rw [List.flatMap_map, List.flatMap_eq_nil_iff]
    intro l _
    rw [layer, Element.raws_extend, Element.raws_attr, Element.raws_named, List.nil_append, List.flatMap_eq_nil_iff]
    exact fun e member => (drawn_of_mem_layerElements member).raws
  have sheets : (c.bounds?.toList.map sheet).flatMap Element.raws = [] := by
    rw [List.flatMap_map, List.flatMap_eq_nil_iff]
    exact fun b _ => by simp [sheet]
  have root : (c.root viewport).raws = [] := by simp [root]
  rw [scene, Element.raws_extend, root, List.nil_append, List.flatMap_append, sheets, List.nil_append,
    List.flatMap_cons, definitions, layers, List.append_nil]

theorem clean_textAt (p : Point) : (textAt p).Clean := by
  simp +decide [textAt]

theorem clean_useSymbol (cell : Hex) (type : String) : (c.useSymbol cell type).Clean := by
  simp +decide [useSymbol]

theorem clean_coordinates {region : Region} : (c.coordinates region).Clean ↔ c.styles.text.Clean := by
  simp [coordinates, clean_textAt]

theorem clean_outline {region : Region} : (c.outline region).Clean ↔ c.styles.outline.Clean := by
  simp +decide [outline]

theorem clean_connector {path : Path} {line : Element} (drawn : c.connector? path = some line) :
    line.Clean ↔ ((c.styles.stroke.get? path.kind).getD .empty).Clean := by
  obtain ⟨d, _, rfl⟩ := Option.map_eq_some_iff.mp drawn
  simp +decide

theorem clean_withGlow {text : Attributes → Element}
    (clean : ∀ extra : Attributes, (text extra).Clean ↔ extra.Clean ∧ c.styles.label.Clean) :
    (c.withGlow text).Clean ↔ c.styles.label.Clean ∧ c.styles.glow.Clean := by
  by_cases dark : c.styles.glow.isEmpty = true
  · have empty : c.styles.glow.Clean := by
      rw [Attributes.Clean, Table.keys, List.isEmpty_iff.mp dark]
      exact List.forall_mem_nil _
    simp +decide [withGlow, dark, clean, empty]
  · simp +decide [withGlow, dark, clean, and_comm]

theorem clean_regionLabel {region : Region} {label : Element} (drawn : c.regionLabel? region = some label) :
    label.Clean ↔ c.styles.label.Clean ∧ c.styles.glow.Clean := by
  obtain ⟨text, _, rfl⟩ := Option.map_eq_some_iff.mp drawn
  refine clean_withGlow fun extra => ?_
  cases region.size <;> simp +decide [clean_textAt]

theorem clean_pathLabel {path : Path} {label : Element} (drawn : c.pathLabel? path = some label) :
    label.Clean ↔ c.styles.label.Clean ∧ c.styles.glow.Clean := by
  rw [pathLabel?] at drawn
  split at drawn
  · cases drawn
    refine clean_withGlow fun extra => ?_
    cases labelOnRight path _ <;> cases path.labelStart <;> simp +decide
  · cases drawn

theorem clean_symbol {type : String} {group : Element} (drawn : c.symbol? type = some group) :
    group.Clean ↔
      ((c.styles.geometry.get? type).isSome → c.styles.fill.get? type = none → c.styles.glow.Clean) ∧
      (∀ attributes, c.styles.fill.get? type = some attributes → attributes.Clean) ∧
      ((c.styles.geometry.get? type).isSome → ((c.styles.stroke.get? type).getD .empty).Clean) := by
  simp only [symbol?] at drawn
  split at drawn
  · cases drawn
  · cases drawn
    cases c.styles.fill.get? type <;> cases c.styles.geometry.get? type <;> simp +decide

theorem clean_layer {l : Layer} : (c.layer l).Clean ↔ ∀ e ∈ c.layerElements l, e.Clean := by
  simp +decide [layer]

theorem clean_definitionsElement :
    c.definitionsElement.Clean ↔ ∀ type ∈ c.types, ∀ group, c.symbol? type = some group → group.Clean := by
  have name : IsTagName c.definitionsElement.name := show IsTagName "defs" by decide
  have attributes : c.definitionsElement.attributes.Clean := Attributes.clean_empty
  have raws : ∀ markup ∈ c.definitions, (Node.raw markup).Clean := fun _ _ => List.forall_mem_nil _
  rw [Element.clean_iff, children_definitionsElement, List.forall_mem_append, List.forall_mem_map,
    List.forall_mem_map]
  simp only [name, attributes, true_and]
  constructor
  · rintro ⟨_, symbols⟩ type member group drawn
    exact symbols group (List.mem_filterMap.mpr ⟨type, member, drawn⟩)
  · intro symbols
    refine ⟨raws, fun group listed => ?_⟩
    obtain ⟨type, member, drawn⟩ := List.mem_filterMap.mp listed
    exact symbols type member group drawn

theorem clean_scene {viewport : Viewport} :
    (c.scene viewport).Clean ↔ c.definitionsElement.Clean ∧ ∀ l, (c.layer l).Clean := by
  have root : (c.root viewport).Clean := by simp +decide [root]
  have sheets : ∀ b ∈ c.bounds?.toList, (sheet b).Clean := by
    intro b _
    simp +decide [sheet]
  rw [scene, Element.clean_extend, List.forall_mem_append, List.forall_mem_map, List.forall_mem_cons,
    List.forall_mem_map]
  constructor
  · rintro ⟨_, _, definitions, layers⟩
    exact ⟨definitions, fun l => layers l (Layer.mem_all l)⟩
  · rintro ⟨definitions, layers⟩
    exact ⟨root, sheets, definitions, fun l _ => layers l⟩

/-- All names in a drawing are its own, but for the keys of the attribute lists that it merges. -/
theorem clean_scene_iff_merged {viewport : Viewport} :
    (c.scene viewport).Clean ↔ ∀ attributes, c.Merged attributes → attributes.Clean := by
  rw [clean_scene, clean_definitionsElement]
  simp only [clean_layer]
  constructor
  · rintro ⟨symbols, layers⟩ attributes merged
    cases merged with
    | coordinates member => exact clean_coordinates.mp (layers .coordinates _ (List.mem_map_of_mem member))
    | outline member => exact clean_outline.mp (layers .regions _ (List.mem_map_of_mem member))
    | @connector path member drawn =>
      obtain ⟨line, drawn⟩ := Option.isSome_iff_exists.mp drawn
      exact (clean_connector drawn).mp (layers .paths line (List.mem_filterMap.mpr ⟨path, member, drawn⟩))
    | @regionLabel region _ member drawn given =>
      obtain ⟨label, drawn⟩ := Option.isSome_iff_exists.mp drawn
      have both :=
        (clean_regionLabel drawn).mp (layers .labels label (List.mem_filterMap.mpr ⟨region, member, drawn⟩))
      rcases given with rfl | rfl
      · exact both.1
      · exact both.2
    | @pathLabel path _ member drawn given =>
      obtain ⟨label, drawn⟩ := Option.isSome_iff_exists.mp drawn
      have both :=
        (clean_pathLabel drawn).mp (layers .pathLabels label (List.mem_filterMap.mpr ⟨path, member, drawn⟩))
      rcases given with rfl | rfl
      · exact both.1
      · exact both.2
    | halo member traced unfilled =>
      obtain ⟨group, drawn⟩ := exists_symbol_of_traced traced
      exact ((clean_symbol drawn).mp (symbols _ member group drawn)).1 traced unfilled
    | cell member filled =>
      obtain ⟨group, drawn⟩ := exists_symbol_of_filled filled
      exact ((clean_symbol drawn).mp (symbols _ member group drawn)).2.1 _ filled
    | stroke member traced =>
      obtain ⟨group, drawn⟩ := exists_symbol_of_traced traced
      exact ((clean_symbol drawn).mp (symbols _ member group drawn)).2.2 traced
  · intro clean
    refine ⟨fun type member group drawn => (clean_symbol drawn).mpr ⟨?_, ?_, ?_⟩, fun l e listed => ?_⟩
    · exact fun traced unfilled => clean _ (.halo member traced unfilled)
    · exact fun attributes filled => clean attributes (.cell member filled)
    · exact fun traced => clean _ (.stroke member traced)
    · cases drawn_of_mem_layerElements listed with
      | symbol cell type => exact clean_useSymbol cell type
      | connector member drawn =>
        exact (clean_connector drawn).mpr (clean _ (.connector member (Option.isSome_of_eq_some drawn)))
      | coordinates member => exact clean_coordinates.mpr (clean _ (.coordinates member))
      | outline member => exact clean_outline.mpr (clean _ (.outline member))
      | pathLabel member drawn =>
        have some := Option.isSome_of_eq_some drawn
        exact (clean_pathLabel drawn).mpr
          ⟨clean _ (.pathLabel member some (Or.inl rfl)), clean _ (.pathLabel member some (Or.inr rfl))⟩
      | regionLabel member drawn =>
        have some := Option.isSome_of_eq_some drawn
        exact (clean_regionLabel drawn).mpr
          ⟨clean _ (.regionLabel member some (Or.inl rfl)), clean _ (.regionLabel member some (Or.inr rfl))⟩

/-- A map without raw definitions is drawn as well-formed markup exactly if every key of the attribute lists that
the drawing merges can stand in a tag. -/
theorem wellFormed_scene_iff {source : List (List Char)} (bare : ∀ line ∈ content source, line.markup? = none)
    (instanceName : String) (viewport : Viewport) :
    ((compile instanceName source).scene viewport).WellFormed ↔
      ∀ attributes, (compile instanceName source).Merged attributes → ∀ key ∈ attributes.keys, IsTagName key := by
  have rawless : ((compile instanceName source).scene viewport).raws = [] := by
    rw [raws_scene, definitions_compile, List.filterMap_eq_nil_iff.mpr bare, List.map_nil]
  rw [Element.wellFormed_iff_clean rawless, clean_scene_iff_merged]
  rfl

/-- Values and labels may hold anything. -/
theorem wellFormed_scene_iff_hill :
    let source :=
      ["default attributes fill=\"a < b\"", "hill path M 0,0", "0101 hill \"<A & B>\""].map String.toList
    let c := compile (instanceToken "m") source
    (∀ line ∈ content source, line.markup? = none) ∧ (c.scene .standard).WellFormed ∧
      ∀ attributes, c.Merged attributes → ∀ key ∈ attributes.keys, IsTagName key := by
  intro source c
  have bare : ∀ line ∈ content source, line.markup? = none := by decide +kernel
  have clean : (c.scene .standard).Clean := by decide +kernel
  have rawless : (c.scene .standard).raws = [] := by decide +kernel
  have wellFormed := (Element.wellFormed_iff_clean rawless).mpr clean
  exact ⟨bare, wellFormed, (wellFormed_scene_iff bare (instanceToken "m") .standard).mp wellFormed⟩

/-- A key that holds a bracket is written as it is, and its bracket begins no tag. -/
theorem not_wellFormed_scene_bracket :
    let source := ["default attributes <b=\"1\"", "0101 x"].map String.toList
    (∀ line ∈ content source, line.markup? = none) ∧
      ¬((compile (instanceToken "m") source).scene .standard).WellFormed := by
  intro source
  have bare : ∀ line ∈ content source, line.markup? = none := by decide +kernel
  have rawless : ((compile (instanceToken "m") source).scene .standard).raws = [] := by decide +kernel
  have unclean : ¬((compile (instanceToken "m") source).scene .standard).Clean := by decide +kernel
  exact ⟨bare, fun wellFormed => unclean ((Element.wellFormed_iff_clean rawless).mp wellFormed)⟩

end Chart
end HexAtlas
