import HexAtlas.Proofs.Scene.DeclaredIds
import HexAtlas.Proofs.Scene.Layout
import HexAtlas.Proofs.Scene.OwnNames
import HexAtlas.Proofs.Scene.Symbols
import Mathlib.Data.List.Perm.Basic

open scoped List

namespace HexAtlas

/-- Names that are given take the place of own ones. -/
theorem map_getD_perm {α β : Type} (given : α → Option β) (own : α → β) (items : List α) :
    (items.map fun a => (given a).getD (own a)) ~
      (items.filter fun a => (given a).isNone).map own ++ items.filterMap given := by
  induction items with
  | nil => exact .nil
  | cons a rest ih =>
    cases found : given a with
    | none =>
      rw [List.map_cons, List.filter_cons_of_pos (by rw [found]; rfl), List.filterMap_cons_none found, found]
      exact ih.cons (own a)
    | some b =>
      rw [List.map_cons, List.filter_cons_of_neg (by simp [found]), List.filterMap_cons_some found, found]
      exact (ih.cons b).trans List.perm_middle.symm

theorem flatMap_filterMap_of_isSome {α β γ : Type} {draw : α → Option β} {keep : α → Bool} {f : β → List γ}
    {g : α → List γ} {items : List α} (kept : ∀ a, (draw a).isSome = keep a)
    (same : ∀ a b, draw a = some b → f b = g a) :
    (items.filterMap draw).flatMap f = (items.filter keep).flatMap g := by
  induction items with
  | nil => rfl
  | cons a rest ih =>
    cases drawn : draw a with
    | none => rw [List.filterMap_cons_none drawn, List.filter_cons_of_neg (by simp [← kept, drawn]), ih]
    | some b =>
      rw [List.filterMap_cons_some drawn, List.filter_cons_of_pos (by simp [← kept, drawn]), List.flatMap_cons,
        List.flatMap_cons, same a b drawn, ih]

theorem flatMap_filter_of_nil {α β : Type} {keep : α → Bool} {f : α → List β} {items : List α}
    (empty : ∀ a, keep a = false → f a = []) : (items.filter keep).flatMap f = items.flatMap f := by
  induction items with
  | nil => rfl
  | cons a rest ih =>
    cases kept : keep a with
    | false => rw [List.filter_cons_of_neg (by simp [kept]), List.flatMap_cons, empty a kept, List.nil_append, ih]
    | true => rw [List.filter_cons_of_pos kept, List.flatMap_cons, List.flatMap_cons, ih]

namespace Chart

/-- The names of the symbols. -/
def symbolIds (c : Chart) : List String := (c.types.filter fun type => (c.symbol? type).isSome).map c.scope.apply

/-- The names of the elements of a layer whose attributes give them no other one. -/
def ownIdsIn (c : Chart) : Layer → List String
  | .paths => ((c.paths.filter c.moves).filter fun p => (c.givenLineId? p).isNone).map Path.id
  | .regions => (c.regions.filter fun _ => (c.styles.outline.get? "id").isNone).map fun r => c.scope.apply r.id
  | .backgrounds | .things | .coordinates | .pathLabels | .labels => []

/-- The names of layers, cells and paths in the drawing. -/
def ownIds (c : Chart) : List String :=
  (Layer.all.map fun l => c.scope.apply l.name) ++ Layer.all.flatMap c.ownIdsIn

/-- The attribute lists that are merged into elements of a layer, one for each element. -/
def stylesIn (c : Chart) : Layer → List Attributes
  | .paths => (c.paths.filter c.moves).map fun p => (c.styles.stroke.get? p.kind).getD .empty
  | .coordinates => c.regions.map fun _ => c.styles.text
  | .regions => c.regions.map fun _ => c.styles.outline
  | .pathLabels => (c.paths.filter fun p => p.label.isSome && c.moves p).flatMap fun _ => c.labelStyles
  | .labels => (c.regions.filter (·.label.isSome)).flatMap fun _ => c.labelStyles
  | .backgrounds | .things => []

/-- The identifiers from attribute lists, one for each element that one is merged into. -/
def styledIds (c : Chart) : List String :=
  (c.types.flatMap c.symbolStyles ++ Layer.all.flatMap c.stylesIn).filterMap (·.get? "id")

variable {c : Chart}

theorem declaredIds_useSymbols (keep : Region → List String) :
    (c.regions.flatMap fun r => (keep r).map (c.useSymbol r.hex)).flatMap Element.declaredIds = [] := by
  rw [List.flatMap_eq_nil_iff]
  intro e member
  obtain ⟨region, _, used⟩ := List.mem_flatMap.mp member
  obtain ⟨type, _, rfl⟩ := List.mem_map.mp used
  exact c.declaredIds_useSymbol region.hex type

theorem declaredIds_layerElements_perm (named : c.Named) (l : Layer) :
    (c.layerElements l).flatMap Element.declaredIds ~
      c.ownIdsIn l ++ (c.stylesIn l).filterMap (·.get? "id") := by
  cases l with
  | backgrounds => exact .of_eq (declaredIds_useSymbols _)
  | things => exact .of_eq (declaredIds_useSymbols _)
  | paths =>
    have lines : (c.paths.filterMap c.connector?).flatMap Element.declaredIds =
        (c.paths.filter c.moves).map fun p => (c.givenLineId? p).getD p.id := by
      rw [flatMap_filterMap_of_isSome c.connector?_isSome fun _ _ => declaredIds_connector named,
        ← List.map_eq_flatMap]
    rw [layerElements, lines, ownIdsIn, stylesIn, List.filterMap_map]
    exact map_getD_perm c.givenLineId? Path.id _
  | coordinates =>
    refine .of_eq ?_
    rw [layerElements, List.flatMap_map, ownIdsIn, stylesIn, List.filterMap_map, List.nil_append,
      List.filterMap_eq_flatMap_toList]
    exact List.flatMap_congr fun r _ => declaredIds_coordinates named r
  | regions =>
    have outlines : (c.regions.map c.outline).flatMap Element.declaredIds =
        c.regions.map fun r => (c.styles.outline.get? "id").getD (c.scope.apply r.id) := by
      rw [List.flatMap_map, List.map_eq_flatMap]
      exact List.flatMap_congr fun r _ => declaredIds_outline named r
    rw [layerElements, outlines, ownIdsIn, stylesIn, List.filterMap_map]
    exact map_getD_perm (fun _ => c.styles.outline.get? "id") (fun r : Region => c.scope.apply r.id) _
  | pathLabels =>
    rw [layerElements, flatMap_filterMap_of_isSome c.pathLabel?_isSome fun _ _ => declaredIds_pathLabel named,
      ownIdsIn, stylesIn, List.filterMap_flatMap, List.nil_append]
  | labels =>
    rw [layerElements, flatMap_filterMap_of_isSome c.regionLabel?_isSome fun _ _ => declaredIds_regionLabel named,
      ownIdsIn, stylesIn, List.filterMap_flatMap, List.nil_append]

theorem declaredIds_layers_perm (named : c.Named) :
    Layer.all.flatMap (fun l => (c.layer l).declaredIds) ~
      c.ownIds ++ (Layer.all.flatMap c.stylesIn).filterMap (·.get? "id") := by
  have each : ∀ l ∈ Layer.all, (c.layer l).declaredIds ~
      c.scope.apply l.name :: (c.ownIdsIn l ++ (c.stylesIn l).filterMap (·.get? "id")) := fun l _ => by
    rw [declaredIds_layer]
    exact (declaredIds_layerElements_perm named l).cons _
  calc Layer.all.flatMap fun l => (c.layer l).declaredIds
    _ ~ Layer.all.flatMap fun l =>
          c.scope.apply l.name :: (c.ownIdsIn l ++ (c.stylesIn l).filterMap (·.get? "id")) := .flatMap_left _ each
    _ ~ Layer.all.map (fun l => c.scope.apply l.name) ++
          Layer.all.flatMap fun l => c.ownIdsIn l ++ (c.stylesIn l).filterMap (·.get? "id") :=
      (List.map_append_flatMap_perm _ _ _).symm
    _ ~ Layer.all.map (fun l => c.scope.apply l.name) ++
          (Layer.all.flatMap c.ownIdsIn ++ Layer.all.flatMap fun l => (c.stylesIn l).filterMap (·.get? "id")) :=
      (List.flatMap_append_perm _ _ _).symm.append_left _
    _ = c.ownIds ++ (Layer.all.flatMap c.stylesIn).filterMap (·.get? "id") := by
      rw [ownIds, List.filterMap_flatMap, List.append_assoc]

theorem declaredIds_definitionsElement_perm (named : c.Named) (plain : c.definitions = []) :
    c.definitionsElement.declaredIds ~
      c.symbolIds ++ (c.types.flatMap c.symbolStyles).filterMap (·.get? "id") := by
  have bare : ∀ type, (c.symbol? type).isSome = false → c.symbolStyles type = [] := by
    intro type missing
    have neither := mt (c.symbol?_isSome_iff type).mpr (by rw [missing]; exact Bool.false_ne_true)
    simp only [not_or, Option.not_isSome_iff_eq_none] at neither
    simp [symbolStyles, neither.1, neither.2]
  have groups : c.definitionsElement.declaredIds = (c.types.filter fun type => (c.symbol? type).isSome).flatMap
      fun type => c.scope.apply type :: (c.symbolStyles type).filterMap (·.get? "id") := by
    rw [declaredIds_definitionsElement, plain]
    exact flatMap_filterMap_of_isSome (fun _ => rfl) fun _ _ => declaredIds_symbol named
  have styles : (c.types.flatMap c.symbolStyles).filterMap (·.get? "id") =
      (c.types.filter fun type => (c.symbol? type).isSome).flatMap
        fun type => (c.symbolStyles type).filterMap (·.get? "id") := by
    rw [List.filterMap_flatMap, flatMap_filter_of_nil]
    exact fun type missing => congrArg (List.filterMap _) (bare type missing)
  rw [groups, styles]
  exact (List.map_append_flatMap_perm _ _ _).symm

/-- What a drawing without raw definitions declares, each identifier as often as it stands there. -/
theorem declaredIds_scene_perm (named : c.Named) (plain : c.definitions = []) (viewport : Viewport) :
    (c.scene viewport).declaredIds ~ c.symbolIds ++ (c.ownIds ++ c.styledIds) := by
  rw [declaredIds_scene, styledIds, List.filterMap_append]
  refine ((declaredIds_definitionsElement_perm named plain).append (declaredIds_layers_perm named)).trans ?_
  rw [List.append_assoc]
  refine .append_left _ ?_
  rw [← List.append_assoc, ← List.append_assoc]
  exact List.perm_append_comm.append_right _

theorem mem_symbolIds {i : String} :
    i ∈ c.symbolIds ↔ ∃ type ∈ c.types, (c.symbol? type).isSome ∧ c.scope.apply type = i := by
  simp only [symbolIds, List.mem_map, List.mem_filter, and_assoc]

theorem nodup_symbolIds (c : Chart) : c.symbolIds.Nodup :=
  .map c.scope.apply_injective ((nodup_sortedSet _).filter _)

theorem flatMap_ownIdsIn (c : Chart) : Layer.all.flatMap c.ownIdsIn = c.ownIdsIn .paths ++ c.ownIdsIn .regions := by
  simp [Layer.all, ownIdsIn]

theorem mem_ownIdsIn_paths {i : String} (h : i ∈ c.ownIdsIn .paths) : ∃ path ∈ c.paths, path.id = i := by
  obtain ⟨path, kept, same⟩ := List.mem_map.mp h
  exact ⟨path, List.mem_of_mem_filter (List.mem_of_mem_filter kept), same⟩

theorem mem_ownIdsIn_regions {i : String} (h : i ∈ c.ownIdsIn .regions) :
    ∃ region ∈ c.regions, c.scope.apply region.id = i := by
  obtain ⟨region, kept, same⟩ := List.mem_map.mp h
  exact ⟨region, List.mem_of_mem_filter kept, same⟩

/-- Where no cell stands twice, the names of layers, cells and paths are all different. -/
theorem nodup_ownIds (cells : (c.regions.map (·.hex)).Nodup) (ids : (c.paths.map Path.id).Nodup)
    (numbered : ∀ path ∈ c.paths, ∃ n, path.id = c.scope.apply (pathName n)) : c.ownIds.Nodup := by
  have layers : (Layer.all.map fun l => c.scope.apply l.name).Nodup := by
    refine List.pairwise_map.mpr ((List.pairwise_map.mp nodup_layerNames).imp fun apart same => ?_)
    exact apart (c.scope.apply_injective same)
  have lines : (c.ownIdsIn .paths).Nodup := ids.sublist ((List.filter_sublist.trans List.filter_sublist).map _)
  have outlines : (c.ownIdsIn .regions).Nodup := by
    refine List.pairwise_map.mpr (.filter _ ((List.pairwise_map.mp cells).imp fun apart same => ?_))
    exact apart (Region.id_eq_iff.mp (c.scope.apply_injective same))
  rw [ownIds, flatMap_ownIdsIn, List.nodup_append', List.nodup_append']
  refine ⟨layers, ⟨lines, outlines, ?_⟩, ?_⟩
  · intro i inPaths inRegions
    obtain ⟨path, listed, rfl⟩ := mem_ownIdsIn_paths inPaths
    obtain ⟨n, name⟩ := numbered path listed
    obtain ⟨region, _, same⟩ := mem_ownIdsIn_regions inRegions
    exact id_ne_pathName region n (c.scope.apply_injective (same.trans name))
  · intro i inLayers inside
    obtain ⟨l, _, rfl⟩ := List.mem_map.mp inLayers
    rcases List.mem_append.mp inside with inPaths | inRegions
    · obtain ⟨path, listed, same⟩ := mem_ownIdsIn_paths inPaths
      obtain ⟨n, name⟩ := numbered path listed
      exact layerName_ne_pathName l n (c.scope.apply_injective (same.symm.trans name))
    · obtain ⟨region, _, same⟩ := mem_ownIdsIn_regions inRegions
      exact layerName_ne_id l region (c.scope.apply_injective same.symm)

/-- A map without raw definitions that names no cell twice declares no identifier twice exactly if no type with a
symbol bears the name of a layer, a cell or a path, and every identifier from an attribute list is merged into one
element only and is no name of the map. -/
theorem nodup_declaredIds_compile_iff (instanceName : String) {source : List (List Char)}
    (plain : ∀ line ∈ content source, line.markup? = none)
    (cells : (((content source).filterMap Line.region?).map (·.hex)).Nodup) (viewport : Viewport) :
    let c := compile instanceName source
    (c.scene viewport).declaredIds.Nodup ↔
      (∀ type ∈ c.types, (c.symbol? type).isSome → c.scope.apply type ∉ c.ownIds) ∧
      c.styledIds.Nodup ∧
      ∀ i ∈ c.styledIds, i ∉ c.ownIds ∧ ∀ type ∈ c.types, (c.symbol? type).isSome → i ≠ c.scope.apply type := by
  intro c
  have named : c.Named := named_compile instanceName source
  have noDefinitions : c.definitions = [] := by
    rw [definitions_compile, List.filterMap_eq_nil_iff.mpr plain, List.map_nil]
  have own : c.ownIds.Nodup :=
    nodup_ownIds (by rw [regions_compile]; exact cells) (nodup_ids_compile instanceName source)
      fun path listed => exists_pathName listed
  rw [(declaredIds_scene_perm named noDefinitions viewport).nodup_iff, List.nodup_append', List.nodup_append']
  constructor
  · rintro ⟨-, ⟨-, styled, ownApart⟩, symbolsApart⟩
    refine ⟨fun type used drawn inOwn => ?_, styled, fun i inStyled => ⟨fun inOwn => ownApart inOwn inStyled, ?_⟩⟩
    · exact symbolsApart (mem_symbolIds.mpr ⟨type, used, drawn, rfl⟩) (List.mem_append_left _ inOwn)
    · rintro type used drawn rfl
      exact symbolsApart (mem_symbolIds.mpr ⟨type, used, drawn, rfl⟩) (List.mem_append_right _ inStyled)
  · rintro ⟨typesApart, styled, stylesApart⟩
    refine ⟨c.nodup_symbolIds, ⟨own, styled, fun i inOwn inStyled => (stylesApart i inStyled).1 inOwn⟩, ?_⟩
    intro i inSymbols inside
    obtain ⟨type, used, drawn, rfl⟩ := mem_symbolIds.mp inSymbols
    rcases List.mem_append.mp inside with inOwn | inStyled
    · exact typesApart type used drawn inOwn
    · exact (stylesApart _ inStyled).2 type used drawn rfl

/-- Types, roads and labels with names of their own, and one identifier from an attribute list. -/
theorem nodup_declaredIds_compile_iff_valley :
    let source := ["hill attributes fill=\"green\"", "road path attributes id=\"old-road\"", "0101 hill \"Hill\"",
      "0102 paths-1", "0101-0102 road \"Way\"", "0102-0101 river"].map String.toList
    let c := compile "m" source
    (∀ line ∈ content source, line.markup? = none) ∧
      (((content source).filterMap Line.region?).map (·.hex)).Nodup ∧
      (c.scene .standard).declaredIds.Nodup ∧
      (∀ type ∈ c.types, (c.symbol? type).isSome → c.scope.apply type ∉ c.ownIds) ∧
      c.styledIds.Nodup ∧
      ∀ i ∈ c.styledIds, i ∉ c.ownIds ∧ ∀ type ∈ c.types, (c.symbol? type).isSome → i ≠ c.scope.apply type := by
  intro source c
  have plain : ∀ line ∈ content source, line.markup? = none := by decide +kernel
  have cells : (((content source).filterMap Line.region?).map (·.hex)).Nodup := by decide +kernel
  have apart : (c.scene .standard).declaredIds.Nodup := by decide +kernel
  exact ⟨plain, cells, apart, (nodup_declaredIds_compile_iff "m" plain cells .standard).mp apart⟩

/-- A type may bear the name of a layer, and an attribute list may give one identifier to all cells. -/
theorem not_nodup_declaredIds_taken :
    let typed := ["regions attributes fill=\"red\"", "0101 regions"].map String.toList
    let styled := ["default attributes id=\"cell\"", "0101 hill", "0102 hill"].map String.toList
    ∀ source ∈ [typed, styled],
      (∀ line ∈ content source, line.markup? = none) ∧
      (((content source).filterMap Line.region?).map (·.hex)).Nodup ∧
      ¬((compile "m" source).scene .standard).declaredIds.Nodup := by
  decide +kernel

end Chart
end HexAtlas
