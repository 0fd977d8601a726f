import HexAtlas.Proofs.Chart.Content
import HexAtlas.Proofs.Scene.OwnNames

namespace HexAtlas

/-- A table has one entry for each name with a value, and it holds that value. -/
structure Table.Lists {α : Type} (t : Table α) (value? : String → Option α) : Prop where
  distinct : t.Distinct
  mem_iff : ∀ name value, (name, value) ∈ t.entries ↔ value? name = some value

theorem Table.lists_of_get? {α : Type} {t : Table α} {value? : String → Option α} (distinct : t.Distinct)
    (get : ∀ name, t.get? name = value? name) : t.Lists value? where
  distinct := distinct
  mem_iff name value := by rw [distinct.mem_entries_iff, get]

/-- What the last of a source's lines that set a part sets it to. -/
def lastOf? {α : Type} (source : List (List Char)) (part : Line → Option α) : Option α :=
  ((content source).filterMap part).getLast?

namespace Chart

/-- The tables of a map's styles repeat no name. -/
structure Tabled (c : Chart) : Prop where
  fill : c.styles.fill.Distinct
  stroke : c.styles.stroke.Distinct
  geometry : c.styles.geometry.Distinct

theorem tabled_blank (instanceName : String) (options : Options) : (blank instanceName options).Tabled :=
  ⟨Table.distinct_empty, Table.distinct_empty, Table.distinct_empty⟩

theorem Tabled.add {c : Chart} (h : c.Tabled) (line : Line) : (c.add line).Tabled := by
  cases line with
  | fill name attributes => exact ⟨h.fill.set name attributes, h.stroke, h.geometry⟩
  | stroke name attributes => exact ⟨h.fill, h.stroke.set name attributes, h.geometry⟩
  | geometry name outline => exact ⟨h.fill, h.stroke, h.geometry.set name outline⟩
  | _ => exact ⟨h.fill, h.stroke, h.geometry⟩

theorem Tabled.foldl_add {c : Chart} (h : c.Tabled) (lines : List Line) : (lines.foldl Chart.add c).Tabled := by
  induction lines generalizing c with
  | nil => exact h
  | cons line rest ih => exact ih (h.add line)

theorem tabled_compile (instanceName : String) (source : List (List Char)) : (compile instanceName source).Tabled :=
  (tabled_blank instanceName (readOptions source)).foldl_add _

/-- What a map holds of the lines of its source. -/
structure Collected (instanceName : String) (source : List (List Char)) (c : Chart) : Prop where
  scope : c.scope = .ofInstance instanceName (readOptions source).global
  regions : c.regions = (content source).filterMap Line.region?
  paths : c.paths.map Path.toPathLine = (content source).filterMap Line.path?
  ids : ∀ i path, c.paths[i]? = some path → path.id = c.scope.apply ("path-" ++ toString (i + 1))
  nodup_ids : (c.paths.map Path.id).Nodup
  definitions : c.definitions = ((content source).filterMap Line.markup?).map c.scope.marked
  fill : c.styles.fill.Lists fun name => lastOf? source (Line.fillOf? name)
  stroke : c.styles.stroke.Lists fun name => lastOf? source (Line.strokeOf? name)
  geometry : c.styles.geometry.Lists fun name => lastOf? source (Line.geometryOf? name)
  text : c.styles.text = (lastOf? source Line.text?).getD .empty
  glow : c.styles.glow = (lastOf? source Line.glow?).getD .empty
  label : c.styles.label = (lastOf? source Line.label?).getD .empty

theorem id_of_getElem? {instanceName : String} {source : List (List Char)} {i : Nat} {path : Path}
    (listed : (compile instanceName source).paths[i]? = some path) :
    path.id = (compile instanceName source).scope.apply (pathName (i + 1)) := by
  obtain ⟨inside, _⟩ := List.getElem?_eq_some_iff.mp listed
  have own : ((compile instanceName source).paths.map Path.id)[i]? = some path.id := by
    rw [List.getElem?_map, listed]; rfl
  rw [ids_compile, List.getElem?_map, List.getElem?_range' inside, Nat.one_mul, Nat.add_comm] at own
  exact (Option.some.inj own).symm

theorem eq_getD_of_or {α : Type} {x default : α} {last? : Option α} (h : some x = last?.or (some default)) :
    x = last?.getD default := by
  cases last? <;> exact Option.some.inj h

theorem collected_compile (instanceName : String) (source : List (List Char)) :
    Collected instanceName source (compile instanceName source) where
  scope := scope_compile instanceName source
  regions := regions_compile instanceName source
  paths := by rw [paths_compile, NameScope.map_numbered]
  ids := fun _ _ => id_of_getElem?
  nodup_ids := nodup_ids_compile instanceName source
  definitions := definitions_compile instanceName source
  fill := Table.lists_of_get? (tabled_compile instanceName source).fill (fill_compile instanceName source)
  stroke := Table.lists_of_get? (tabled_compile instanceName source).stroke (stroke_compile instanceName source)
  geometry :=
    Table.lists_of_get? (tabled_compile instanceName source).geometry (geometry_compile instanceName source)
  text := eq_getD_of_or (text_compile instanceName source)
  glow := eq_getD_of_or (glow_compile instanceName source)
  label := eq_getD_of_or (label_compile instanceName source)

end Chart

theorem NameScope.numbered_append (s : NameScope) (count : Nat) (front back : List PathLine) :
    s.numbered count (front ++ back) = s.numbered count front ++ s.numbered (count + front.length) back := by
  induction front generalizing count with
  | nil => rfl
  | cons path rest ih =>
    rw [List.cons_append, numbered, numbered, ih, List.cons_append, List.length_cons, Nat.add_assoc,
      Nat.add_comm 1 rest.length]

namespace Chart

/-- A map goes on where another one ends. -/
structure GoesOn (c d : Chart) : Prop where
  regions : c.regions <+: d.regions
  paths : c.paths <+: d.paths
  definitions : c.definitions <+: d.definitions

theorem goesOn_compile (instanceName : String) {source more : List (List Char)}
    (same : (readOptions (source ++ more)).global = (readOptions source).global) :
    (compile instanceName source).GoesOn (compile instanceName (source ++ more)) := by
  have scope : (compile instanceName (source ++ more)).scope = (compile instanceName source).scope := by
    rw [scope_compile, scope_compile, same]
  constructor
  · rw [regions_compile, regions_compile, content_append, List.filterMap_append]
    exact List.prefix_append _ _
  · rw [paths_compile, paths_compile, scope, content_append, List.filterMap_append, NameScope.numbered_append]
    exact List.prefix_append _ _
  · rw [definitions_compile, definitions_compile, scope, content_append, List.filterMap_append, List.map_append]
    exact List.prefix_append _ _

end Chart

end HexAtlas
