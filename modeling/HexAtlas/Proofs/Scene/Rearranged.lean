import HexAtlas.Proofs.Chart.Content
import HexAtlas.Proofs.Chart.SortedSet
import HexAtlas.Proofs.Grid.Box
import HexAtlas.Proofs.Markup.Descendants
import HexAtlas.Proofs.Scene.DeclaredIds

namespace HexAtlas

/-- A line that adds a cell or a path. -/
def Line.isPlaced : Line → Bool
  | region _ | path _ => true
  | _ => false

/-- The types that a line puts on a map: the tags of a cell, the kind of a path. -/
def Line.kinds : Line → List String
  | region r => r.types
  | path p => [p.kind]
  | _ => []

/-- The line of a source that adds a cell or a path. -/
def isPlaced (line : List Char) : Bool := (contentOf? line).any Line.isPlaced

/-- The lines of cells and paths are the same ones, in any order and any number; the others are the same in their
order. -/
structure Rearranged (source other : List (List Char)) : Prop where
  lines : ∀ line, line ∈ source ↔ line ∈ other
  kept : source.filter (!isPlaced ·) = other.filter (!isPlaced ·)

/-- The elements of a name right inside an element. -/
def Element.elementsNamed (e : Element) (name : String) : List Element := e.elements.filter (·.name = name)

namespace Rearranged

variable {source other : List (List Char)}

theorem of_perm (perm : source.Perm other) (kept : source.filter (!isPlaced ·) = other.filter (!isPlaced ·)) :
    Rearranged source other :=
  ⟨fun _ => perm.mem_iff, kept⟩

/-- A line of a cell or a path may be repeated anywhere. -/
theorem of_repeated {line : List Char} {front back : List (List Char)} (placed : isPlaced line)
    (there : line ∈ front ++ back) : Rearranged (front ++ back) (front ++ line :: back) where
  lines l := by
    rw [List.mem_append, List.mem_append, List.mem_cons]
    constructor
    · exact fun member => member.imp_right .inr
    · rintro (before | rfl | behind)
      exacts [.inl before, List.mem_append.mp there, .inr behind]
  kept := by
    rw [List.filter_append, List.filter_append, List.filter_cons_of_neg (by simp [placed])]

/-- What is read from other lines than those of cells and paths is the same. -/
theorem filterMap_eq {α : Type} {read : List Char → Option α} (h : Rearranged source other)
    (skips : ∀ line, isPlaced line → read line = none) : source.filterMap read = other.filterMap read := by
  have skipped (lines : List (List Char)) : (lines.filter (!isPlaced ·)).filterMap read = lines.filterMap read := by
    rw [List.filterMap_filter]
    refine List.filterMap_congr fun line _ => ?_
    cases placed : isPlaced line with
    | true => exact (skips line placed).symm
    | false => rfl
  rw [← skipped, h.kept, skipped]

theorem readOptions_eq (h : Rearranged source other) : readOptions source = readOptions other := by
  rw [readOptions, readOptions, h.filterMap_eq]
  intro line placed
  -- what is read as content is no option line
  rw [isPlaced, contentOf?] at placed
  rw [settingOf?, Setting.ofLine?]
  split at placed
  · cases placed
  · rename_i counted
    simp only [Bool.or_eq_true, not_or, Bool.not_eq_true, Option.isSome_eq_false_iff,
      Option.isNone_iff_eq_none] at counted
    simp [counted.2]

theorem filter_content_eq (h : Rearranged source other) :
    (content source).filter (!Line.isPlaced ·) = (content other).filter (!Line.isPlaced ·) := by
  rw [content, content, List.filter_filterMap, List.filter_filterMap, h.filterMap_eq]
  intro line placed
  rw [isPlaced] at placed
  cases found : contentOf? line with
  | none => rfl
  | some l =>
    rw [found] at placed
    exact Option.filter_eq_none_iff.mpr fun _ same => by cases same; simpa using placed

theorem filterMap_markup?_eq (h : Rearranged source other) :
    (content source).filterMap Line.markup? = (content other).filterMap Line.markup? := by
  have skipped (lines : List Line) :
      (lines.filter (!Line.isPlaced ·)).filterMap Line.markup? = lines.filterMap Line.markup? := by
    rw [List.filterMap_filter]
    exact List.filterMap_congr fun line _ => by cases line <;> rfl
  rw [← skipped, h.filter_content_eq, skipped]

theorem mem_content_iff (h : Rearranged source other) (l : Line) : l ∈ content source ↔ l ∈ content other := by
  simp only [content, List.mem_filterMap, h.lines]

end Rearranged

namespace Chart

theorem styles_add_of_isPlaced {line : Line} (placed : line.isPlaced) (c : Chart) :
    (c.add line).styles = c.styles := by
  cases line <;> first | rfl | cases placed

theorem styles_add_congr {c d : Chart} (same : c.styles = d.styles) (line : Line) :
    (c.add line).styles = (d.add line).styles := by
  cases line <;> simp only [add, addPath, same]

/-- Styles are made by the lines that place nothing. -/
theorem styles_foldl_add_filter (lines : List Line) {c d : Chart} (same : c.styles = d.styles) :
    (lines.foldl add c).styles = ((lines.filter (!Line.isPlaced ·)).foldl add d).styles := by
  induction lines generalizing c d with
  | nil => exact same
  | cons line rest ih =>
    cases placed : line.isPlaced with
    | true =>
      rw [List.filter_cons_of_neg (by simp [placed]), List.foldl_cons]
      exact ih ((styles_add_of_isPlaced placed c).trans same)
    | false =>
      rw [List.filter_cons_of_pos (by simp [placed]), List.foldl_cons, List.foldl_cons]
      exact ih (styles_add_congr same line)

theorem mem_types_compile {instanceName : String} {source : List (List Char)} {type : String} :
    type ∈ (compile instanceName source).types ↔ ∃ line ∈ content source, type ∈ line.kinds := by
  rw [types, mem_sortedSet, List.mem_append, List.mem_flatMap, List.mem_map, regions_compile]
  have kinds : (∃ p ∈ (compile instanceName source).paths, p.kind = type) ↔
      ∃ p ∈ (content source).filterMap Line.path?, p.kind = type := by
    rw [← NameScope.map_numbered (compile instanceName source).scope 0 ((content source).filterMap Line.path?),
      ← paths_compile]
    simp only [List.mem_map, exists_exists_and_eq_and]
  rw [kinds]
  simp only [List.mem_filterMap]
  constructor
  · rintro (⟨r, ⟨line, member, found⟩, tag⟩ | ⟨p, ⟨line, member, found⟩, kind⟩)
    · cases line <;> cases found
      exact ⟨_, member, tag⟩
    · cases line <;> cases found
      exact ⟨_, member, List.mem_singleton.mpr kind.symm⟩
  · rintro ⟨line, member, kind⟩
    cases line with
    | region r => exact .inl ⟨r, ⟨_, member, rfl⟩, kind⟩
    | path p => exact .inr ⟨p, ⟨_, member, rfl⟩, (List.mem_singleton.mp kind).symm⟩
    | _ => cases kind

theorem symbol?_congr {c d : Chart} (options : c.options = d.options) (scope : c.scope = d.scope)
    (styles : c.styles = d.styles) (type : String) : c.symbol? type = d.symbol? type := by
  simp only [symbol?, orientation, options, scope, styles]

theorem definitionsElement_congr {c d : Chart} (options : c.options = d.options) (scope : c.scope = d.scope)
    (styles : c.styles = d.styles) (definitions : c.definitions = d.definitions) (types : c.types = d.types) :
    c.definitionsElement = d.definitionsElement := by
  have symbols : c.symbol? = d.symbol? := funext (symbol?_congr options scope styles)
  rw [definitionsElement, definitionsElement, definitions, types, symbols]

theorem elementsNamed_defs_scene (c : Chart) (viewport : Viewport) :
    (c.scene viewport).elementsNamed "defs" = [c.definitionsElement] := by
  have sheets : (c.bounds?.toList.map sheet).filter (·.name = "defs") = [] := by
    cases c.bounds? <;> rfl
  rw [Element.elementsNamed, Element.elements_of_children (c.children_scene viewport), List.filter_append, sheets]
  rfl

/-- What two maps have in common whose cells and paths are those of the same lines. -/
structure Alike (c d : Chart) : Prop where
  options : c.options = d.options
  styles : c.styles = d.styles
  definitions : c.definitions = d.definitions
  types : c.types = d.types
  bounds : c.bounds? = d.bounds?
  drawn : ∀ viewport, ∃ defs, (c.scene viewport).elementsNamed "defs" = [defs] ∧
    (d.scene viewport).elementsNamed "defs" = [defs]

variable {source other : List (List Char)}

theorem bounds?_compile (instanceName : String) (h : Rearranged source other) :
    (compile instanceName source).bounds? = (compile instanceName other).bounds? := by
  rw [bounds?, bounds?, orientation, orientation, options_compile, options_compile, h.readOptions_eq]
  refine Orientation.viewbox?_eq_of_mem_iff _ fun cell => ?_
  simp only [regions_compile, List.mem_map, List.mem_filterMap, h.mem_content_iff]

theorem alike_compile (instanceName : String) (h : Rearranged source other) :
    (compile instanceName source).Alike (compile instanceName other) := by
  have options : (compile instanceName source).options = (compile instanceName other).options := by
    rw [options_compile, options_compile, h.readOptions_eq]
  have scope : (compile instanceName source).scope = (compile instanceName other).scope := by
    rw [scope_compile, scope_compile, h.readOptions_eq]
  have styles : (compile instanceName source).styles = (compile instanceName other).styles := by
    rw [compile_eq, compile_eq, styles_foldl_add_filter (content source) rfl, h.filter_content_eq, h.readOptions_eq]
    exact (styles_foldl_add_filter (content other) rfl).symm
  have definitions : (compile instanceName source).definitions = (compile instanceName other).definitions := by
    rw [definitions_compile, definitions_compile, scope, h.filterMap_markup?_eq]
  have types : (compile instanceName source).types = (compile instanceName other).types :=
    sortedSet_ext fun type => by
      change type ∈ (compile instanceName source).types ↔ type ∈ (compile instanceName other).types
      simp only [mem_types_compile, h.mem_content_iff]
  refine ⟨options, styles, definitions, types, bounds?_compile instanceName h, fun viewport => ?_⟩
  refine ⟨(compile instanceName source).definitionsElement, elementsNamed_defs_scene _ viewport, ?_⟩
  rw [elementsNamed_defs_scene, definitionsElement_congr options scope styles definitions types]

/-- Moving the lines of cells and paths, or repeating them, changes neither the settings of a map nor its
definitions, its types or the rectangle around it; the types are the tags and the kinds of its lines, in ascending
order. -/
theorem alike_types_of_rearranged (instanceName : String) (h : Rearranged source other) :
    (compile instanceName source).Alike (compile instanceName other) ∧
      (compile instanceName source).types.Pairwise (· < ·) ∧
        ∀ type, type ∈ (compile instanceName source).types ↔ ∃ line ∈ content source, type ∈ line.kinds :=
  ⟨alike_compile instanceName h, ascending_sortedSet _, fun _ => mem_types_compile⟩

/-- The cell and the path change places around the line between them; then the cell is there twice. -/
theorem alike_types_of_rearranged_moved :
    let cell := "0202 hill".toList
    let style := "hill attributes fill=\"green\"".toList
    let path := "0101-0103 river".toList
    (Rearranged [cell, style, path] [path, style, cell] ∧
        (compile "m" [cell, style, path]).Alike (compile "m" [path, style, cell])) ∧
      Rearranged [cell, style, path] [cell, style, path, cell] ∧
        (compile "m" [cell, style, path]).Alike (compile "m" [cell, style, path, cell]) := by
  intro cell style path
  have moved : Rearranged [cell, style, path] [path, style, cell] :=
    .of_perm (by decide +kernel) (by decide +kernel)
  have repeated : Rearranged ([cell, style, path] ++ []) ([cell, style, path] ++ [cell]) :=
    .of_repeated (by decide +kernel) List.mem_cons_self
  exact ⟨⟨moved, (alike_types_of_rearranged "m" moved).1⟩, repeated, (alike_types_of_rearranged "m" repeated).1⟩

end Chart

end HexAtlas
