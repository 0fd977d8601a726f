import HexAtlas.Proofs.Chart.Names

namespace HexAtlas

/-- Where a step either sets a part of a state or leaves it alone, the last step that sets it counts. -/
theorem foldl_of_set {σ ι α : Type} {step : σ → ι → σ} {part : ι → Option α} (view : σ → Option α)
    (set : ∀ s x, view (step s x) = (part x).or (view s)) (xs : List ι) (s : σ) :
    view (xs.foldl step s) = (xs.filterMap part).getLast?.or (view s) := by
  induction xs generalizing s with
  | nil => rfl
  | cons x rest ih =>
    rw [List.foldl_cons, ih, set]
    cases given : part x with
    | none => rw [List.filterMap_cons_none given, Option.none_or]
    | some value =>
      rw [List.filterMap_cons_some given, List.getLast?_cons]
      cases (rest.filterMap part).getLast? <;> rfl

/-- The lines of a source that add to a map, in their order. -/
def content (source : List (List Char)) : List Line := source.filterMap contentOf?

theorem content_append (front back : List (List Char)) : content (front ++ back) = content front ++ content back :=
  List.filterMap_append

/-- A raw definition as a map holds it. -/
def NameScope.marked (s : NameScope) (markup : String) : String := String.ofList (s.markNames markup.toList)

/-- Path lines as a map holds them, when it has `count` paths already. -/
def NameScope.numbered (s : NameScope) (count : Nat) : List PathLine → List Path
  | [] => []
  | path :: rest => { path with id := s.apply ("path-" ++ toString (count + 1)) } :: s.numbered (count + 1) rest

theorem NameScope.map_numbered (s : NameScope) (count : Nat) (lines : List PathLine) :
    (s.numbered count lines).map Path.toPathLine = lines := by
  induction lines generalizing count with
  | nil => rfl
  | cons path rest ih => rw [numbered, List.map_cons, ih]

namespace Line

def region? : Line → Option Region
  | region r => some r
  | _ => none

def path? : Line → Option PathLine
  | path p => some p
  | _ => none

def markup? : Line → Option String
  | definition markup => some markup
  | _ => none

/-- The fill that a line gives to a name. -/
def fillOf? (name : String) : Line → Option Attributes
  | fill n attributes => if name = n then some attributes else none
  | _ => none

/-- The stroke that a line gives to a name. -/
def strokeOf? (name : String) : Line → Option Attributes
  | stroke n attributes => if name = n then some attributes else none
  | _ => none

/-- The outline that a line gives to a name. -/
def geometryOf? (name : String) : Line → Option String
  | geometry n outline => if name = n then some outline else none
  | _ => none

def text? : Line → Option Attributes
  | text attributes => some attributes
  | _ => none

def glow? : Line → Option Attributes
  | glow attributes => some attributes
  | _ => none

def label? : Line → Option Attributes
  | label attributes => some attributes
  | _ => none

end Line

namespace Chart

theorem options_add (c : Chart) (line : Line) : (c.add line).options = c.options := by
  cases line <;> rfl

theorem regions_add (c : Chart) (line : Line) : (c.add line).regions = c.regions ++ line.region?.toList := by
  cases line <;> simp [add, addPath, Line.region?]

theorem definitions_add (c : Chart) (line : Line) :
    (c.add line).definitions = c.definitions ++ line.markup?.toList.map c.scope.marked := by
  cases line <;> simp [add, addPath, Line.markup?, NameScope.marked]

theorem paths_add (c : Chart) (line : Line) :
    (c.add line).paths = c.paths ++ c.scope.numbered c.paths.length line.path?.toList := by
  cases line <;> simp [add, addPath, Line.path?, NameScope.numbered]

theorem fill_add (name : String) (c : Chart) (line : Line) :
    (c.add line).styles.fill.get? name = (line.fillOf? name).or (c.styles.fill.get? name) := by
  cases line with
  | fill n attributes =>
    rw [add, Table.get?_set, Line.fillOf?]
    split <;> rfl
  | _ => rfl

theorem stroke_add (name : String) (c : Chart) (line : Line) :
    (c.add line).styles.stroke.get? name = (line.strokeOf? name).or (c.styles.stroke.get? name) := by
  cases line with
  | stroke n attributes =>
    rw [add, Table.get?_set, Line.strokeOf?]
    split <;> rfl
  | _ => rfl

theorem geometry_add (name : String) (c : Chart) (line : Line) :
    (c.add line).styles.geometry.get? name = (line.geometryOf? name).or (c.styles.geometry.get? name) := by
  cases line with
  | geometry n outline =>
    rw [add, Table.get?_set, Line.geometryOf?]
    split <;> rfl
  | _ => rfl

theorem text_add (c : Chart) (line : Line) :
    some (c.add line).styles.text = line.text?.or (some c.styles.text) := by
  cases line <;> rfl

theorem glow_add (c : Chart) (line : Line) :
    some (c.add line).styles.glow = line.glow?.or (some c.styles.glow) := by
  cases line <;> rfl

theorem label_add (c : Chart) (line : Line) :
    some (c.add line).styles.label = line.label?.or (some c.styles.label) := by
  cases line <;> rfl

theorem options_foldl_add (lines : List Line) (c : Chart) : (lines.foldl add c).options = c.options := by
  induction lines generalizing c with
  | nil => rfl
  | cons line rest ih => rw [List.foldl_cons, ih, options_add]

theorem regions_foldl_add (lines : List Line) (c : Chart) :
    (lines.foldl add c).regions = c.regions ++ lines.filterMap Line.region? := by
  induction lines generalizing c with
  | nil => exact (List.append_nil _).symm
  | cons line rest ih =>
    rw [List.foldl_cons, ih, regions_add, List.append_assoc]
    cases line <;> rfl

theorem definitions_foldl_add (lines : List Line) (c : Chart) :
    (lines.foldl add c).definitions = c.definitions ++ (lines.filterMap Line.markup?).map c.scope.marked := by
  induction lines generalizing c with
  | nil => exact (List.append_nil _).symm
  | cons line rest ih =>
    rw [List.foldl_cons, ih, definitions_add, scope_add, List.append_assoc]
    cases line <;> rfl

/-- The count of paths goes on over the run. -/
theorem paths_foldl_add (lines : List Line) (c : Chart) :
    (lines.foldl add c).paths = c.paths ++ c.scope.numbered c.paths.length (lines.filterMap Line.path?) := by
  induction lines generalizing c with
  | nil => exact (List.append_nil _).symm
  | cons line rest ih =>
    rw [List.foldl_cons, ih, paths_add, scope_add, List.append_assoc]
    cases line with
    | path p => simp [Line.path?, NameScope.numbered]
    | _ => simp [Line.path?, NameScope.numbered, List.filterMap_cons]

theorem compile_eq (instanceName : String) (source : List (List Char)) :
    compile instanceName source = (content source).foldl add (blank instanceName (readOptions source)) := rfl

theorem options_compile (instanceName : String) (source : List (List Char)) :
    (compile instanceName source).options = readOptions source :=
  options_foldl_add _ _

/-- Regions stand in the order of their lines, and nothing is merged. -/
theorem regions_compile (instanceName : String) (source : List (List Char)) :
    (compile instanceName source).regions = (content source).filterMap Line.region? :=
  regions_foldl_add _ _

theorem definitions_compile (instanceName : String) (source : List (List Char)) :
    (compile instanceName source).definitions =
      ((content source).filterMap Line.markup?).map (compile instanceName source).scope.marked := by
  rw [compile_eq, definitions_foldl_add, scope_foldl_add]
  rfl

theorem paths_compile (instanceName : String) (source : List (List Char)) :
    (compile instanceName source).paths =
      (compile instanceName source).scope.numbered 0 ((content source).filterMap Line.path?) := by
  rw [compile_eq, paths_foldl_add, scope_foldl_add]
  rfl

theorem fill_compile (instanceName : String) (source : List (List Char)) (name : String) :
    (compile instanceName source).styles.fill.get? name =
      ((content source).filterMap (Line.fillOf? name)).getLast? :=
  (foldl_of_set (fun c : Chart => c.styles.fill.get? name) (fill_add name) _ _).trans Option.or_none

theorem stroke_compile (instanceName : String) (source : List (List Char)) (name : String) :
    (compile instanceName source).styles.stroke.get? name =
      ((content source).filterMap (Line.strokeOf? name)).getLast? :=
  (foldl_of_set (fun c : Chart => c.styles.stroke.get? name) (stroke_add name) _ _).trans Option.or_none

theorem geometry_compile (instanceName : String) (source : List (List Char)) (name : String) :
    (compile instanceName source).styles.geometry.get? name =
      ((content source).filterMap (Line.geometryOf? name)).getLast? :=
  (foldl_of_set (fun c : Chart => c.styles.geometry.get? name) (geometry_add name) _ _).trans Option.or_none

theorem text_compile (instanceName : String) (source : List (List Char)) :
    some (compile instanceName source).styles.text =
      ((content source).filterMap Line.text?).getLast?.or (some .empty) :=
  foldl_of_set (fun c : Chart => some c.styles.text) text_add _ _

theorem glow_compile (instanceName : String) (source : List (List Char)) :
    some (compile instanceName source).styles.glow =
      ((content source).filterMap Line.glow?).getLast?.or (some .empty) :=
  foldl_of_set (fun c : Chart => some c.styles.glow) glow_add _ _

theorem label_compile (instanceName : String) (source : List (List Char)) :
    some (compile instanceName source).styles.label =
      ((content source).filterMap Line.label?).getLast?.or (some .empty) :=
  foldl_of_set (fun c : Chart => some c.styles.label) label_add _ _

end Chart

end HexAtlas
