import HexAtlas.Project.Failure
import HexAtlas.Theme
import HexAtlas.Yaml.Node

namespace HexAtlas

/-- The settings of a project, kept in the file `hexmap.yaml` at its root. Fields that the file does not give have
their standard values, and fields that it gives beyond these are passed over. -/
structure Manifest where
  sources : List String
  output : Location
  /-- The theme of maps that do not ask for one. -/
  theme : String
  viewport : Viewport
  excludes : List String
deriving DecidableEq

namespace Manifest

def fileName : String := "hexmap.yaml"

def standard : Manifest where
  sources := []
  output := .ofString "dist"
  theme := Theme.standard.name
  viewport := .standard
  excludes := []

/-- The sources of the project; the project's own directory if it names none. -/
def searched (m : Manifest) : List Location := (if m.sources = [] then ["."] else m.sources).map .ofString

/-- A field by its name in the file. -/
inductive Field where
  | sources
  | output
  | theme
  | width
  | height
  | excludes
deriving DecidableEq, Repr

def Field.ofKey? : String → Option Field
  | "sources" => some .sources
  | "output" => some .output
  | "theme" => some .theme
  | "width" => some .width
  | "height" => some .height
  | "excludes" => some .excludes
  | _ => none

/-- The text of any scalar, as it is written. -/
def text? : Yaml.Node → Option String
  | .scalar _ text => some text
  | _ => none

/-- A sequence of scalars. An empty place is an empty sequence. -/
def texts? : Yaml.Node → Option (List String)
  | .sequence items => items.mapM text?
  | .scalar true "" => some []
  | _ => none

/-- A number, which must be finite unless it is written as `.inf` or `.nan`. -/
def number? : Yaml.Node → Option Double
  | .scalar true text =>
    if [".inf", ".Inf", ".INF", "+.inf", "+.Inf", "+.INF"].contains text then some (.infinite false)
    else if ["-.inf", "-.Inf", "-.INF"].contains text then some (.infinite true)
    else if [".nan", ".NaN", ".NAN"].contains text then some .nan
    else (readDouble? text.toList).filter Binary.isFinite
  | _ => none

/-- Sets a field to the value of a node of the right form. -/
def set? (m : Manifest) (f : Field) (node : Yaml.Node) : Option Manifest :=
  match f with
  | .sources => (texts? node).map fun sources => { m with sources }
  | .output => (text? node).map fun output => { m with output := .ofString output }
  | .theme => (text? node).map fun theme => { m with theme }
  | .width => (number? node).map fun width => { m with viewport.width := width }
  | .height => (number? node).map fun height => { m with viewport.height := height }
  | .excludes => (texts? node).map fun excludes => { m with excludes }

/-- Sets the fields of a mapping, none of them twice. -/
def setAll? (m : Manifest) (done : List Field) : List (Yaml.Node × Yaml.Node) → Option Manifest
  | [] => some m
  | (key, value) :: rest => do
    match Field.ofKey? (← text? key) with
    | none => m.setAll? done rest
    | some f => if done.contains f then none else (← m.set? f value).setAll? (f :: done) rest

/-- The manifest that a stream of documents gives: one mapping, or nothing at all. -/
def ofDocuments? : List Yaml.Node → Option Manifest
  | [] => some standard
  | [.mapping entries] => standard.setAll? [] entries
  | [.scalar true ""] => some standard
  | _ => none

def parse (cs : List Char) : Except Failure Manifest :=
  if trim cs = [] then .ok standard
  else match (Yaml.parse? cs).bind ofDocuments? with
    | none => .error .manifestMalformed
    | some m => if m.viewport.isValid then .ok m else .error (.manifestViewport m.viewport)

/-- The file of a new project whose maps lie in some directories. -/
def starter (directories : List String) : String :=
  let listed := if directories = [] || directories = ["."] then []
    else "sources:\n" :: directories.map fun directory => "  - \"" ++ directory ++ "\"\n"
  let side (v : Double) := String.ofList (v.shortest .plain) ++ "\n"
  String.join <| ["# hexmap project settings\n"] ++ listed ++ [
    "output: dist\n", "theme: " ++ Theme.standard.name ++ "\n", "# viewport size of rendered SVGs\n",
    "width: " ++ side Viewport.standard.width, "height: " ++ side Viewport.standard.height]

end Manifest

end HexAtlas
