import HexAtlas.Line
import HexAtlas.Markup.NameScope

namespace HexAtlas

/-- Everything that attribute lines have set. -/
structure Styles where
  fill : Table Attributes
  stroke : Table Attributes
  geometry : Table String
  text : Attributes
  glow : Attributes
  label : Attributes
deriving DecidableEq, Repr

namespace Styles

def empty : Styles := ⟨.empty, .empty, .empty, .empty, .empty, .empty⟩

instance : Inhabited Styles := ⟨empty⟩

/-- A type with fill attributes is drawn as a background. -/
def isBackground (s : Styles) (type : String) : Bool := s.fill.contains type

/-- The attributes of every cell's outline. -/
def outline (s : Styles) : Attributes := (s.fill.get? "default").getD .empty

end Styles

/-- A map as it is compiled from lines. A first pass reads the option lines, which fix the grid and the names; a
second pass adds every other line that has a shape. -/
structure Chart where
  instanceName : String
  options : Options
  scope : NameScope
  regions : List Region
  paths : List Path
  styles : Styles
  /-- Raw markup with its names marked. -/
  definitions : List String

instance : Inhabited Chart := ⟨⟨"", .initial, ⟨none⟩, [], [], .empty, []⟩⟩

/-- The setting of a line that is an option line of a known key. -/
def settingOf? (line : List Char) : Option Setting :=
  let line := trimEnd line
  if isComment line then none else Setting.ofLine? line

/-- The content of a line that is neither blank nor a comment nor an option line. -/
def contentOf? (line : List Char) : Option Line :=
  let line := trimEnd line
  if line = [] || isComment line || (Setting.argument? line).isSome then none else Line.recognize? line

def readOptions (source : List (List Char)) : Options :=
  (source.filterMap settingOf?).foldl Options.apply .initial

namespace Chart

def blank (instanceName : String) (options : Options) : Chart where
  instanceName := instanceName
  options := options
  scope := .ofInstance instanceName options.global
  regions := []
  paths := []
  styles := .empty
  definitions := []

/-- Paths are counted from one in the order of their lines. -/
def addPath (c : Chart) (path : PathLine) : Chart :=
  { c with paths := c.paths ++ [{ path with id := c.scope.apply ("path-" ++ toString (c.paths.length + 1)) }] }

def add (c : Chart) : Line → Chart
  | .region region => { c with regions := c.regions ++ [region] }
  | .path path => c.addPath path
  | .fill name attributes => { c with styles.fill := c.styles.fill.set name attributes }
  | .definition markup =>
    { c with definitions := c.definitions ++ [String.ofList (c.scope.markNames markup.toList)] }
  | .stroke name attributes => { c with styles.stroke := c.styles.stroke.set name attributes }
  | .geometry name outline => { c with styles.geometry := c.styles.geometry.set name outline }
  | .text attributes => { c with styles.text := attributes }
  | .glow attributes => { c with styles.glow := attributes }
  | .label attributes => { c with styles.label := attributes }

def compile (instanceName : String) (source : List (List Char)) : Chart :=
  (source.filterMap contentOf?).foldl add (blank instanceName (readOptions source))

def orientation (c : Chart) : Orientation := c.options.orientation

def bounds? (c : Chart) : Option Bounds := c.orientation.viewbox? (c.regions.map (·.hex))

/-- The cell in the middle of the first view: the one asked for, else the origin if it is on the map, else the cell
of the first region. -/
def centreCell (c : Chart) : Hex :=
  let origin? := (c.regions.find? (·.hex = .origin)).map (·.hex)
  (c.options.centeredAt <|> origin? <|> c.regions.head?.map (·.hex)).getD .origin

def centre (c : Chart) : Point := c.orientation.pixels c.centreCell

end Chart

/-- Puts a text into an ascending list that may have it already. -/
def insertSorted (x : String) : List String → List String
  | [] => [x]
  | y :: rest => if x < y then x :: y :: rest else if x = y then y :: rest else y :: insertSorted x rest

/-- The texts of a list in ascending order, each once. -/
def sortedSet (xs : List String) : List String := xs.foldl (fun set x => insertSorted x set) []

def Chart.types (c : Chart) : List String := sortedSet (c.regions.flatMap (·.types) ++ c.paths.map (·.kind))

end HexAtlas
