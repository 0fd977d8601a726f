import HexAtlas.Chart
import HexAtlas.Markup.Element
import HexAtlas.Scene.Curve
import HexAtlas.Scene.Viewport

namespace HexAtlas

def coordinateText (v : Double) : String := String.ofList (v.fixed 1)

def wholeText (v : Double) : String := String.ofList (v.fixed 0)

def pointsText (points : List Point) : String := " ".intercalate (points.map Point.text)

namespace Chart

def useSymbol (c : Chart) (cell : Hex) (type : String) : Element :=
  let p := c.orientation.pixels cell
  ((Element.named "use").attr "x" (coordinateText p.x)).attr "y" (coordinateText p.y)
    |>.attr "href" (c.scope.href type)

def backgrounds (c : Chart) (r : Region) : List Element :=
  (r.types.filter c.styles.isBackground).map (c.useSymbol r.hex)

def things (c : Chart) (r : Region) : List Element :=
  (r.types.filter fun type => !c.styles.isBackground type).map (c.useSymbol r.hex)

/-- A text in the middle of a line at the point `p`. -/
def textAt (p : Point) : Element :=
  ((Element.named "text").attr "text-anchor" "middle").attr "x" (coordinateText p.x)
    |>.attr "y" (coordinateText p.y)

def coordinates (c : Chart) (r : Region) : Element :=
  let p := (c.orientation.pixels r.hex).offset 0 (-c.orientation.textOffset)
  ((textAt p).attrs c.styles.text).text (c.options.formatCoordinates r.hex)

def outline (c : Chart) (r : Region) : Element :=
  let p := c.orientation.pixels r.hex
  (((Element.named "polygon").attr "id" (c.scope.apply r.id)).attrs c.styles.outline).attr "points"
    (pointsText (c.orientation.corners.map fun corner => p.offset corner.x corner.y))

/-- One or two texts in a group: one with the glow behind, if there is a glow, and the text itself. -/
def withGlow (c : Chart) (text : Attributes → Element) : Element :=
  let backdrop := if c.styles.glow.isEmpty then [] else [text c.styles.glow]
  (Element.named "g").extend (backdrop ++ [text .empty])

/-- The label of a region, below the centre of its cell. -/
def regionLabel? (c : Chart) (r : Region) : Option Element :=
  r.label.map fun label =>
    let p := (c.orientation.pixels r.hex).offset 0 c.orientation.textOffset
    c.withGlow fun extra =>
      let e := ((textAt p).attrs c.styles.label).attrs extra
      let e := match r.size with
        | some size => e.attr "font-size" size
        | none => e
      e.text label

def pathPoints (c : Chart) (p : Path) : List Point :=
  (c.orientation.walk p.start p.steps).map c.orientation.pixels

/-- The line of a path. A path that stays in its first cell has none. -/
def connector? (c : Chart) (p : Path) : Option Element :=
  (curveText? (c.pathPoints p)).map fun d =>
    (((Element.named "path").attr "id" p.id).attrs ((c.styles.stroke.get? p.kind).getD .empty)).attr "d" d

/-- Labels stand on the right if they are told to, or if the path starts to the left, where they would be upside
down. -/
def labelOnRight (p : Path) (points : List Point) : Bool :=
  match p.side with
  | some side => side = .right
  | none =>
    match points with
    | first :: second :: _ => second.x < first.x
    | _ => false

def pathLabel? (c : Chart) (p : Path) : Option Element :=
  match p.label, c.pathPoints p with
  | some label, first :: second :: rest =>
    some <| c.withGlow fun extra =>
      let along := (Element.named "textPath").attr "href" ("#" ++ p.id)
      let along := if labelOnRight p (first :: second :: rest) then along.attr "side" "right" else along
      let along := match p.labelStart with
        | some start => along.attr "startOffset" start
        | none => along
      (((Element.named "text").attrs c.styles.label).attrs extra).child (along.text label)
  | _, _ => none

/-- The symbol of a type: the glow of its outline if it has no fill, the filled cell, and the stroked outline. A
type with neither fill nor outline has no symbol. -/
def symbol? (c : Chart) (type : String) : Option Element :=
  let fill := c.styles.fill.get? type
  let geometry := c.styles.geometry.get? type
  if fill.isNone && geometry.isNone then none
  else
    let halo := match geometry, fill with
      | some d, none => [((Element.named "path").attrs c.styles.glow).attr "d" d]
      | _, _ => []
    let cell := fill.toList.map fun attributes =>
      ((Element.named "polygon").attrs attributes).attr "points" (pointsText c.orientation.corners)
    let stroked := geometry.toList.map fun d =>
      ((Element.named "path").attrs ((c.styles.stroke.get? type).getD .empty)).attr "d" d
    some (((Element.named "g").attr "id" (c.scope.apply type)).extend (halo ++ cell ++ stroked))

def definitionsElement (c : Chart) : Element :=
  let defs := Element.named "defs"
  { defs with children := c.definitions.map .raw ++ (c.types.filterMap c.symbol?).map Element.toNode }

inductive Layer where
  | backgrounds
  | paths
  | things
  | coordinates
  | regions
  | pathLabels
  | labels
deriving DecidableEq, Repr

namespace Layer

/-- In the order of drawing. -/
def all : List Layer := [backgrounds, paths, things, coordinates, regions, pathLabels, labels]

def name : Layer → String
  | backgrounds => "backgrounds"
  | paths => "paths"
  | things => "things"
  | coordinates => "coordinates"
  | regions => "regions"
  | pathLabels => "path-labels"
  | labels => "labels"

end Layer

/-- The elements of a layer in the order of the lines that they come from. -/
def layerElements (c : Chart) : Layer → List Element
  | .backgrounds => c.regions.flatMap c.backgrounds
  | .paths => c.paths.filterMap c.connector?
  | .things => c.regions.flatMap c.things
  | .coordinates => c.regions.map c.coordinates
  | .regions => c.regions.map c.outline
  | .pathLabels => c.paths.filterMap c.pathLabel?
  | .labels => c.regions.filterMap c.regionLabel?

def layer (c : Chart) (l : Layer) : Element :=
  ((Element.named "g").attr "id" (c.scope.apply l.name)).extend (c.layerElements l)

/-- The white sheet behind a map that has regions. -/
def sheet (b : Bounds) : Element :=
  let e := (Element.named "rect").attr "x" (wholeText b.minX)
  let e := e.attr "y" (wholeText b.minY)
  let e := e.attr "width" (wholeText b.width)
  let e := e.attr "height" (wholeText b.height)
  e.attr "fill" "white"

def root (c : Chart) (viewport : Viewport) : Element :=
  let e := (Element.named "svg").attr "xmlns" "http://www.w3.org/2000/svg"
  let e := e.attr "xmlns:xlink" "http://www.w3.org/1999/xlink"
  let e := e.attr "viewBox" (viewport.viewBox c.centre)
  e.attr "class" "textmapper-svg"

/-- The drawing of a map: definitions and symbols first, then seven layers, later ones over earlier ones. -/
def scene (c : Chart) (viewport : Viewport) : Element :=
  (c.root viewport).extend (c.bounds?.toList.map sheet ++ c.definitionsElement :: Layer.all.map c.layer)

end Chart

end HexAtlas
