import HexAtlas.Report.Value
import HexAtlas.Scene

namespace HexAtlas

/-- What a viewer needs to frame a map: its extent and its first view. -/
structure Report where
  name : String
  /-- None for a map without regions. -/
  bounds : Option Bounds
  centre : Point
  zoom : Option Double
  regions : Nat
  paths : Nat
  types : List String

namespace Report

def ofChart (name : String) (c : Chart) : Report where
  name := name
  bounds := c.bounds?
  centre := c.centre
  zoom := c.options.zoom
  regions := c.regions.length
  paths := c.paths.length
  types := c.types

def value (r : Report) : ReportValue :=
  let numbers (xs : List Double) : ReportValue := .list (xs.map .number)
  .fields [
    ("name", .text r.name),
    ("bounds", (r.bounds.map fun b => numbers [b.minX, b.minY, b.maxX, b.maxY]).getD .null),
    ("center", .fields [("x", .number r.centre.x), ("y", .number r.centre.y)]),
    ("zoom", (r.zoom.map .number).getD .null),
    ("regions", .count r.regions),
    ("paths", .count r.paths),
    ("types", .list (r.types.map .text))]

/-- A single report stands for itself; others are listed. -/
def print (reports : List Report) : String :=
  let value := match reports with
    | [report] => report.value
    | _ => .list (reports.map Report.value)
  String.ofList (value.print 0 ++ ['\n'])

end Report

end HexAtlas
