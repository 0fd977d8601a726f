import HexAtlas.Command.Outcome
import HexAtlas.Project.Discovery
import HexAtlas.Scene

namespace HexAtlas

/-- A request to draw maps. First everything is read and checked, which changes nothing; then the drawings are
written one by one, up to the first that cannot be written. -/
structure RenderRequest where
  /-- Files and directories; those of the manifest if there are none. -/
  paths : List Location
  output : Option Location
  theme : Option String
  /-- The name that identifiers are made unique by, instead of each map's own. -/
  id : Option String
  width : Option Double
  height : Option Double
  /-- Drawings go to the standard output instead of files. -/
  stdout : Bool

/-- What is to be drawn, how, and where to. -/
structure RenderPlan where
  output : Location
  theme : Theme
  viewport : Viewport
  maps : List MapSource
deriving DecidableEq

structure Drawing where
  name : String
  regions : Nat
  paths : Nat
  svg : String
deriving DecidableEq, Repr

namespace RenderRequest

def plan (r : RenderRequest) (fs : FileSystem) : Except Failure RenderPlan := do
  let m ← fs.manifestAt (.ofString ".")
  let viewport : Viewport := ⟨r.width.getD m.viewport.width, r.height.getD m.viewport.height⟩
  if !viewport.isValid then throw (.viewport viewport)
  let files := fs.gather m.excludes (if r.paths = [] then m.searched else r.paths)
  if files.isEmpty then throw .noSources
  let maps ← fs.mapsOf files
  return ⟨r.output.getD m.output, Theme.resolve (r.theme.getD m.theme), viewport, maps⟩

end RenderRequest

namespace Drawing

def ofSource (plan : RenderPlan) (id : Option String) (s : MapSource) : Drawing :=
  let c := Chart.compileThemed (instanceToken (id.getD s.name)) s.text plan.theme
  ⟨s.name, c.regions.length, c.paths.length, (c.scene plan.viewport).svg⟩

def status (d : Drawing) (p : Palette) : String :=
  let parts := "(" ++ counted d.regions "region" "regions" ++ ", " ++ counted d.paths "path" "paths" ++ ")"
  statusLine p .progress "Rendering" (d.name ++ " " ++ p.dim parts)

def file (d : Drawing) (directory : Location) : Location := directory.join (.ofString (d.name ++ ".svg"))

/-- Writes drawings into a directory. The result holds the number of those that were begun. -/
def writeAll (directory : Location) (fs : FileSystem) : List Drawing → FileSystem × Nat × Option Failure
  | [] => (fs, 0, none)
  | d :: rest =>
    match fs.write (d.file directory) d.svg with
    | .error cause => (fs, 1, some (.drawingUnwritten (d.file directory) cause))
    | .ok fs =>
      let (fs, begun, failure?) := writeAll directory fs rest
      (fs, begun + 1, failure?)

end Drawing

/-- Makes the output directory unless something is there, and writes the drawings into it. -/
def RenderPlan.write (plan : RenderPlan) (fs : FileSystem) (ds : List Drawing) (p : Palette) : Outcome :=
  let (fs, made) := if fs.isThere plan.output then (fs, .ok ()) else fs.makeDirectories plan.output
  match made with
  | .error cause => .failed fs (.directoryUnmade plan.output cause)
  | .ok () =>
    let (fs, begun, failure?) := Drawing.writeAll plan.output fs ds
    let status := (ds.take begun).map (·.status p)
    match failure? with
    | some f => ⟨fs, "", status, some f⟩
    | none =>
      let finished := counted ds.length "map" "maps" ++ " to " ++ p.cyan (fs.display plan.output)
      ⟨fs, "", status ++ [statusLine p .progress "Finished" finished], none⟩

def RenderRequest.run (r : RenderRequest) (p : Palette) (fs : FileSystem) : Outcome :=
  match r.plan fs with
  | .error f => .failed fs f
  | .ok plan =>
    let ds := plan.maps.map (Drawing.ofSource plan r.id)
    if ds = [] then ⟨fs, "", [statusLine p .warning "Skipping" "no map blocks found"], none⟩
    else if r.stdout then ⟨fs, String.join (ds.map (·.svg)), ds.map (·.status p), none⟩
    else plan.write fs ds p

end HexAtlas
