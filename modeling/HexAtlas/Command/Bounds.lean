import HexAtlas.Command.Outcome
import HexAtlas.Project.Discovery
import HexAtlas.Report

namespace HexAtlas

/-- A request to report the bounds of the maps in a file. -/
structure BoundsRequest where
  file : Location
  theme : Option String

namespace BoundsRequest

/-- The manifest is read only if no theme is given. -/
def reports (r : BoundsRequest) (fs : FileSystem) : Except Failure (List Report) := do
  let theme ← match r.theme with
    | some name => pure (Theme.resolve name)
    | none => (fun m => Theme.resolve m.theme) <$> fs.manifestAt (.ofString ".")
  let maps ← fs.mapsIn r.file
  if maps = [] then throw (.noMaps r.file)
  return maps.map fun s => .ofChart s.name (.compileThemed (instanceToken s.name) s.text theme)

def run (r : BoundsRequest) (fs : FileSystem) : Outcome :=
  match r.reports fs with
  | .ok reports => .printed fs (Report.print reports)
  | .error f => .failed fs f

end BoundsRequest

end HexAtlas
