import HexAtlas.Command.Outcome
import HexAtlas.Project.Discovery

namespace HexAtlas

/-- A request to start a project: a manifest that names the directories with maps. -/
structure InitRequest where
  root : Location
  /-- A manifest that is there is replaced. -/
  force : Bool

namespace InitRequest

/-- The directory of a file as the manifest names it. -/
def directoryName? (root file : Location) : Option String :=
  file.parent?.map fun parent =>
    let inside := (Location.within? root parent).getD parent
    if inside.text = [] then "." else inside.toString ++ "/"

def directories (root : Location) (files : SourceFiles) : List String :=
  sortedSet (files.all.filterMap (directoryName? root))

def run (r : InitRequest) (p : Palette) (fs : FileSystem) : Outcome :=
  let file := r.root.join (.ofString Manifest.fileName)
  if fs.isThere file && !r.force then .failed fs .manifestThere
  else
    let scanning := statusLine p .progress "Scanning" (fs.display r.root)
    match fs.discover r.root with
    | .error f => ⟨fs, "", [scanning], some f⟩
    | .ok files =>
      match fs.write file (Manifest.starter (directories r.root files)) with
      | .error cause => ⟨fs, "", [scanning], some (.manifestUnwritten file cause)⟩
      | .ok fs =>
        let found := counted files.count "source file" "source files"
        ⟨fs, "",
          [scanning, statusLine p .progress "Created" (Manifest.fileName ++ " (" ++ found ++ " found)")], none⟩

end InitRequest

end HexAtlas
