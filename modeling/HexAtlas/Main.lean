import HexAtlas.Command.Invocation

namespace HexAtlas

def placeText (p : Place) : String := String.ofList ('/' :: Location.joinPieces p)

/-- Adds what is at a place, and under it down to some depth, to the picture. Only files that may be maps or a
manifest are read. -/
def takePicture : (depth : Nat) → (named : Bool) → FileSystem → Place → IO FileSystem
  | 0, _, fs, _ => return fs
  | depth + 1, named, fs, p => do
    let real? ← try some <$> IO.FS.realPath (placeText p) catch _ => pure none
    match real? with
    | none => return fs
    | some real =>
      if ← real.isDir then
        let fs := if p = [] then fs else fs.put p .directory
        let entries ← try real.readDir catch _ => pure #[]
        entries.toList.foldlM (fun fs e => takePicture depth false fs (p ++ [e.fileName.toList])) fs
      else if ← real.pathExists then
        let l : Location := ⟨(placeText p).toList⟩
        let isWanted := named || (SourceKind.ofLocation? l).isSome || l.fileName? = some Manifest.fileName.toList
        let content ← if isWanted then (try IO.FS.readBinFile real catch _ => pure .empty) else pure .empty
        return fs.put p (.file content)
      else return fs

/-- The directories that a place lies in. -/
def above (p : Place) : List Place := (List.range p.length).map p.take

/-- Takes pictures of everything that a location may lead to. -/
def picture (fs : FileSystem) (l : Location) : IO FileSystem := do
  let names := (splitAll '/' l.text).filter (!Location.isIdle ·)
  let start := if l.isAbsolute then [] else fs.current
  let p := names.foldl (fun p name => if name = ['.', '.'] then p.dropLast else p ++ [name]) start
  let fs ← (above p).foldlM (fun (fs : FileSystem) q => do
    if q = [] || (fs.get? q).isSome then return fs
    let isDirectory ← try (← IO.FS.realPath (placeText q)).isDir catch _ => pure false
    return if isDirectory then fs.put q .directory else fs) fs
  takePicture 64 true fs p

def Request.locations : Request → List Location
  | .render r => .ofString "." :: r.output.toList ++ r.paths
  | .bounds r => [.ofString ".", r.file]
  | .init r => [r.root]
  | .completions _ => []

/-- The sources and the output that a manifest adds to these. -/
def Request.furtherLocations (r : Request) (fs : FileSystem) : List Location :=
  let root := match r with
    | .init r => r.root
    | _ => .ofString "."
  match fs.manifestAt root with
  | .ok m => m.output :: m.searched.map root.join
  | .error _ => []

def writeBack (before after : FileSystem) : IO Unit := do
  let changed := after.entries.filter fun (p, e) => before.get? p ≠ some e
  for (p, e) in changed.mergeSort fun a b => !decide (b.1 < a.1) do
    match e with
    | .directory => IO.FS.createDirAll (placeText p)
    | .file content => IO.FS.writeBinFile (placeText p) content

def UsageError.text : UsageError → String
  | unknownArgument => "error: unexpected argument found"
  | unknownCommand => "error: unrecognized subcommand"
  | missingCommand | nothingGiven => "error: a subcommand is required: render, bounds, init or completions"
  | missingArgument => "error: a required argument was not provided"
  | invalidValue => "error: an argument has no valid value"
  | unreadableNumber => "error: an argument is no number"
  | unwantedValue => "error: a value was given to a flag"
  | repeated => "error: an argument was given more than once"
  | help => "Usage: hexmap [OPTIONS] <render|bounds|init|completions> [ARGUMENTS]"
  | version => "hexmap 0.1.0"

def runInvocation (i : Invocation) : IO UInt32 := do
  let names := (splitAll '/' (← IO.currentDir).toString.toList).filter (!Location.isIdle ·)
  let fs : FileSystem := ⟨(above names).tail.map (·, .directory), names⟩
  let fs ← i.request.locations.foldlM picture (if names = [] then fs else fs.put names .directory)
  let fs ← (i.request.furtherLocations fs).foldlM picture fs
  let p : Palette := if ← (← IO.getStderr).isTty then .coloured else .plain
  let outcome := i.request.run p fs
  writeBack fs outcome.files
  IO.print outcome.output
  for line in outcome.status do IO.eprintln line
  match outcome.failure? with
  | none => return 0
  | some f =>
    IO.eprintln f.message
    for help in f.help? do IO.eprintln ("help: " ++ help)
    return 1

end HexAtlas

/-- Takes a picture of the files that a request may touch, runs the request on it, and writes back what has changed.
-/
def main (args : List String) : IO UInt32 := do
  match HexAtlas.Invocation.parse args with
  | .ok i => HexAtlas.runInvocation i
  | .error e =>
    if e = .help || e = .version then
      IO.println e.text
      return 0
    else
      IO.eprintln e.text
      return 2
