import HexAtlas.Project.Location

namespace HexAtlas

inductive FileError where
  | notFound
  | notDirectory
  | isDirectory
  | alreadyThere
  | nameTooLong
  | nulInName
  | notText
deriving DecidableEq, Repr

namespace FileError

def message : FileError → String
  | notFound => "No such file or directory (os error 2)"
  | notDirectory => "Not a directory (os error 20)"
  | isDirectory => "Is a directory (os error 21)"
  | alreadyThere => "File exists (os error 17)"
  | nameTooLong => "File name too long (os error 36)"
  | nulInName => "file name contained an unexpected NUL byte"
  | notText => "stream did not contain valid UTF-8"

end FileError

inductive Entry where
  | file (content : ByteArray)
  | directory

instance : DecidableEq Entry
  | .directory, .directory => isTrue rfl
  | .directory, .file _ | .file _, .directory => isFalse nofun
  | .file ⟨a⟩, .file ⟨b⟩ =>
    if h : a = b then isTrue (by rw [h]) else isFalse fun e => by
      cases e
      exact h rfl

/-- The names on the way from the root. -/
abbrev Place := List (List Char)

/-- A tree of files as the table of its places, with a current directory from which locations are followed. There
are no symbolic links, so a place has one path, and no permissions, so every file can be read and written. -/
structure FileSystem where
  entries : List (Place × Entry)
  current : Place

namespace FileSystem

/-- The entry at a place. The root is always a directory. -/
def get? (fs : FileSystem) (p : Place) : Option Entry :=
  if p = [] then some .directory else fs.entries.lookup p

def put (fs : FileSystem) (p : Place) (e : Entry) : FileSystem :=
  { fs with entries := (p, e) :: fs.entries.filter (·.1 ≠ p) }

/-- Follows pieces from a place. Every place on the way has to be a directory; the last one need not be there. -/
def follow (fs : FileSystem) (p : Place) : List (List Char) → Except FileError Place
  | [] => .ok p
  | piece :: rest =>
    match fs.get? p with
    | none => .error .notFound
    | some (.file _) => .error .notDirectory
    | some .directory =>
      if Location.isIdle piece then fs.follow p rest
      else if piece = ['.', '.'] then fs.follow p.dropLast rest
      else if 255 < byteCount piece then .error .nameTooLong
      else fs.follow (p ++ [piece]) rest

/-- The place that a location names, whether or not there is anything. -/
def place (fs : FileSystem) (l : Location) : Except FileError Place :=
  if l.text = [] then .error .notFound
  else if l.text.contains '\x00' then .error .nulInName
  else if 4095 < byteCount l.text then .error .nameTooLong
  else fs.follow (if l.isAbsolute then [] else fs.current) (splitAll '/' l.text)

/-- The entry that a location names. -/
def find? (fs : FileSystem) (l : Location) : Option (Place × Entry) :=
  match fs.place l with
  | .ok p => (fs.get? p).map fun e => (p, e)
  | .error _ => none

def isThere (fs : FileSystem) (l : Location) : Bool := (fs.find? l).isSome

def isDirectory (fs : FileSystem) (l : Location) : Bool := (fs.find? l).any fun (_, e) => e = .directory

/-- The text of a file. -/
def read (fs : FileSystem) (l : Location) : Except FileError (List Char) := do
  let p ← fs.place l
  match fs.get? p with
  | none => .error .notFound
  | some .directory => .error .isDirectory
  | some (.file content) =>
    match String.fromUTF8? content with
    | some text => .ok text.toList
    | none => .error .notText

/-- Makes a file or replaces its content. -/
def write (fs : FileSystem) (l : Location) (text : String) : Except FileError FileSystem := do
  let p ← fs.place l
  match fs.get? p with
  | some .directory => .error .isDirectory
  | _ => .ok (fs.put p (.file text.toUTF8))

/-- Makes one directory. Slashes at the end of its location do not count. -/
def makeDirectory (fs : FileSystem) (l : Location) : Except FileError FileSystem := do
  let text := (l.text.reverse.dropWhile (· = '/')).reverse
  let p ← fs.place (if text = [] then l else ⟨text⟩)
  match fs.get? p with
  | some _ => .error .alreadyThere
  | none => .ok (fs.put p .directory)

/-- Makes the first of some directories, each of which lies in the next one, and as many of the others as it needs.
What is made before an error stays. -/
def makeFirst (fs : FileSystem) : List Location → FileSystem × Except FileError Unit
  | [] => (fs, .ok ())
  | l :: above =>
    if l.text = [] then (fs, .ok ())
    else match fs.makeDirectory l with
      | .ok fs => (fs, .ok ())
      | .error .notFound =>
        match fs.makeFirst above with
        | (fs, .error e) => (fs, .error e)
        | (fs, .ok ()) =>
          match fs.makeDirectory l with
          | .ok fs => (fs, .ok ())
          | .error e => (fs, if fs.isDirectory l then .ok () else .error e)
      | .error e => (fs, if fs.isDirectory l then .ok () else .error e)

/-- A location and those above it, up to `count` of them. -/
def upwards : (count : Nat) → Location → List Location
  | 0, _ => []
  | count + 1, l => l :: (l.parent?.map (upwards count)).getD []

/-- Makes a directory and those that it lies in. -/
def makeDirectories (fs : FileSystem) (l : Location) : FileSystem × Except FileError Unit :=
  fs.makeFirst (upwards (l.steps.length + 1) l)

/-- The files at and under a location, each seen from it. Those of a directory come where its name stands among the
names beside it. -/
def filesUnder (fs : FileSystem) (l : Location) : List Location :=
  match fs.find? l with
  | none => []
  | some (_, .file _) => [l]
  | some (p, .directory) =>
    let below := fs.entries.filterMap fun (q, e) =>
      if e ≠ .directory && p.isPrefixOf q then some (q.drop p.length) else none
    (below.mergeSort fun a b => !decide (b < a)).map fun names => l.join ⟨Location.joinPieces names⟩

/-- A location as it is shown: without the current directory at its front. -/
def display (fs : FileSystem) (l : Location) : String :=
  match Location.within? ⟨'/' :: Location.joinPieces fs.current⟩ l with
  | some rest => if rest.text = [] then "." else rest.toString
  | none => l.toString

end FileSystem

end HexAtlas
