import HexAtlas.Blocks
import HexAtlas.Project.Exclusion
import HexAtlas.Project.Manifest

namespace HexAtlas

/-- Files that may hold maps, each kind in the order of finding. -/
structure SourceFiles where
  maps : List Location
  documents : List Location
deriving DecidableEq, Repr

namespace SourceFiles

def empty : SourceFiles := ⟨[], []⟩

def addAs (s : SourceFiles) (kind : SourceKind) (l : Location) : SourceFiles :=
  match kind with
  | .map => { s with maps := s.maps ++ [l] }
  | .markdown => { s with documents := s.documents ++ [l] }

/-- Adds a file whose name tells its kind. -/
def add? (s : SourceFiles) (l : Location) : Option SourceFiles :=
  (SourceKind.ofLocation? l).map fun kind => s.addAs kind l

def merge (s t : SourceFiles) : SourceFiles := ⟨s.maps ++ t.maps, s.documents ++ t.documents⟩

/-- Maps come before documents. -/
def all (s : SourceFiles) : List Location := s.maps ++ s.documents

def count (s : SourceFiles) : Nat := s.maps.length + s.documents.length

def isEmpty (s : SourceFiles) : Bool := s.count = 0

end SourceFiles

namespace FileSystem

/-- The sources at and under a location that no pattern excludes. -/
def scan (fs : FileSystem) (excludes : List String) (l : Location) : SourceFiles :=
  ((fs.filesUnder l).filter fun file => !isExcluded excludes file).foldl
    (fun found file => (found.add? file).getD found) .empty

def scanAll (fs : FileSystem) (excludes : List String) (ls : List Location) : SourceFiles :=
  ls.foldl (fun found l => found.merge (fs.scan excludes l)) .empty

/-- The manifest at the root of a project, or the standard one if there is none. -/
def manifestAt (fs : FileSystem) (root : Location) : Except Failure Manifest :=
  let file := root.join (.ofString Manifest.fileName)
  if fs.isThere file then
    match fs.read file with
    | .ok text => Manifest.parse text
    | .error cause => .error (.manifestUnread file cause)
  else .ok .standard

def discover (fs : FileSystem) (root : Location) : Except Failure SourceFiles := do
  let m ← fs.manifestAt root
  return fs.scanAll m.excludes (m.searched.map root.join)

/-- The sources at given locations. A file that is named counts as a map if its name tells nothing else. -/
def gather (fs : FileSystem) (excludes : List String) (ls : List Location) : SourceFiles :=
  ls.foldl (fun found l =>
    if fs.isDirectory l then found.merge (fs.scan excludes l) else (found.add? l).getD (found.addAs .map l)) .empty

end FileSystem

/-- The text of a map and the name that its drawing gets. -/
structure MapSource where
  name : String
  text : List Char
deriving DecidableEq, Repr

namespace MapSource

/-- The maps that the text of a file holds. Several maps of a document are numbered from one. -/
def ofText (l : Location) (text : List Char) : List MapSource :=
  let stem := Location.stem (l.fileName?.getD "map".toList)
  match (SourceKind.ofLocation? l).getD .map with
  | .map => [⟨String.ofList stem, text⟩]
  | .markdown =>
    match mapBlocks text with
    | [block] => [⟨String.ofList stem, block.source⟩]
    | blocks => blocks.mapIdx fun i block => ⟨String.ofList (stem ++ '-' :: digits (i + 1)), block.source⟩

end MapSource

namespace FileSystem

def mapsIn (fs : FileSystem) (l : Location) : Except Failure (List MapSource) :=
  match fs.read l with
  | .ok text => .ok (MapSource.ofText l text)
  | .error cause => .error (.sourceUnread l cause)

/-- The maps of all files. The first file that cannot be read is the failure. -/
def mapsOf (fs : FileSystem) (files : SourceFiles) : Except Failure (List MapSource) :=
  List.flatten <$> files.all.mapM fs.mapsIn

end FileSystem

end HexAtlas
