import HexAtlas.Text.Split

namespace HexAtlas

/-- A text that names a file by the names on the way to it, with slashes between them. Empty pieces and single dots
lead nowhere, except that a slash or a dot at the front is a step of its own. -/
structure Location where
  text : List Char
deriving DecidableEq, Repr

namespace Location

def ofString (s : String) : Location := ⟨s.toList⟩

def toString (l : Location) : String := String.ofList l.text

/-- A piece that leads nowhere. -/
def isIdle (piece : List Char) : Bool := piece = [] || piece = ['.']

def isAbsolute (l : Location) : Bool := l.text.head? = some '/'

/-- The step at the front, if there is one, and the pieces after it. -/
def parts (l : Location) : List Char × List (List Char) :=
  match l.text with
  | '/' :: rest => (['/'], splitAll '/' rest)
  | ['.'] => (['.'], [])
  | '.' :: '/' :: rest => (['.'], [] :: splitAll '/' rest)
  | cs => ([], splitAll '/' cs)

def joinPieces (ps : List (List Char)) : List Char := ['/'].intercalate ps

def steps (l : Location) : List (List Char) :=
  let (front, body) := l.parts
  (if front = [] then [] else [front]) ++ body.filter (!isIdle ·)

/-- Pieces without the idle ones at their end. -/
def trimPieces (ps : List (List Char)) : List (List Char) := (ps.reverse.dropWhile isIdle).reverse

/-- The last name; none after a step upwards. -/
def fileName? (l : Location) : Option (List Char) := (trimPieces l.parts.2).getLast?.filter (· ≠ ['.', '.'])

def parent? (l : Location) : Option Location :=
  let (front, body) := l.parts
  let body := trimPieces body
  if body = [] then if front = ['.'] then some ⟨[]⟩ else none
  else some ⟨front ++ joinPieces (trimPieces body.dropLast)⟩

/-- Pieces without the first `k` that lead somewhere. -/
def dropSteps : (k : Nat) → List (List Char) → List (List Char)
  | _, [] => []
  | 0, p :: rest => if isIdle p then dropSteps 0 rest else p :: rest
  | k + 1, p :: rest => if isIdle p then dropSteps (k + 1) rest else dropSteps k rest

/-- The rest of a location whose first steps are those of `base`. -/
def within? (base l : Location) : Option Location :=
  let (front, body) := l.parts
  let count := base.steps.length - (if front = [] then 0 else 1)
  if base.steps.isPrefixOf l.steps then some ⟨joinPieces (trimPieces (dropSteps count body))⟩ else none

def join (base l : Location) : Location :=
  if l.isAbsolute then l
  else if base.text = [] || base.text.getLast? = some '/' then ⟨base.text ++ l.text⟩
  else ⟨base.text ++ '/' :: l.text⟩

/-- What stands in a name after its last dot, unless the dot is its first character. -/
def extension? (name : List Char) : Option (List Char) :=
  match cutAt? '.' name.reverse with
  | some (ending, before) => if before = [] then none else some ending.reverse
  | none => none

/-- What stands in a name before its first dot. -/
def stem (name : List Char) : List Char := name.takeWhile (· ≠ '.')

end Location

/-- A map by itself, or a document that may hold maps. -/
inductive SourceKind where
  | map
  | markdown
deriving DecidableEq, Repr

namespace SourceKind

def ofLocation? (l : Location) : Option SourceKind := do
  let name ← l.fileName?
  let ending := String.ofList (← Location.extension? name)
  let isMap := ".map".toList.isSuffixOf name || ".map.txt".toList.isSuffixOf name
  if (ending = "map" || ending = "txt") && isMap then some map
  else if ending = "md" || ending = "markdown" then some markdown
  else none

end SourceKind

end HexAtlas
