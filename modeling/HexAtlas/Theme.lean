import HexAtlas.Chart
import HexAtlas.Theme.TagAndTally

namespace HexAtlas

/-- A theme is the source of a map that only styles; its lines come before those of the map. -/
inductive Theme where
  | tagAndTally
  | plain
deriving DecidableEq, Repr, Inhabited

namespace Theme

def all : List Theme := [tagAndTally, plain]

def standard : Theme := tagAndTally

def name : Theme → String
  | tagAndTally => "tag-and-tally"
  | plain => "plain"

/-- The theme of a name in letters of any case; `none` names the plain one too. -/
def ofName? (name : String) : Option Theme :=
  match String.ofList (lowercase (trim name.toList)) with
  | "tag-and-tally" => some tagAndTally
  | "plain" | "none" => some plain
  | _ => none

/-- Unknown names stand for the standard theme. -/
def resolve (name : String) : Theme := (ofName? name).getD standard

def text : Theme → String
  | tagAndTally => TagAndTally.text
  | plain => ""

def source (t : Theme) : List (List Char) := lines t.text.toList

/-- The theme that a map asks for, else the one given. -/
def ofSource (source : List (List Char)) (given : Theme) : Theme :=
  ((readOptions source).theme.map resolve).getD given

end Theme

/-- Compiles a map after the lines of its theme. -/
def Chart.compileThemed (instanceName : String) (text : List Char) (given : Theme) : Chart :=
  let source := lines text
  compile instanceName ((Theme.ofSource source given).source ++ source)

end HexAtlas
