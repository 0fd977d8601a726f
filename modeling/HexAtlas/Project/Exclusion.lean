import HexAtlas.Project.Location

namespace HexAtlas

/-- Patterns that keep files out of a project. A pattern asks for a directory, for the end of a location, or for a
part of it; stars have no other meaning. -/
inductive Pattern where
  /-- `dir/*` and `**/dir/*`: the location leads through a directory. -/
  | through (directory : List Char)
  /-- `*tail`: the location ends so. -/
  | ending (tail : List Char)
  /-- Any other text: the location holds it. -/
  | holding (part : List Char)
deriving DecidableEq, Repr

namespace Pattern

def ofDirectory (cs : List Char) : Pattern := ((beforeEnd? "/*".toList cs).map through).getD (holding cs)

def parse (cs : List Char) : Pattern :=
  match afterStart? "**/".toList cs with
  | some rest => ofDirectory rest
  | none =>
    match afterStart? ['*'] cs with
    | some tail => if cs.contains '/' then ofDirectory cs else ending tail
    | none => ofDirectory cs

def accepts (p : Pattern) (l : Location) : Bool :=
  match p with
  | through directory =>
    (afterStart? (directory ++ ['/']) l.text).isSome || contains ('/' :: directory ++ ['/']) l.text
  | ending tail => tail.isSuffixOf l.text
  | holding part => contains part l.text

end Pattern

/-- One of the patterns accepts the location. -/
def isExcluded (patterns : List String) (l : Location) : Bool :=
  patterns.any fun pattern => (Pattern.parse pattern.toList).accepts l

end HexAtlas
