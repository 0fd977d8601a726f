import HexAtlas.Markup.Reference

namespace HexAtlas

/-- The names of one map. Maps may share a page, so each marks the names it gives out with its own token, unless it
is told to keep them as they are. -/
structure NameScope where
  token : Option String
deriving DecidableEq, Repr, Inhabited

/-- Markup without the blanks that stand between two tags. -/
def joinTags (cs : List Char) : List Char :=
  match cs with
  | [] => []
  | c :: rest =>
    let inner := trimStart rest
    if c = '>' && inner.head? = some '<' then c :: joinTags inner else c :: joinTags rest
termination_by cs.length
decreasing_by
  · have : (trimStart rest).length ≤ rest.length := length_dropWhile_le isBlank rest
    simp only [List.length_cons]
    omega
  · simp

namespace NameScope

/-- The scope of a map; without a token if names are global or the map has no name. -/
def ofInstance (name : String) (global : Bool) : NameScope :=
  if global || name.isEmpty then ⟨none⟩ else ⟨some name⟩

def isGlobal (s : NameScope) : Bool := s.token.isNone

/-- What is put after every name. -/
def ending (s : NameScope) : String :=
  match s.token with
  | some token => "-" ++ token
  | none => ""

def apply (s : NameScope) (name : String) : String := name ++ s.ending

def href (s : NameScope) (name : String) : String := "#" ++ s.apply name

/-- Marks every name in markup and joins its tags. -/
def markNames (s : NameScope) (markup : List Char) : List Char :=
  joinTags <| (pieces markup).flatMap fun
    | .plain text => text
    | .name _ text => text ++ s.ending.toList

end NameScope

end HexAtlas
