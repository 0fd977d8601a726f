import HexAtlas.Table
import HexAtlas.Text.Split

namespace HexAtlas

/-- The characters after the last blank. -/
def lastWord (cs : List Char) : List Char := (cs.reverse.takeWhile (!isBlank ·)).reverse

/-- Every pair of an attribute list. The key is the word right before the sign of equality; the list ends at a value
that nothing closes. Whatever is not part of a pair is passed over, so stray words and unbalanced quotes never spoil
a list. -/
def attributePairs (cs : List Char) : List (List Char × List Char) :=
  match _h : splitAt? ['=', '"'] cs with
  | none => []
  | some (before, quoted) =>
    match _hq : cutAt? '"' quoted with
    | none => []
    | some (value, rest) => (lastWord before, value) :: attributePairs rest
termination_by cs.length
decreasing_by
  have outer := congrArg List.length (eq_append_of_splitAt? _h)
  have inner := congrArg List.length (eq_append_of_cutAt? _hq)
  simp only [List.length_append, List.length_cons] at outer inner
  omega

namespace Attributes

/-- Reads an attribute list. A pair without a key is dropped. -/
def parse (cs : List Char) : Attributes :=
  Table.ofList <| ((attributePairs cs).filter (·.1 ≠ [])).map fun (key, value) =>
    (String.ofList key, String.ofList value)

def printPair (pair : String × String) : List Char :=
  pair.1.toList ++ "=\"".toList ++ pair.2.toList ++ ['"']

def print (pairs : List (String × String)) : List Char := [' '].intercalate (pairs.map printPair)

end Attributes

end HexAtlas
