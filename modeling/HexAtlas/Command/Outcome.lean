import HexAtlas.Project.Failure
import HexAtlas.Command.Status

namespace HexAtlas

/-- What a command leaves behind. -/
structure Outcome where
  files : FileSystem
  output : String
  status : List String
  failure? : Option Failure

namespace Outcome

/-- A command that fails before it does anything. -/
def failed (fs : FileSystem) (f : Failure) : Outcome := ⟨fs, "", [], some f⟩

/-- A command that only writes to the standard output. -/
def printed (fs : FileSystem) (output : String) : Outcome := ⟨fs, output, [], none⟩

end Outcome

/-- The suffix that a name gives to the identifiers of its map: small letters, digits and underscores, without
underscores at the ends. It holds no dash, so an identifier and its suffix can be told apart. -/
def instanceToken (name : String) : String :=
  let isFiller (c : Char) := c = '_'
  let cs := name.toList.map fun c => if c.isAlphanum then c.toLower else '_'
  let cs := ((cs.dropWhile isFiller).reverse.dropWhile isFiller).reverse
  if cs = [] then "map" else String.ofList cs

end HexAtlas
