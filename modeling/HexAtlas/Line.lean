import HexAtlas.Attributes
import HexAtlas.Line.Path
import HexAtlas.Options

namespace HexAtlas

/-- A line by its shape. It is tried against the shapes in the order of `Line.recognize?`, and the first one that
fits is taken. -/
inductive Line where
  | region (region : Region)
  | path (path : PathLine)
  | fill (name : String) (attributes : Attributes)
  /-- Markup that is taken into the drawing as it is. -/
  | definition (markup : String)
  | stroke (name : String) (attributes : Attributes)
  | geometry (name : String) (outline : String)
  | text (attributes : Attributes)
  | glow (attributes : Attributes)
  | label (attributes : Attributes)
deriving DecidableEq, Repr

def isComment (line : List Char) : Bool := line.head? = some '#'

/-- What follows a keyword that a blank or the end of the line comes after. -/
def keyword? (name : String) (line : List Char) : Option (List Char) := do
  let rest ← afterStart? name.toList line
  if rest = [] || startsBlank rest then some (trim rest) else none

/-- The first word of a line and what follows the keyword after it. -/
def named? (name : String) (line : List Char) : Option (String × List Char) :=
  let (first, tail) := word line
  if first = [] || tail = [] then none
  else (keyword? name (trimStart tail)).map fun rest => (String.ofList first, rest)

namespace Line

def fill? (line : List Char) : Option Line :=
  (named? "attributes" line).map fun (name, rest) => fill name (Attributes.parse rest)

def definition? (line : List Char) : Option Line :=
  if line.head? = some '<' then some (definition (String.ofList line)) else none

def shape? (line : List Char) : Option Line :=
  (named? "path" line).map fun (name, rest) =>
    match keyword? "attributes" rest with
    | some pairs => stroke name (Attributes.parse pairs)
    | none => geometry name (String.ofList rest)

def letters? (line : List Char) : Option Line :=
  ((keyword? "text" line).map fun rest => text (Attributes.parse rest))
  <|> ((keyword? "glow" line).map fun rest => glow (Attributes.parse rest))
  <|> ((keyword? "label" line).map fun rest => label (Attributes.parse rest))

def recognize? (line : List Char) : Option Line :=
  (Region.parse? line).map region
  <|> (PathLine.parse? line).map path
  <|> fill? line
  <|> definition? line
  <|> shape? line
  <|> letters? line

end Line

end HexAtlas
