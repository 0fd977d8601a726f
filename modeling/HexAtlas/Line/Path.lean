import HexAtlas.Line.Region

namespace HexAtlas

inductive Side where
  | left
  | right
deriving DecidableEq, Repr, Inhabited

namespace Side

def keyword : Side → String
  | left => "left"
  | right => "right"

def ofKeyword? (name : String) : Option Side := [left, right].find? (·.keyword = name)

end Side

/-- A line that describes a path: a start cell, steps chained to it by dashes, a kind, an optional label, side and
offset, and steps after the header. -/
structure PathLine where
  kind : String
  label : Option String
  side : Option Side
  /-- Where the label begins along the path, such as `30%`. -/
  labelStart : Option String
  start : Hex
  steps : List Step
deriving DecidableEq, Repr, Inhabited

def isPercentage (token : List Char) : Bool := token.getLast? = some '%' && isNumeral token.dropLast

/-- A quoted label at the front of a text, and what follows it. Empty quotes are passed over; quotes that nothing
closes are left in place. -/
def headLabel (cs : List Char) : Option (List Char) × List Char :=
  match trimStart cs with
  | '"' :: quoted =>
    match cutAt? '"' quoted with
    | some (text, after) => (if text = [] then none else some text, after)
    | none => (none, cs)
  | _ => (none, cs)

/-- A side at the front of a text, and what follows it. -/
def headSide (cs : List Char) : Option Side × List Char :=
  let (token, after) := word (trimStart cs)
  match Side.ofKeyword? (String.ofList token) with
  | some side => (some side, after)
  | none => (none, cs)

/-- An offset at the front of a text, and what follows it. -/
def headOffset (cs : List Char) : Option (List Char) × List Char :=
  let (token, after) := word (trimStart cs)
  if isPercentage token then (some token, after) else (none, cs)

/-- Reads a path line, which has a kind and a step at least. Text after the last step is passed over. -/
def PathLine.parse? (line : List Char) : Option PathLine := do
  let start ← Hex.parse? (line.take 4)
  let (chain, tail) ← chained? (line.drop 4)
  let (kind, rest) := word (trimStart tail)
  if !startsBlank tail || kind = [] || kind.head? = some '"' then none
  else
    let (label, rest) := headLabel rest
    let (side, rest) := headSide rest
    let (labelStart, rest) := headOffset rest
    let steps := chain ++ segments rest
    if steps = [] then none
    else some {
      kind := String.ofList kind
      label := label.map String.ofList
      side
      labelStart := labelStart.map String.ofList
      start
      steps }

/-- A path of a map, with the name that its label refers to. -/
structure Path extends PathLine where
  id : String
deriving DecidableEq, Repr, Inhabited

end HexAtlas
