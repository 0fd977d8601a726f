import HexAtlas.Grid.Orientation

namespace HexAtlas

/-- A step of a walk, to a cell or in a direction. -/
inductive Step where
  | reach (cell : Hex)
  | toward (direction : Direction) (distance : Nat)
deriving DecidableEq, Repr, Inhabited

namespace Step

/-- The longest run of one step. No map has a wider grid. -/
def maxRun : Nat := 999

def text : Step → String
  | reach cell => cell.text
  | toward direction distance => direction.abbreviation ++ String.ofList (digits distance)

end Step

namespace Orientation

/-- The cells of a run in one direction, which ends early where no side faces that way. -/
def run (o : Orientation) (d : Direction) : Nat → Hex → List Hex
  | 0, _ => []
  | n + 1, h =>
    match o.neighbor? h d with
    | none => []
    | some next => next :: o.run d n next

def stepCells (o : Orientation) (h : Hex) : Step → List Hex
  | .reach cell => [cell]
  | .toward d n => o.run d (min n Step.maxRun) h

/-- The cells that steps add one after another, each step going on from the last cell so far. -/
def walkFrom (o : Orientation) (h : Hex) : List Step → List Hex
  | [] => []
  | step :: rest =>
    let cells := o.stepCells h step
    cells ++ o.walkFrom (cells.getLastD h) rest

def walk (o : Orientation) (start : Hex) (steps : List Step) : List Hex := start :: o.walkFrom start steps

end Orientation

end HexAtlas
