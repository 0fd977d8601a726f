import HexAtlas.Grid.Walk
import HexAtlas.Text.Split

namespace HexAtlas

/-- The number that the first two characters write, if they are digits, and what follows. -/
def twoDigits? : List Char → Option (Nat × List Char)
  | a :: b :: rest => if isDigit a && isDigit b then some (digitsValue [a, b], rest) else none
  | _ => none

def Hex.parse? (cs : List Char) : Option Hex := do
  let (x, rest) ← twoDigits? cs
  let (y, rest) ← twoDigits? rest
  if rest = [] then some ⟨x, y⟩ else none

def Step.parse? (cs : List Char) : Option Step :=
  match Hex.parse? cs with
  | some cell => some (.reach cell)
  | none => do
    let name := cs.takeWhile (!isDigit ·)
    let distance := cs.dropWhile (!isDigit ·)
    let direction ← Direction.ofAbbreviation? (String.ofList name)
    if distance.all isDigit then (readCount? distance).map (.toward direction) else none

def isSeparator (c : Char) : Bool := isBlank c || c = '-'

/-- The text up to the first separator, and from there on. -/
def segment (cs : List Char) : List Char × List Char :=
  (cs.takeWhile (!isSeparator ·), cs.dropWhile (!isSeparator ·))

/-- A text without the one dash that may start it. -/
def dropDash : List Char → List Char
  | '-' :: rest => rest
  | cs => cs

/-- The step at the front of a text, after blanks and at most one dash, and the rest of the text. -/
def splitSegment? (cs : List Char) : Option (Step × List Char) :=
  let cut := segment (dropDash (trimStart cs))
  (Step.parse? cut.1).map fun step => (step, cut.2)

theorem Step.parse?_nil : Step.parse? [] = none := by decide

theorem length_dropDash_le (cs : List Char) : (dropDash cs).length ≤ cs.length := by
  unfold dropDash
  split <;> simp

theorem length_segment (cs : List Char) : (segment cs).1.length + (segment cs).2.length = cs.length := by
  rw [← List.length_append]
  exact congrArg List.length List.takeWhile_append_dropWhile

theorem length_lt_of_splitSegment? {cs rest : List Char} {step : Step}
    (h : splitSegment? cs = some (step, rest)) : rest.length < cs.length := by
  obtain ⟨_, accepted, same⟩ := Option.map_eq_some_iff.mp h
  simp only [Prod.mk.injEq] at same
  obtain ⟨rfl, rfl⟩ := same
  have parts := length_segment (dropDash (trimStart cs))
  have dash := length_dropDash_le (trimStart cs)
  have blanks : (trimStart cs).length ≤ cs.length := length_dropWhile_le isBlank cs
  cases token : (segment (dropDash (trimStart cs))).1 with
  | nil => rw [token, Step.parse?_nil] at accepted; cases accepted
  | cons c more =>
    rw [token, List.length_cons] at parts
    omega

/-- The steps at the front of a text, up to the first that is none. -/
def segments (cs : List Char) : List Step :=
  match _h : splitSegment? cs with
  | none => []
  | some (step, rest) => step :: segments rest
termination_by cs.length
decreasing_by exact length_lt_of_splitSegment? _h

/-- Steps that dashes join to the front of a text, and the rest; nothing if a dash is not followed by a step. -/
def chained? (cs : List Char) : Option (List Step × List Char) :=
  match cs with
  | '-' :: after => do
    let step ← Step.parse? (segment after).1
    let (steps, rest) ← chained? (segment after).2
    some (step :: steps, rest)
  | _ => some ([], cs)
termination_by cs.length
decreasing_by
  have := length_segment after
  simp only [List.length_cons]
  omega

end HexAtlas
