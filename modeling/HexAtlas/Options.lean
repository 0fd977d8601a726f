import HexAtlas.Line.Step
import HexAtlas.Text.Lowercase

namespace HexAtlas

inductive Setting where
  | horizontal
  | swapEvenOdd
  | global
  | coordinatesFormat (template : String)
  /-- Nothing if the argument is no cell. -/
  | centeredAt (cell : Option Hex)
  | theme (name : String)
  /-- Nothing if the argument is no positive number. -/
  | zoom (factor : Option Double)
deriving DecidableEq, Inhabited

namespace Setting

def argument? (line : List Char) : Option (List Char) := do
  let rest ← afterStart? "option".toList line
  match rest with
  | c :: _ => if isBlank c then some (trim rest) else none
  | [] => none

/-- A cell as one word of four digits or as two integers. -/
def centre? (args : List (List Char)) : Option Hex := do
  let first ← args.head?
  match Hex.parse? first, args with
  | some cell, _ => some cell
  | none, x :: y :: _ => do
    let x ← readCoordinate? x
    let y ← readCoordinate? y
    some ⟨x, y⟩
  | none, _ => none

def factor? (args : List (List Char)) : Option Double := do
  let factor ← readDouble? (← args.head?)
  if factor.isFinite && 0 < factor then some factor else none

/-- Reads the argument of an option line. A theme without a name is not a setting. -/
def parse? (argument : List Char) : Option Setting :=
  match words argument with
  | [] => none
  | key :: args =>
    match String.ofList key with
    | "horizontal" => some horizontal
    | "swap-even-odd" => some swapEvenOdd
    | "global" => some global
    | "coordinates-format" => some (coordinatesFormat (String.ofList ([' '].intercalate args)))
    | "centered-at" => some (centeredAt (centre? args))
    | "theme" => args.head?.map fun name => theme (String.ofList (lowercase name))
    | "zoom" => some (zoom (factor? args))
    | _ => none

/-- The setting of an option line that has a known key. -/
def ofLine? (line : List Char) : Option Setting := do
  parse? (← argument? line)

end Setting

/-- The options of a map. A later setting of a key takes the place of an earlier one. -/
structure Options where
  horizontal : Bool
  swapEvenOdd : Bool
  /-- Names are kept as they are, without the mark of their map. -/
  global : Bool
  coordinatesFormat : String
  centeredAt : Option Hex
  theme : Option String
  zoom : Option Double
deriving DecidableEq

/-- The text with every `part` replaced, from left to right; what is put in is not looked at again. -/
def replaceAll (part new cs : List Char) : List Char :=
  if _hp : part = [] then cs
  else
    match _h : splitAt? part cs with
    | none => cs
    | some (before, after) => before ++ new ++ replaceAll part new after
termination_by cs.length
decreasing_by
  have parts := congrArg List.length (eq_append_of_splitAt? _h)
  have := List.length_pos_iff.mpr _hp
  simp only [List.length_append] at parts
  omega

namespace Options

def initial : Options where
  horizontal := false
  swapEvenOdd := false
  global := false
  coordinatesFormat := "\x7bX\x7d\x7bY\x7d"
  centeredAt := none
  theme := none
  zoom := none

instance : Inhabited Options := ⟨initial⟩

def apply (o : Options) : Setting → Options
  | .horizontal => { o with horizontal := true }
  | .swapEvenOdd => { o with swapEvenOdd := true }
  | .global => { o with global := true }
  | .coordinatesFormat template => { o with coordinatesFormat := template }
  | .centeredAt cell => { o with centeredAt := cell }
  | .theme name => { o with theme := some name }
  | .zoom factor => { o with zoom := factor }

def layout (o : Options) : Layout := if o.horizontal then .horizontal else .vertical

def orientation (o : Options) : Orientation := ⟨o.layout, o.swapEvenOdd⟩

/-- The coordinate text of a cell: first its column is filled into the template, then its row. -/
def formatCoordinates (o : Options) (h : Hex) : String :=
  let filled := replaceAll "\x7bX\x7d".toList (padded 2 h.x) o.coordinatesFormat.toList
  String.ofList (replaceAll "\x7bY\x7d".toList (padded 2 h.y) filled)

end Options

end HexAtlas
