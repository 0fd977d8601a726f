import HexAtlas.Grid.Direction
import HexAtlas.Grid.Point

namespace HexAtlas

/-- Whether columns (`vertical`) or rows (`horizontal`) are pushed out of line. -/
inductive Layout where
  | vertical
  | horizontal
deriving DecidableEq, Repr, Inhabited

/-- A layout, and whether the even lines are the ones pushed out. -/
structure Orientation where
  layout : Layout
  swapEvenOdd : Bool
deriving DecidableEq, Repr, Inhabited

/-- A cell on slanted axes, with no bound on its coordinates, as in `Hex`. -/
structure Axial where
  q : Int
  r : Int
deriving DecidableEq, Repr

namespace Orientation

/-- The distance from the centre of a cell to a corner. -/
def radius : Nat := 100

def rootThree : Double := Binary.sqrt 3

/-- The distance from the centre of a cell to a side. -/
def apothem : Double := .ofInt .double radius * rootThree / 2

/-- How far line `n` is moved along itself on the slanted axes. -/
def shear (o : Orientation) (n : Int) : Int := if o.swapEvenOdd then n / 2 else (n + 1) / 2

/-- The cell on slanted axes. No word of 32 bits overflows here for a cell with coordinates from `-2 ^ 30` to
`2 ^ 30`. -/
def toAxial (o : Orientation) (h : Hex) : Axial :=
  match o.layout with
  | .vertical => ⟨h.x, h.y - o.shear h.x⟩
  | .horizontal => ⟨h.x - o.shear h.y, h.y⟩

def ofAxial (o : Orientation) (a : Axial) : Hex :=
  match o.layout with
  | .vertical => ⟨a.q, a.r + o.shear a.q⟩
  | .horizontal => ⟨a.q + o.shear a.r, a.r⟩

theorem ofAxial_toAxial (o : Orientation) (h : Hex) : o.ofAxial (o.toAxial h) = h := by
  rcases o with ⟨_ | _, _⟩ <;> simp [ofAxial, toAxial]

theorem toAxial_ofAxial (o : Orientation) (a : Axial) : o.toAxial (o.ofAxial a) = a := by
  rcases o with ⟨_ | _, _⟩ <;> simp [ofAxial, toAxial]

/-- The square root of three and its half in single precision. -/
def slope : Single := .ofDecimal .single false 17320508 (-7)

/-- Swapped grids push the even lines out, which moves line zero half a cell. -/
def origin (o : Orientation) : Single × Single :=
  let back : Single := -(apothem.convert .single)
  match o.swapEvenOdd, o.layout with
  | false, _ => (0, 0)
  | true, .vertical => (0, back)
  | true, .horizontal => (back, 0)

/-- The centre of a cell in single precision. -/
def centre (o : Orientation) (a : Axial) : Single × Single :=
  let q : Single := .ofInt .single a.q
  let r : Single := .ofInt .single a.r
  let straight : Single := .ofDecimal .single false 15 (-1)
  let (x, y) := match o.layout with
    | .vertical => (straight * q, slope / 2 * q + slope * r)
    | .horizontal => (slope * q + slope / 2 * r, straight * r)
  let scale : Single := .ofInt .single radius
  (x * scale + o.origin.1, y * scale + o.origin.2)

/-- A coordinate to the nearest thousandth. -/
def settle (v : Single) : Double :=
  let thousand : Double := 1000
  (v.convert .double * thousand).roundHalfAway / thousand + 0

def pixels (o : Orientation) (h : Hex) : Point :=
  let (x, y) := o.centre (o.toAxial h)
  ⟨settle x, settle y⟩

def corners (o : Orientation) : List Point :=
  let thousandths (n : Int) : Double := .ofRat .double (n / 1000)
  let side := thousandths 86603
  let half := thousandths 50000
  let full := thousandths 100000
  match o.layout with
  | .vertical => [⟨full, 0⟩, ⟨half, side⟩, ⟨-half, side⟩, ⟨-full, 0⟩, ⟨-half, -side⟩, ⟨half, -side⟩]
  | .horizontal => [⟨side, -half⟩, ⟨side, half⟩, ⟨0, full⟩, ⟨-side, half⟩, ⟨-side, -half⟩, ⟨0, -full⟩]

/-- The distance of texts from the centre of their cell. -/
def textOffset (o : Orientation) : Double :=
  let half := match o.layout with
    | .vertical => apothem
    | .horizontal => .ofInt .double radius
  half * .ofDecimal .double false 8 (-1)

/-- The moves to the six neighbours on slanted axes. -/
def moves : List (Int × Int) := [(1, 0), (0, 1), (-1, 1), (-1, 0), (0, -1), (1, -1)]

/-- The step from one cell's centre to another's, brought to length one. -/
def unitStep (o : Orientation) (a b : Axial) : Single × Single :=
  let start := o.centre a
  let finish := o.centre b
  let x := finish.1 - start.1
  let y := finish.2 - start.2
  let scale := 1 / (x * x + y * y).sqrt
  (x * scale, y * scale)

/-- A step goes in a direction if it is turned away from the heading by some twenty degrees at most. -/
def aligned (step : Single × Single) (d : Direction) : Bool :=
  let (east, south) := d.heading
  let along := step.1.convert .double * east + step.2.convert .double * south
  Binary.ofDecimal .double false 94 (-2) < along

/-- The neighbour of a cell in a direction, if one of its sides faces that way. -/
def neighbor? (o : Orientation) (h : Hex) (d : Direction) : Option Hex :=
  let a := o.toAxial h
  let next? := (moves.map fun (q, r) => (⟨a.q + q, a.r + r⟩ : Axial)).find? fun b => aligned (o.unitStep a b) d
  next?.map o.ofAxial

def viewbox? (o : Orientation) (cells : List Hex) : Option Bounds :=
  Bounds.around? <| cells.flatMap fun h => o.corners.map fun c => (o.pixels h).offset c.x c.y

end Orientation

end HexAtlas
