import HexAtlas.Binary.Decimal

namespace HexAtlas

/-- A cell of the grid by its column and its row. Both stand for signed 32-bit words but have no bound here. Sums
and differences of coordinates from `-2 ^ 30` to `2 ^ 30` do not overflow; a cell beyond comes from a `centered-at`
only. -/
structure Hex where
  x : Int
  y : Int
deriving DecidableEq, Repr, Inhabited

namespace Hex

def origin : Hex := ⟨0, 0⟩

/-- Column and row, each with two digits at least. -/
def text (h : Hex) : String := String.ofList (padded 2 h.x ++ padded 2 h.y)

end Hex

structure Point where
  x : Double
  y : Double
deriving DecidableEq, Inhabited

namespace Point

def offset (p : Point) (dx dy : Double) : Point := ⟨p.x + dx, p.y + dy⟩

/-- The point at the fraction `q` of the way from `p` to `other`. -/
def partway (p other : Point) (q : Double) : Point :=
  ⟨p.x + (other.x - p.x) * q, p.y + (other.y - p.y) * q⟩

def same (p other : Point) : Bool := p.x.same other.x && p.y.same other.y

/-- Both coordinates to one place. -/
def text (p : Point) : String := String.ofList (p.x.fixed 1 ++ ',' :: p.y.fixed 1)

end Point

structure Bounds where
  minX : Double
  minY : Double
  maxX : Double
  maxY : Double
deriving DecidableEq, Inhabited

namespace Bounds

def ofPoint (p : Point) : Bounds := ⟨p.x, p.y, p.x, p.y⟩

def add (b : Bounds) (p : Point) : Bounds :=
  ⟨b.minX.min p.x, b.minY.min p.y, b.maxX.max p.x, b.maxY.max p.y⟩

def width (b : Bounds) : Double := b.maxX - b.minX

def height (b : Bounds) : Double := b.maxY - b.minY

/-- The rectangle around some points, if there are any. -/
def around? : List Point → Option Bounds
  | [] => none
  | p :: rest => some (rest.foldl add (ofPoint p))

end Bounds

end HexAtlas
