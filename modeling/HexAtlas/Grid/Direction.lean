import HexAtlas.Binary.Decimal

namespace HexAtlas

/-- The eight directions of the compass. -/
inductive Direction where
  | north
  | northEast
  | east
  | southEast
  | south
  | southWest
  | west
  | northWest
deriving DecidableEq, Repr, Inhabited

namespace Direction

def all : List Direction := [north, northEast, east, southEast, south, southWest, west, northWest]

def abbreviation : Direction → String
  | north => "n"
  | northEast => "ne"
  | east => "e"
  | southEast => "se"
  | south => "s"
  | southWest => "sw"
  | west => "w"
  | northWest => "nw"

def ofAbbreviation? (name : String) : Option Direction := all.find? (·.abbreviation = name)

/-- The square root of one half. -/
def diagonal : Double := .ofDecimal .double false 70710678118654752440084436210485 (-32)

/-- East and south parts of a step of length one. -/
def heading : Direction → Double × Double
  | north => (0, -1)
  | northEast => (diagonal, -diagonal)
  | east => (1, 0)
  | southEast => (diagonal, diagonal)
  | south => (0, 1)
  | southWest => (-diagonal, diagonal)
  | west => (-1, 0)
  | northWest => (-diagonal, -diagonal)

def opposite : Direction → Direction
  | north => south
  | northEast => southWest
  | east => west
  | southEast => northWest
  | south => north
  | southWest => northEast
  | west => east
  | northWest => southEast

end Direction

end HexAtlas
