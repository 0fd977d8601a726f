namespace HexAtlas

def isDigit (c : Char) : Bool := '0' ≤ c && c ≤ '9'

def digitValue (c : Char) : Nat := c.toNat - '0'.toNat

def digitsValue (cs : List Char) : Nat := cs.foldl (fun n c => 10 * n + digitValue c) 0

/-- A nonempty run of digits and nothing else. -/
def isNumeral (cs : List Char) : Bool := cs ≠ [] && cs.all isDigit

def digits (n : Nat) : List Char := Nat.toDigits 10 n

def intDigits (i : Int) : List Char := if i < 0 then '-' :: digits i.natAbs else digits i.natAbs

/-- An unsigned numeral below `limit`, with at most a plus sign. -/
def readNatBelow? (limit : Nat) (cs : List Char) : Option Nat :=
  let body := match cs with
    | '+' :: rest => rest
    | _ => cs
  if isNumeral body && digitsValue body < limit then some (digitsValue body) else none

/-- A signed numeral of an integer from `-limit` up to and without `limit`. -/
def readIntWithin? (limit : Nat) (cs : List Char) : Option Int :=
  match cs with
  | '-' :: rest =>
    if isNumeral rest && digitsValue rest ≤ limit then some (-(digitsValue rest : Int)) else none
  | _ => (readNatBelow? limit cs).map Int.ofNat

/-- The distance of a step and the count of a run are 32-bit words. -/
def readCount? : List Char → Option Nat := readNatBelow? 4294967296

/-- A coordinate is a signed 32-bit word. -/
def readCoordinate? : List Char → Option Int := readIntWithin? 2147483648

/-- An integer filled up with zeros after its sign to at least `width` characters. -/
def padded (width : Nat) (i : Int) : List Char :=
  let body := digits i.natAbs
  if i < 0 then '-' :: (List.replicate (width - 1 - body.length) '0' ++ body)
  else List.replicate (width - body.length) '0' ++ body

end HexAtlas
