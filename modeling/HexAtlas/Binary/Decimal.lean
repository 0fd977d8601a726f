import HexAtlas.Binary.Basic
import HexAtlas.Text.Numeral

namespace HexAtlas

namespace Magnitude

variable {f : NumberFormat}

/-- Half the distance to the next number below. It is a quarter step where the exponent is about to change. -/
def gapBelow (s : Magnitude f) : Rat :=
  (if s.significand = f.least && f.finest < s.exponent then 1 / 4 else 1 / 2) * (2 : Rat) ^ s.exponent

/-- Half the distance to the next number above. -/
def gapAbove (s : Magnitude f) : Rat := 1 / 2 * (2 : Rat) ^ s.exponent

/-- The decimal reads back as this number: it lies among the numbers that round to it. The ends belong to it if its
significand is even. -/
def roundsBack (s : Magnitude f) (q : Rat) : Bool :=
  let low := s.value - s.gapBelow
  let high := s.value + s.gapAbove
  if s.significand % 2 = 0 then low ≤ q && q ≤ high else low < q && q < high

end Magnitude

/-- The number of digits before the point of a positive number, not positive when it starts with zeros. -/
def pointPosition (q : Rat) : Int :=
  if 1 ≤ q then (digits q.floor.toNat).length
  else 1 - ((digits ((1 / q).ceil.toNat - 1)).length : Int)

/-- Which of two decimals that are equally near is taken. -/
inductive Tie where
  | up
  | even
deriving DecidableEq

/-- The digits of a decimal of `count` digits that reads back as `s` and is the nearest of those, with the power of
ten of the last digit. -/
def decimalOf? (tie : Tie) {f : NumberFormat} (s : Magnitude f) (count : Nat) : Option (Nat × Int) :=
  let place := pointPosition s.value - count
  let unit : Rat := (10 : Rat) ^ place
  let low := (s.value / unit).floor.toNat
  let below := s.value - low * unit
  let above := (low + 1) * unit - s.value
  let upper := above < below || (above = below && (tie = .up || low % 2 = 1))
  match s.roundsBack (low * unit), s.roundsBack ((low + 1) * unit) with
  | true, true => some (if upper then low + 1 else low, place)
  | true, false => some (low, place)
  | false, true => some (low + 1, place)
  | false, false => none

/-- The shortest decimal that reads back as the positive number `s`. Some decimal of 17 digits does in the formats
used here. -/
def shortestDecimal (tie : Tie) {f : NumberFormat} (s : Magnitude f) : Nat × Int :=
  ((List.range 17).findSome? fun n => decimalOf? tie s (n + 1)).getD (0, 0)

/-- How a number is set once its digits are known. The point stands in its place if its position lies from `lowest`
to `highest`; otherwise the number has an exponent. -/
structure NumberLayout where
  tie : Tie
  lowest : Option Int
  highest : Option Int
  /-- A whole number is followed by a point and a zero. -/
  wholePoint : Bool

/-- The fewest digits, each in its place. -/
def NumberLayout.plain : NumberLayout := ⟨.up, none, none, false⟩

/-- The fewest digits, with an exponent for numbers from `1e16` up and below `1e-5`. -/
def NumberLayout.data : NumberLayout := ⟨.even, some (-4), some 16, true⟩

/-- Digits without the zeros that end them, and the power of ten of the last one left. -/
def stripZeros (cs : List Char) (place : Int) : List Char × Int :=
  let zeros := (cs.reverse.takeWhile (· = '0')).length
  (cs.take (cs.length - zeros), place + zeros)

def NumberLayout.set (layout : NumberLayout) (significant : List Char) (place : Int) : List Char :=
  let (cs, place) := stripZeros significant place
  let point : Int := cs.length + place
  let positional := layout.lowest.all (· ≤ point) && layout.highest.all (point ≤ ·)
  if positional then
    if 0 ≤ place then cs ++ List.replicate place.toNat '0' ++ (if layout.wholePoint then ['.', '0'] else [])
    else if 0 < point then cs.take point.toNat ++ '.' :: cs.drop point.toNat
    else '0' :: '.' :: (List.replicate (-point).toNat '0' ++ cs)
  else
    let tail := if cs.length ≤ 1 then [] else '.' :: cs.drop 1
    let sign := if point - 1 < 0 then '-' else '+'
    cs.take 1 ++ tail ++ 'e' :: sign :: digits (point - 1).natAbs

namespace Binary

variable {f : NumberFormat}

def signed (negative : Bool) (cs : List Char) : List Char := if negative then '-' :: cs else cs

/-- The number with the fewest digits that read back. -/
def shortest (layout : NumberLayout) : Binary f → List Char
  | nan => "NaN".toList
  | infinite n => signed n "inf".toList
  | finite n s =>
    signed n <|
      if s.significand = 0 then if layout.wholePoint then ['0', '.', '0'] else ['0']
      else
        let (d, place) := shortestDecimal layout.tie s
        layout.set (digits d) place

/-- The number rounded to a fixed count of places, a half to the even neighbour; zero keeps its sign. -/
def fixed (places : Nat) : Binary f → List Char
  | nan => "NaN".toList
  | infinite n => signed n "inf".toList
  | finite n s =>
    let q := s.value
    let cs := digits (roundQuotient (q.num.natAbs * Nat.pow 10 places) q.den)
    let cs := List.replicate (places + 1 - cs.length) '0' ++ cs
    let whole := cs.length - places
    signed n (if places = 0 then cs else cs.take whole ++ '.' :: cs.drop whole)

/-- The number nearest to `significant * 10 ^ place`. A power of ten is at least the third power of two of the same
exponent, so numbers far outside the format are told without their power of ten. -/
def ofDecimal (f : NumberFormat) (negative : Bool) (significant : Nat) (place : Int) : Binary f :=
  let point : Int := (digits significant).length + place
  if significant = 0 then zero f negative
  else if 0 < point && f.ceiling ≤ 3 * (point - 1) then infinite negative
  else if point < 0 && 3 * point < f.finest - 1 then zero f negative
  else round f negative (significant * (10 : Rat) ^ place)

end Binary

/-- An unsigned decimal numeral: digits with an optional point among or around them, and an optional exponent. The
result is the number without its point and its power of ten. -/
def readDecimal? (cs : List Char) : Option (Nat × Int) :=
  let whole := cs.takeWhile isDigit
  let rest := cs.dropWhile isDigit
  let (part, rest) := match rest with
    | '.' :: after => (after.takeWhile isDigit, after.dropWhile isDigit)
    | _ => ([], rest)
  let power? : Option Int :=
    match rest with
    | [] => some 0
    | mark :: tail =>
      if mark = 'e' || mark = 'E' then
        match tail with
        | '-' :: ds => if isNumeral ds then some (-(digitsValue ds : Int)) else none
        | '+' :: ds => if isNumeral ds then some (digitsValue ds) else none
        | ds => if isNumeral ds then some (digitsValue ds) else none
      else none
  if whole ++ part = [] then none
  else power?.map fun power => (digitsValue (whole ++ part), power - part.length)

/-- Reads a number: a sign, then a decimal numeral or one of `inf`, `infinity` and `nan` in letters of any case. -/
def readDouble? (cs : List Char) : Option Double :=
  let (negative, body) := match cs with
    | '-' :: rest => (true, rest)
    | '+' :: rest => (false, rest)
    | _ => (false, cs)
  let name := body.map Char.toLower
  if name = "inf".toList || name = "infinity".toList then some (.infinite negative)
  else if name = "nan".toList then some .nan
  else (readDecimal? body).map fun (significant, place) => .ofDecimal .double negative significant place

end HexAtlas
