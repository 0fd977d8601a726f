namespace HexAtlas

/-- Significands have `precision` bits, no step is finer than `2 ^ finest`, magnitudes stay below `2 ^ ceiling`. -/
structure NumberFormat where
  precision : Nat
  finest : Int
  ceiling : Int
deriving DecidableEq

namespace NumberFormat

def single : NumberFormat := ⟨24, -149, 128⟩

def double : NumberFormat := ⟨53, -1074, 1024⟩

/-- Significands lie below this. -/
def limit (f : NumberFormat) : Nat := Nat.pow 2 f.precision

/-- The least full significand. -/
def least (f : NumberFormat) : Nat := Nat.pow 2 (f.precision - 1)

/-- The format holds `m * 2 ^ e`, and this is its form: a full significand, or the finest step. -/
def Holds (f : NumberFormat) (m : Nat) (e : Int) : Prop :=
  m < f.limit ∧ f.finest ≤ e ∧ (e = f.finest ∨ f.least ≤ m) ∧ e + f.precision ≤ f.ceiling

instance (f : NumberFormat) (m : Nat) (e : Int) : Decidable (f.Holds m e) :=
  inferInstanceAs (Decidable (_ ∧ _))

end NumberFormat

/-- The integer nearest to `num / den`, the even one of two. -/
def roundQuotient (num den : Nat) : Nat :=
  let q := num / den
  let r := num % den
  if 2 * r < den then q else if den < 2 * r then q + 1 else q + q % 2

/-- A nonnegative number in the form its format stores. -/
structure Magnitude (f : NumberFormat) where
  significand : Nat
  exponent : Int
  held : f.Holds significand exponent
deriving DecidableEq

namespace Magnitude

variable {f : NumberFormat}

def value (s : Magnitude f) : Rat := s.significand * (2 : Rat) ^ s.exponent

/-- Numerator and denominator of `(num / den) / 2 ^ e`. -/
def scaled (num den : Nat) (e : Int) : Nat × Nat :=
  if 0 ≤ e then (num, den * Nat.pow 2 e.toNat) else (num * Nat.pow 2 (-e).toNat, den)

/-- The exponent of the steps on which the format rounds `num / den`. -/
def stepExponent (f : NumberFormat) (num den : Nat) : Int :=
  if num = 0 then f.finest
  else
    let e : Int := num.log2 - den.log2 - f.precision
    let (n, d) := scaled num den e
    max f.finest (if n / d < f.limit then e else e + 1)

/-- The format's number nearest to `q`, for `q` not negative; nothing when that is too large for the format. -/
def nearest? (f : NumberFormat) (q : Rat) : Option (Magnitude f) :=
  let num := q.num.natAbs
  let e := stepExponent f num q.den
  let (n, d) := scaled num q.den e
  let m := roundQuotient n d
  let (m, e) := if m = f.limit then (f.least, e + 1) else (m, e)
  if held : f.Holds m e then some ⟨m, e, held⟩ else none

end Magnitude

/-- Binary numbers of a format. Every operation takes the exact rational result and rounds it once, to the nearest
number of the format and to the even one of two equally near. Numbers are stored in one form each, so two finite
numbers with the same nonzero value are equal. -/
inductive Binary (f : NumberFormat) where
  | nan
  | infinite (negative : Bool)
  | finite (negative : Bool) (size : Magnitude f)
deriving DecidableEq

abbrev Single := Binary .single

abbrev Double := Binary .double

namespace Binary

variable {f g : NumberFormat}

/-- The number of the given sign nearest to a magnitude; infinite when the format has none so large. -/
def round (f : NumberFormat) (negative : Bool) (q : Rat) : Binary f :=
  match Magnitude.nearest? f q with
  | some size => finite negative size
  | none => infinite negative

def ofRat (f : NumberFormat) (q : Rat) : Binary f := round f (q < 0) q.abs

def ofInt (f : NumberFormat) (i : Int) : Binary f := ofRat f i

def zero (f : NumberFormat) (negative : Bool) : Binary f := round f negative 0

instance : Inhabited (Binary f) := ⟨zero f false⟩

instance (n : Nat) : OfNat (Binary f) n := ⟨ofInt f n⟩

/-- The exact value of a finite number; zero for the others. -/
def value : Binary f → Rat
  | finite negative size => if negative then -size.value else size.value
  | _ => 0

def isFinite : Binary f → Bool
  | finite .. => true
  | _ => false

def isNaN : Binary f → Bool
  | nan => true
  | _ => false

/-- The sign, which zeros and infinities have too. -/
def negative : Binary f → Bool
  | nan => false
  | infinite n => n
  | finite n _ => n

def neg : Binary f → Binary f
  | nan => nan
  | infinite n => infinite !n
  | finite n size => finite (!n) size

/-- A sum that cancels is positive zero; only two negative zeros add up to a negative one. -/
def add : Binary f → Binary f → Binary f
  | nan, _ | _, nan => nan
  | infinite m, infinite n => if m = n then infinite m else nan
  | infinite m, finite .. => infinite m
  | finite .., infinite n => infinite n
  | finite m s, finite n t =>
    let sum := (finite m s).value + (finite n t).value
    if sum = 0 then zero f (m && n) else ofRat f sum

def sub (x y : Binary f) : Binary f := add x y.neg

def mul : Binary f → Binary f → Binary f
  | nan, _ | _, nan => nan
  | infinite m, infinite n => infinite (m != n)
  | infinite m, finite n t => if t.significand = 0 then nan else infinite (m != n)
  | finite m s, infinite n => if s.significand = 0 then nan else infinite (m != n)
  | finite m s, finite n t => round f (m != n) (s.value * t.value)

def div : Binary f → Binary f → Binary f
  | nan, _ | _, nan => nan
  | infinite _, infinite _ => nan
  | infinite m, finite n _ => infinite (m != n)
  | finite m _, infinite n => zero f (m != n)
  | finite m s, finite n t =>
    if t.significand = 0 then if s.significand = 0 then nan else infinite (m != n)
    else round f (m != n) (s.value / t.value)

instance : Add (Binary f) := ⟨add⟩
instance : Sub (Binary f) := ⟨sub⟩
instance : Mul (Binary f) := ⟨mul⟩
instance : Div (Binary f) := ⟨div⟩
instance : Neg (Binary f) := ⟨neg⟩

def rootFloor (n : Nat) : Nat :=
  if h : n = 0 then 0
  else
    let r := 2 * rootFloor (n / 4)
    if (r + 1) * (r + 1) ≤ n then r + 1 else r
termination_by n
decreasing_by omega

/-- A magnitude that rounds as the square root of `m * 2 ^ e` does. The root is cut at a place finer than any
rounding boundary of `precision` bits, and a half stands for the part cut off. -/
def rootNear (precision m : Nat) (e : Int) : Rat :=
  let half : Int := (e + m.log2) / 2 - precision - 2
  let n := m * Nat.pow 2 (e - 2 * half).toNat
  let r := rootFloor n
  (if r * r = n then (r : Rat) else r + 1 / 2) * (2 : Rat) ^ half

def sqrt : Binary f → Binary f
  | nan => nan
  | infinite n => if n then nan else infinite false
  | finite n s =>
    if s.significand = 0 then finite n s
    else if n then nan
    else round f false (rootNear f.precision s.significand s.exponent)

/-- The number of another format nearest to this one. -/
def convert (g : NumberFormat) : Binary f → Binary g
  | nan => nan
  | infinite n => infinite n
  | finite n size => round g n size.value

/-- The nearest integer, a half going away from zero; the sign stays. -/
def roundHalfAway : Binary f → Binary f
  | finite n size => round f n (size.value + 1 / 2).floor
  | x => x

/-- Numeric order: nothing is below or above `nan`, and the two zeros are equal. -/
def lt : Binary f → Binary f → Bool
  | nan, _ | _, nan => false
  | infinite m, infinite n => m && !n
  | infinite m, finite .. => m
  | finite .., infinite n => !n
  | finite m s, finite n t => (finite m s).value < (finite n t).value

/-- Numeric equality: `nan` differs from itself, and the two zeros are equal. -/
def same : Binary f → Binary f → Bool
  | nan, _ | _, nan => false
  | infinite m, infinite n => m == n
  | finite m s, finite n t => (finite m s).value == (finite n t).value
  | _, _ => false

instance : LT (Binary f) := ⟨fun x y => x.lt y = true⟩

instance (x y : Binary f) : Decidable (x < y) := inferInstanceAs (Decidable (x.lt y = true))

/-- The lesser number; `nan` gives way to the other one. -/
def min (x y : Binary f) : Binary f :=
  if x.isNaN then y else if y < x then y else x

/-- The greater number; `nan` gives way to the other one. -/
def max (x y : Binary f) : Binary f :=
  if x.isNaN then y else if x < y then y else x

end Binary

end HexAtlas
