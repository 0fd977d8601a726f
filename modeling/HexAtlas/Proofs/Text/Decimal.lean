import HexAtlas.Binary.Decimal
import HexAtlas.Proofs.Text.Cut
import HexAtlas.Proofs.Text.Numeral

namespace HexAtlas

/-- The texts of an exponent, and the power of ten that each stands for. There may be none. -/
inductive PowerText : List Char → Int → Prop
  | none : PowerText [] 0
  | mark {c : Char} {cs : List Char} {k : Int} (letter : c = 'e' ∨ c = 'E') (power : IntText cs k) :
    PowerText (c :: cs) k

/-- The texts of a decimal without a sign: digits with at most one point before, among or behind them, and an
exponent. The number is that of the digits times a power of ten, which each digit behind the point lowers. -/
inductive UnsignedText : List Char → Nat → Int → Prop
  | whole {ds power : List Char} {n : Nat} {k : Int} (number : NatText ds n) (scale : PowerText power k) :
    UnsignedText (ds ++ power) n k
  | point {front back power : List Char} {n : Nat} {k : Int} (number : NatText (front ++ back) n)
    (scale : PowerText power k) : UnsignedText (front ++ '.' :: (back ++ power)) n (k - back.length)

theorem PowerText.not_isDigit_head {cs : List Char} {k : Int} (h : PowerText cs k) {c : Char}
    (atHead : cs.head? = some c) :
    isDigit c = false ∧ c ≠ '.' := by
  cases h with
  | none => cases atHead
  | mark letter power =>
    obtain rfl := Option.some.inj atHead
    rcases letter with rfl | rfl <;> decide

/-- The integer behind the mark of an exponent. -/
def readInteger? : List Char → Option Int
  | '-' :: ds => if isNumeral ds then some (-(digitsValue ds : Int)) else none
  | '+' :: ds => if isNumeral ds then some (digitsValue ds) else none
  | ds => if isNumeral ds then some (digitsValue ds) else none

def readPower? : List Char → Option Int
  | [] => some 0
  | mark :: tail => if mark = 'e' || mark = 'E' then readInteger? tail else none

/-- What is read off a run of digits is a value of the number that they write. -/
theorem ite_isNumeral_eq_some_iff (value : Nat → Int) {ds : List Char} {k : Int} :
    (if isNumeral ds then some (value (digitsValue ds)) else none) = some k ↔ ∃ n, NatText ds n ∧ value n = k := by
  simp only [Option.ite_none_right_eq_some, Option.some.injEq, natText_iff]
  constructor
  · rintro ⟨numeral, rfl⟩
    exact ⟨_, ⟨numeral, rfl⟩, rfl⟩
  · rintro ⟨n, ⟨numeral, rfl⟩, rfl⟩
    exact ⟨numeral, rfl⟩

theorem readInteger?_eq_some_iff {cs : List Char} {k : Int} : readInteger? cs = some k ↔ IntText cs k := by
  unfold readInteger?
  split
  · rename_i ds
    rw [ite_isNumeral_eq_some_iff fun n => -(n : Int)]
    refine ⟨fun ⟨n, digits, value⟩ => value ▸ .minus digits, fun text => ?_⟩
    cases text with
    | bare digits => exact absurd rfl (digits.ne_cons rfl ds)
    | minus digits => exact ⟨_, digits, rfl⟩
  · rename_i ds
    rw [ite_isNumeral_eq_some_iff fun n => (n : Int)]
    refine ⟨fun ⟨n, digits, value⟩ => value ▸ .plus digits, fun text => ?_⟩
    cases text with
    | bare digits => exact absurd rfl (digits.ne_cons rfl ds)
    | plus digits => exact ⟨_, digits, rfl⟩
  · rename_i minus plus
    rw [ite_isNumeral_eq_some_iff fun n => (n : Int)]
    refine ⟨fun ⟨n, digits, value⟩ => value ▸ .bare digits, fun text => ?_⟩
    cases text with
    | bare digits => exact ⟨_, digits, rfl⟩
    | plus => exact absurd rfl (plus _)
    | minus => exact absurd rfl (minus _)

theorem readPower?_eq_some_iff {cs : List Char} {k : Int} : readPower? cs = some k ↔ PowerText cs k := by
  cases cs with
  | nil =>
    rw [readPower?, Option.some.injEq]
    constructor
    · rintro rfl
      exact .none
    · intro text
      cases text
      rfl
  | cons mark tail =>
    simp only [readPower?, Option.ite_none_right_eq_some, Bool.or_eq_true, decide_eq_true_eq,
      readInteger?_eq_some_iff]
    constructor
    · rintro ⟨letter, power⟩
      exact .mark letter power
    · intro text
      cases text with
      | mark letter power => exact ⟨letter, power⟩

/-- A decimal by its digits before and behind the point and the text of its exponent. -/
def ofParts? (whole part tail : List Char) : Option (Nat × Int) :=
  if whole ++ part = [] then none
  else (readPower? tail).map fun power => (digitsValue (whole ++ part), power - part.length)

theorem ofParts?_eq_some_iff {whole part tail : List Char} (digits : ∀ c ∈ whole ++ part, isDigit c = true)
    {n : Nat} {place : Int} : ofParts? whole part tail = some (n, place) ↔
      ∃ k, NatText (whole ++ part) n ∧ PowerText tail k ∧ place = k - part.length := by
  simp only [ofParts?, Option.ite_none_left_eq_some, Option.map_eq_some_iff, Prod.mk.injEq, readPower?_eq_some_iff]
  constructor
  · rintro ⟨filled, k, power, value, rfl⟩
    exact ⟨k, natText_iff.mpr ⟨isNumeral_iff.mpr ⟨filled, digits⟩, value⟩, power, rfl⟩
  · rintro ⟨k, number, power, rfl⟩
    exact ⟨number.filled, k, power, (natText_iff.mp number).2, rfl⟩

section Reading

variable {front : List Char} (digits : ∀ c ∈ front, isDigit c = true)

include digits

theorem readDecimal?_whole {rest : List Char} (stop : ∀ c, rest.head? = some c → isDigit c = false ∧ c ≠ '.') :
    readDecimal? (front ++ rest) = ofParts? front [] rest := by
  obtain ⟨taken, left⟩ := run_append digits fun c atHead => (stop c atHead).1
  unfold readDecimal?
  simp only [taken, left]
  split
  · exact absurd rfl (stop '.' rfl).2
  · rfl

theorem readDecimal?_point {back tail : List Char} (behind : ∀ c ∈ back, isDigit c = true)
    (stop : ∀ c, tail.head? = some c → isDigit c = false) :
    readDecimal? (front ++ '.' :: (back ++ tail)) = ofParts? front back tail := by
  have point : ∀ c, ('.' :: (back ++ tail)).head? = some c → isDigit c = false := fun c atHead => by
    obtain rfl := Option.some.inj atHead
    decide
  obtain ⟨taken, left⟩ := run_append digits point
  obtain ⟨taken', left'⟩ := run_append behind stop
  unfold readDecimal?
  simp only [taken, left, taken', left']
  rfl

end Reading

theorem readDecimal?_eq_some_iff {cs : List Char} {n : Nat} {place : Int} :
    readDecimal? cs = some (n, place) ↔ UnsignedText cs n place := by
  constructor
  · intro read
    obtain ⟨front, rest, rfl, digits, stop⟩ := exists_run isDigit cs
    by_cases pointed : rest.head? = some '.'
    · obtain ⟨after, rfl⟩ := List.head?_eq_some_iff.mp pointed
      obtain ⟨back, tail, rfl, behind, stop⟩ := exists_run isDigit after
      rw [readDecimal?_point digits behind stop,
        ofParts?_eq_some_iff (List.forall_mem_append.mpr ⟨digits, behind⟩)] at read
      obtain ⟨k, number, power, rfl⟩ := read
      exact .point number power
    · have stop : ∀ c, rest.head? = some c → isDigit c = false ∧ c ≠ '.' := fun c atHead =>
        ⟨stop c atHead, fun same => pointed (same ▸ atHead)⟩
      rw [readDecimal?_whole digits stop, ofParts?_eq_some_iff (by simpa using digits)] at read
      obtain ⟨k, number, power, rfl⟩ := read
      rw [List.append_nil] at number
      simpa using UnsignedText.whole number power
  · intro text
    cases text with
    | @whole ds _ _ _ number power =>
      have digits : ∀ c ∈ ds, isDigit c = true := number.digits
      rw [readDecimal?_whole digits fun _ => power.not_isDigit_head, ofParts?_eq_some_iff (by simpa using digits)]
      exact ⟨_, by simpa using number, power, by simp⟩
    | point number power =>
      obtain ⟨digits, behind⟩ := List.forall_mem_append.mp number.digits
      rw [readDecimal?_point digits behind fun _ atHead => (power.not_isDigit_head atHead).1,
        ofParts?_eq_some_iff number.digits]
      exact ⟨_, number, power, rfl⟩

end HexAtlas
