import HexAtlas.Binary.Decimal

namespace HexAtlas

/-- Values of a report. In their text every item and every field has a line of its own, two spaces further in than
what holds it. Numbers that are not finite are written as `null`. -/
inductive ReportValue where
  | null
  | count (n : Nat)
  | number (x : Double)
  | text (s : String)
  | list (items : List ReportValue)
  | fields (entries : List (String × ReportValue))

namespace ReportValue

def hexDigits4 (n : Nat) : List Char :=
  let ds := Nat.toDigits 16 n
  List.replicate (4 - ds.length) '0' ++ ds

/-- A character inside quotes. Quotes, backslashes and control characters are escaped. -/
def quoteChar (c : Char) : List Char :=
  match c with
  | '"' => "\\\"".toList
  | '\\' => "\\\\".toList
  | '\n' => "\\n".toList
  | '\r' => "\\r".toList
  | '\t' => "\\t".toList
  | '\x08' => "\\b".toList
  | '\x0c' => "\\f".toList
  | c => if c.toNat < 0x20 then "\\u".toList ++ hexDigits4 c.toNat else [c]

def quote (s : String) : List Char := '"' :: s.toList.flatMap quoteChar ++ ['"']

/-- Items between brackets, each on a line; only the brackets if there are none. -/
def bracketed (opening closing : Char) (depth : Nat) (items : List (List Char)) : List Char :=
  let newline (d : Nat) := '\n' :: List.replicate (2 * d) ' '
  if items = [] then [opening, closing]
  else opening :: newline (depth + 1) ++ (',' :: newline (depth + 1)).intercalate items ++ newline depth ++
    [closing]

mutual

/-- The text of a value that stands `depth` levels in. -/
def print (depth : Nat) : ReportValue → List Char
  | null => "null".toList
  | count n => (toString n).toList
  | number x => if x.isFinite then x.shortest .data else "null".toList
  | text s => quote s
  | list items => bracketed '[' ']' depth (printItems (depth + 1) items)
  | fields entries => bracketed '\x7b' '\x7d' depth (printEntries (depth + 1) entries)

def printItems (depth : Nat) : List ReportValue → List (List Char)
  | [] => []
  | item :: rest => print depth item :: printItems depth rest

def printEntries (depth : Nat) : List (String × ReportValue) → List (List Char)
  | [] => []
  | (key, value) :: rest => (quote key ++ ": ".toList ++ print depth value) :: printEntries depth rest

end

end ReportValue

end HexAtlas
