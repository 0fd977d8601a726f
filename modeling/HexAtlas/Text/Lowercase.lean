import HexAtlas.Text.LetterCase

namespace HexAtlas

namespace LetterCase

def inRanges (ranges : List (Nat × Nat)) (c : Char) : Bool :=
  ranges.any fun (first, last) => first ≤ c.toNat && c.toNat ≤ last

def isCased : Char → Bool := inRanges casedRanges

def isIgnorable : Char → Bool := inRanges ignorableRanges

/-- The small letter where that is one character. -/
def lowerChar (c : Char) : Char :=
  let n := c.toNat
  let row := lowerRanges.find? fun (first, last, step, _) => first ≤ n && n ≤ last && (n - first) % step = 0
  match row with
  | some (_, _, _, distance) => Char.ofNat (n + distance).toNat
  | none => c

/-- The nearest character that is not passed over has a case. -/
def nextIsCased (cs : List Char) : Bool :=
  match cs.dropWhile isIgnorable with
  | c :: _ => isCased c
  | [] => false

/-- Small letters of a text, where `before` holds the characters in front of it, the nearest one first. -/
def lowerAfter (before : List Char) : List Char → List Char
  | [] => []
  | c :: rest =>
    let here :=
      if c = 'Σ' then [if nextIsCased before && !nextIsCased rest then 'ς' else 'σ']
      else if c = 'İ' then ['i', '\u0307']
      else [lowerChar c]
    here ++ lowerAfter (c :: before) rest

end LetterCase

/-- Small letters by the full Unicode mapping: one letter has a small form of two characters, and a capital sigma
that ends a word becomes the final one. -/
def lowercase (cs : List Char) : List Char := LetterCase.lowerAfter [] cs

end HexAtlas
