import HexAtlas.Text.Numeral

namespace HexAtlas.Yaml

def isBreak (c : Char) : Bool :=
  c = '\n' || c = '\r' || c = '\u0085' || c = '\u2028' || c = '\u2029'

def isSpace (c : Char) : Bool := c = ' ' || c = '\t'

/-- A text that is empty or starts with a space, a tab or a line break. -/
def wordEnds (cs : List Char) : Bool := cs.head?.all fun c => isSpace c || isBreak c

/-- The characters that a stream may hold. -/
def isAllowed (c : Char) : Bool :=
  let n := c.toNat
  c = '\t' || c = '\n' || c = '\r' || (0x20 ≤ n && n ≤ 0x7e) || n = 0x85 || (0xa0 ≤ n && n ≤ 0xd7ff) ||
    (0xe000 ≤ n && n ≤ 0xfffd) || 0x10000 ≤ n

/-- Most breaks are read as a line feed. -/
def readBreak (c : Char) : Char := if c = '\u2028' || c = '\u2029' then c else '\n'

/-- A text without the line break at its front, and the break as it is read. -/
def takeBreak? : List Char → Option (Char × List Char)
  | '\r' :: '\n' :: rest => some ('\n', rest)
  | c :: rest => if isBreak c then some (readBreak c, rest) else none
  | [] => none

/-- Three dashes or three dots that stand as a word. -/
def isDocumentMark (cs : List Char) : Bool :=
  match cs with
  | '-' :: '-' :: '-' :: rest => wordEnds rest
  | '.' :: '.' :: '.' :: rest => wordEnds rest
  | _ => false

/-- Spaces and line breaks between two words of a scalar. -/
structure Gap where
  spaces : List Char
  /-- A line break has been passed. -/
  broken : Bool
  /-- The first break as it is read; none if it was escaped. -/
  first : List Char
  more : List Char

namespace Gap

def none : Gap := ⟨[], false, [], []⟩

def escaped : Gap := ⟨[], true, [], []⟩

def addBreak (g : Gap) (c : Char) : Gap :=
  if g.broken then { g with more := g.more ++ [c] } else { g with spaces := [], broken := true, first := [c] }

/-- A single line feed is read as a space, and further ones as themselves. -/
def text (g : Gap) : List Char :=
  if !g.broken then g.spaces
  else if g.first = ['\n'] then if g.more = [] then [' '] else g.more
  else g.first ++ g.more

end Gap

/-- Reads spaces and breaks, with the column after them. A tab left of column `limit` on a new line is an error. -/
def readGap? (limit : Int) (g : Gap) (column : Nat) : List Char → Option (Gap × Nat × List Char)
  | [] => some (g, column, [])
  | '\r' :: '\n' :: rest => readGap? limit (g.addBreak '\n') 0 rest
  | c :: rest =>
    if isSpace c then
      if g.broken then
        if c = '\t' && column < limit then Option.none else readGap? limit g (column + 1) rest
      else readGap? limit { g with spaces := g.spaces ++ [c] } (column + 1) rest
    else if isBreak c then readGap? limit (g.addBreak (readBreak c)) 0 rest
    else some (g, column, c :: rest)

def hexDigit? (c : Char) : Option Nat :=
  if isDigit c then some (digitValue c)
  else if 'a' ≤ c && c ≤ 'f' then some (c.toNat - 'a'.toNat + 10)
  else if 'A' ≤ c && c ≤ 'F' then some (c.toNat - 'A'.toNat + 10)
  else Option.none

/-- The character whose code is written in the first `count` hexadecimal digits. -/
def codeEscape? (count : Nat) (cs : List Char) : Option (Char × List Char) := do
  let digits ← (cs.take count).mapM hexDigit?
  let code := digits.foldl (fun n d => 16 * n + d) 0
  if digits.length = count && code.isValidChar then some (Char.ofNat code, cs.drop count) else Option.none

/-- What an escape stands for, after its backslash. -/
def readEscape? : List Char → Option (Char × List Char)
  | 'x' :: rest => codeEscape? 2 rest
  | 'u' :: rest => codeEscape? 4 rest
  | 'U' :: rest => codeEscape? 8 rest
  | c :: rest =>
    let table := [
      ('0', '\x00'), ('a', '\x07'), ('b', '\x08'), ('t', '\t'), ('\t', '\t'), ('n', '\n'), ('v', '\x0b'),
      ('f', '\x0c'), ('r', '\r'), ('e', '\x1b'), (' ', ' '), ('"', '"'), ('/', '/'), ('\\', '\\'),
      ('N', '\u0085'), ('_', '\u00a0'), ('L', '\u2028'), ('P', '\u2029')]
    (table.lookup c).map fun d => (d, rest)
  | [] => Option.none

/-- The inside of a quoted scalar, read after its opening quote. -/
def quotedBody? (quote : Char) : (fuel column : Nat) → List Char → Option (List Char × List Char)
  | 0, _, _ => none
  | fuel + 1, column, cs =>
    if column = 0 && isDocumentMark cs then none
    else match cs with
      | [] => none
      | c :: rest =>
        if isSpace c || isBreak c then do
          let (gap, column, rest) ← readGap? 0 .none column (c :: rest)
          let (text, after) ← quotedBody? quote fuel column rest
          some (gap.text ++ text, after)
        else if c = '\'' && quote = '\'' && rest.head? = some '\'' then
          (quotedBody? quote fuel (column + 2) (rest.drop 1)).map fun (text, after) => ('\'' :: text, after)
        else if c = quote then some ([], rest)
        else if c = '\\' && quote = '"' then
          match takeBreak? rest with
          | some (_, rest) => do
            let (gap, column, rest) ← readGap? 0 .escaped 0 rest
            let (text, after) ← quotedBody? quote fuel column rest
            some (gap.text ++ text, after)
          | none => do
            let (d, rest) ← readEscape? rest
            (quotedBody? quote fuel (column + 2) rest).map fun (text, after) => (d :: text, after)
        else (quotedBody? quote fuel (column + 1) rest).map fun (text, after) => (c :: text, after)

def quoted? (quote : Char) (column : Nat) (cs : List Char) : Option (List Char × List Char) :=
  quotedBody? quote (cs.length + 1) column cs

/-- Characters that end a plain scalar between brackets. -/
def isFlowMark (c : Char) : Bool := c = ',' || c = '[' || c = ']' || c = '\x7b' || c = '\x7d'

/-- A plain scalar. It ends before a comment, a mark, a line that stands too far left, or a line that is a document
mark. The result holds the text, whether a line break was passed after it, and the rest. -/
def plainBody? (flow : Bool) (limit : Int) :
    (fuel : Nat) → Gap → (column : Nat) → List Char → Option (List Char × Bool × List Char)
  | 0, _, _, _ => none
  | fuel + 1, gap, column, cs =>
    let isNew := gap.broken || gap.spaces ≠ []
    if isNew && ((column = 0 && isDocumentMark cs) || cs.head? = some '#' || (!flow && column < limit)) then
      some ([], gap.broken, cs)
    else match cs with
      | [] => some ([], gap.broken, [])
      | c :: rest =>
        if isSpace c || isBreak c then do
          let (gap, column, rest) ← readGap? limit .none column (c :: rest)
          plainBody? flow limit fuel gap column rest
        else if flow && c = ':' && rest.head?.any (fun d => isFlowMark d || d = '?') then none
        else if (c = ':' && wordEnds rest) || (flow && isFlowMark c) then some ([], gap.broken, c :: rest)
        else do
          let (text, broken, after) ← plainBody? flow limit fuel .none (column + 1) rest
          some (gap.text ++ c :: text, broken, after)

def plain? (flow : Bool) (limit : Int) (column : Nat) (cs : List Char) : Option (List Char × Bool × List Char) :=
  plainBody? flow limit (2 * cs.length + 1) .none column cs

/-- What is kept of the breaks at the end of a block scalar. -/
inductive Chomping where
  | strip
  | clip
  | keep
deriving DecidableEq

def chomping? : Char → Option Chomping
  | '+' => some .keep
  | '-' => some .strip
  | _ => none

def indentDigit? (c : Char) : Option Nat := if isDigit c && c ≠ '0' then some (digitValue c) else none

/-- The chomping and the indentation that the header of a block scalar gives, in either order. -/
def blockHeader? (cs : List Char) : Option (Chomping × Option Nat × List Char) :=
  match cs with
  | c :: rest =>
    match chomping? c with
    | some chomping =>
      match rest with
      | d :: rest' =>
        if d = '0' then none
        else match indentDigit? d with
          | some n => some (chomping, some n, rest')
          | none => some (chomping, none, rest)
      | [] => some (chomping, none, [])
    | none =>
      if c = '0' then none
      else match indentDigit? c with
        | some n =>
          match rest with
          | d :: rest' =>
            match chomping? d with
            | some chomping => some (chomping, some n, rest')
            | none => some (.clip, some n, rest)
          | [] => some (.clip, some n, [])
        | none => some (.clip, none, c :: rest)
  | [] => some (.clip, none, [])

/-- Empty lines and the indentation before a line of a block scalar. While the indentation is not known, the deepest
column counts. The result holds that column, the breaks, the column reached and the rest. -/
def blockBreaks? (indent? : Option Nat) : (fuel deepest : Nat) → List Char → List Char →
    Option (Nat × List Char × Nat × List Char)
  | 0, _, _, _ => none
  | fuel + 1, deepest, breaks, cs =>
    let spaces := (cs.takeWhile (· = ' ')).length
    let column := indent?.elim spaces (min spaces)
    let rest := cs.drop column
    let deepest := max deepest column
    if rest.head? = some '\t' && indent?.all (column < ·) then none
    else match takeBreak? rest with
      | some (c, rest) => blockBreaks? indent? fuel deepest (breaks ++ [c]) rest
      | none => some (deepest, breaks, column, rest)

/-- The lines of a block scalar whose indentation is known. The arguments hold the break before the line, the breaks
after that one and whether the last line began with a space. -/
def blockLines? (literal : Bool) (chomping : Chomping) (indent : Nat) :
    (fuel : Nat) → (lead more : List Char) → (wasSpace : Bool) → (column : Nat) → List Char →
    Option (List Char × Nat × List Char)
  | 0, _, _, _, _, _ => none
  | fuel + 1, lead, more, wasSpace, column, cs =>
    if column = indent && cs ≠ [] then do
      let isSpace := cs.head?.any isSpace
      let joint :=
        if !literal && lead = ['\n'] && !wasSpace && !isSpace then if more = [] then [' '] else []
        else lead
      let line := cs.takeWhile fun c => !isBreak c
      let rest := cs.drop line.length
      let (lead', rest) := match takeBreak? rest with
        | some (c, rest) => ([c], rest)
        | none => ([], rest)
      let (_, more', column, rest) ← blockBreaks? (some indent) (rest.length + 1) 0 [] rest
      let (text, column, rest) ← blockLines? literal chomping indent fuel lead' more' isSpace column rest
      some (joint ++ more ++ line ++ text, column, rest)
    else
      let tail := match chomping with
        | .strip => []
        | .clip => lead
        | .keep => lead ++ more
      some (tail, column, cs)

/-- A block scalar, read after its mark, inside a block whose indentation is `outer` (`-1` for none). The result
holds the text, the column reached and the rest. -/
def block? (literal : Bool) (outer : Int) (cs : List Char) : Option (List Char × Nat × List Char) := do
  let (chomping, increment, rest) ← blockHeader? cs
  let rest := rest.dropWhile isSpace
  let rest := if rest.head? = some '#' then rest.dropWhile fun c => !isBreak c else rest
  let rest ← match takeBreak? rest with
    | some (_, rest) => some rest
    | none => if rest = [] then some [] else none
  let given := increment.map fun n => if 0 ≤ outer then outer.toNat + n else n
  let (deepest, breaks, column, rest) ← blockBreaks? given (rest.length + 1) 0 [] rest
  let indent := given.getD (max deepest (max (outer + 1).toNat 1))
  blockLines? literal chomping indent (rest.length + 1) [] breaks false column rest

end HexAtlas.Yaml
