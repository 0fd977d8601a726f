import HexAtlas.Yaml.Scalar

namespace HexAtlas.Yaml

/-- Tokens of a stream. Indentation opens and closes blocks; a word becomes a key only when a colon follows it, so
the scanner leaves an open slot before every word that may be one and fills it when the colon comes. -/
inductive Token where
  | version (major minor : Nat)
  | tagHandle (handle : String)
  | documentStart
  | documentEnd
  | blockSequence
  | blockMapping
  | blockEnd
  | flowSequence
  | flowSequenceEnd
  | flowMapping
  | flowMappingEnd
  | blockEntry
  | flowEntry
  | key
  | value
  | alias (name : String)
  | anchor (name : String)
  /-- A tag by its handle; the rest of it has no part in reading. -/
  | tag (handle : String)
  | scalar (plain : Bool) (text : String)
deriving DecidableEq, Repr

/-- A token, or a place where a key token may still be put. -/
inductive Item where
  | token (t : Token)
  | slot (number : Nat)
deriving DecidableEq, Repr

/-- A word that may turn out to be a key. -/
structure Candidate where
  slot : Nat
  /-- Its block has no other way to go on. -/
  required : Bool
  line : Nat
  column : Nat
  index : Nat

/-- The rest of a text and the place where it starts. -/
structure Cursor where
  rest : List Char
  index : Nat
  line : Nat
  column : Nat

namespace Cursor

def after (line column : Nat) : List Char → Nat × Nat
  | [] => (line, column)
  | '\r' :: '\n' :: rest => after (line + 1) 0 rest
  | c :: rest => if isBreak c then after (line + 1) 0 rest else after line (column + 1) rest

/-- The place where `rest`, an end of the cursor's text, starts. -/
def moveTo (c : Cursor) (rest : List Char) : Cursor :=
  let passed := c.rest.take (c.rest.length - rest.length)
  let (line, column) := after c.line c.column passed
  ⟨rest, c.index + passed.length, line, column⟩

def skip (c : Cursor) (n : Nat) : Cursor := c.moveTo (c.rest.drop n)

end Cursor

structure Scanner where
  cursor : Cursor
  /-- The items so far, the last one first. -/
  items : List Item
  slots : Nat
  /-- Indentation of the current block and of those around it; `-1` outside of all. -/
  indent : Int
  outer : List Int
  keyAllowed : Bool
  /-- The candidate of the current brackets, or of the block. -/
  candidate : Option Candidate
  /-- The candidates around the current brackets. -/
  around : List (Option Candidate)

namespace Scanner

def start (cs : List Char) : Scanner := ⟨⟨cs, 0, 0, 0⟩, [], 0, -1, [], true, none, []⟩

def inFlow (s : Scanner) : Bool := s.around ≠ []

def push (s : Scanner) (t : Token) : Scanner := { s with items := .token t :: s.items }

def skip (s : Scanner) (n : Nat) : Scanner := { s with cursor := s.cursor.skip n }

def allowKey (s : Scanner) (allowed : Bool) : Scanner := { s with keyAllowed := allowed }

/-- Gives up the candidate, which is an error if it had to be a key. -/
def dropCandidate? (s : Scanner) : Option Scanner :=
  if s.candidate.any (·.required) then none else some { s with candidate := none }

/-- Takes the word at hand as a candidate if a key is allowed here. -/
def saveCandidate? (s : Scanner) : Option Scanner :=
  if s.keyAllowed then do
    let s ← s.dropCandidate?
    let required := !s.inFlow && s.indent = s.cursor.column
    some { s with
      candidate := some ⟨s.slots, required, s.cursor.line, s.cursor.column, s.cursor.index⟩
      items := .slot s.slots :: s.items
      slots := s.slots + 1 }
  else some s

/-- A candidate is out of date on a later line or more than 1024 characters on. -/
def isStale (s : Scanner) (c : Candidate) : Bool := c.line < s.cursor.line || c.index + 1024 < s.cursor.index

/-- Drops the candidates that are out of date, unless one of them had to be a key. -/
def dropStale? (s : Scanner) : Option Scanner :=
  let stale := (s.candidate :: s.around).any fun c => c.any fun c => s.isStale c && c.required
  if stale then none
  else
    let fresh (c : Option Candidate) := c.filter fun c => !s.isStale c
    some { s with candidate := fresh s.candidate, around := s.around.map fresh }

/-- Closes the blocks that stand further right than a column. -/
def unroll (s : Scanner) (column : Int) : Scanner :=
  if s.inFlow then s
  else
    let rec close (items : List Item) (indent : Int) : List Int → List Item × Int × List Int
      | [] => (items, indent, [])
      | next :: rest =>
        if column < indent then close (.token .blockEnd :: items) next rest else (items, indent, next :: rest)
    let (items, indent, outer) := close s.items s.indent s.outer
    { s with items, indent, outer }

/-- Opens a block at a column that stands further right than the current one. -/
def roll (s : Scanner) (column : Nat) (t : Token) : Scanner :=
  if s.inFlow || column ≤ s.indent then s
  else { s with indent := column, outer := s.indent :: s.outer, items := .token t :: s.items }

/-- Blanks, comments and line breaks up to the next token. Tabs do not count as blanks where a key may start, and a
line may begin with a byte order mark. -/
def toNext (s : Scanner) : (fuel : Nat) → Scanner
  | 0 => s
  | fuel + 1 =>
    let blank (c : Char) := c = ' ' || (c = '\t' && (s.inFlow || !s.keyAllowed))
    let rest := s.cursor.rest
    let rest := if s.cursor.column = 0 && rest.head? = some '\ufeff' then rest.drop 1 else rest
    let rest := rest.dropWhile blank
    let rest := if rest.head? = some '#' then rest.dropWhile fun c => !isBreak c else rest
    match takeBreak? rest with
    | some (_, rest) =>
      toNext { s with cursor := s.cursor.moveTo rest, keyAllowed := s.keyAllowed || !s.inFlow } fuel
    | none => { s with cursor := s.cursor.moveTo rest }

def isNameChar (c : Char) : Bool := c.isAlphanum || c = '_' || c = '-'

/-- A name after `&` or `*`. -/
def name? (cs : List Char) : Option (String × List Char) :=
  let name := cs.takeWhile isNameChar
  let rest := cs.dropWhile isNameChar
  let ends := wordEnds rest || rest.head?.any fun c => "?:,]\x7d%@\x60".toList.contains c
  if name ≠ [] && ends then some (String.ofList name, rest) else none

def isTagChar (c : Char) : Bool := isNameChar c || ";/?:@&=+$.!~*'()".toList.contains c

/-- The rest of a tag, in which every percent sign stands before two hexadecimal digits. -/
def tagText? (bracketed : Bool) : List Char → Option (List Char)
  | '%' :: a :: b :: rest => if (hexDigit? a).isSome && (hexDigit? b).isSome then tagText? bracketed rest else none
  | c :: rest =>
    if isTagChar c || (bracketed && ",[]".toList.contains c) then tagText? bracketed rest
    else if c = '%' then none else some (c :: rest)
  | [] => some []

/-- A tag, read after its first exclamation mark: its handle and what follows. -/
def tag? (flow : Bool) (cs : List Char) : Option (String × List Char) := do
  let (handle, rest) ← match cs with
    | '<' :: rest => do
      let after ← tagText? true rest
      if after.length < rest.length && after.head? = some '>' then some ("", after.drop 1) else none
    | _ =>
      let name := cs.takeWhile isNameChar
      match cs.dropWhile isNameChar with
      | '!' :: rest => do
        let after ← tagText? false rest
        if after.length < rest.length then some ("!" ++ String.ofList name ++ "!", after) else none
      | _ => (tagText? false cs).map fun after => ("!", after)
  if wordEnds rest || (flow && rest.head? = some ',') then some (handle, rest) else none

/-- The rest of a line that may hold a comment only. -/
def lineEnd? (cs : List Char) : Option (List Char) :=
  let rest := cs.dropWhile isSpace
  let rest := if rest.head? = some '#' then rest.dropWhile fun c => !isBreak c else rest
  match takeBreak? rest with
  | some (_, rest) => some rest
  | none => if rest = [] then some [] else none

/-- A directive, read after its percent sign. -/
def directive? (cs : List Char) : Option (Token × List Char) := do
  let name := cs.takeWhile isNameChar
  let rest := cs.dropWhile isNameChar
  if name = [] || !wordEnds rest then none
  let rest := rest.dropWhile isSpace
  if name = "YAML".toList then
    let major := rest.takeWhile isDigit
    match rest.dropWhile isDigit with
    | '.' :: rest =>
      let minor := rest.takeWhile isDigit
      let sized (n : List Char) := n ≠ [] && n.length ≤ 9
      if sized major && sized minor then
        (lineEnd? (rest.dropWhile isDigit)).map fun rest => (.version (digitsValue major) (digitsValue minor), rest)
      else none
    | _ => none
  else if name = "TAG".toList then
    match rest with
    | '!' :: rest =>
      let word := rest.takeWhile isNameChar
      let tail := rest.dropWhile isNameChar
      let (handle, tail) := match tail with
        | '!' :: tail => ("!" ++ String.ofList word ++ "!", tail)
        | _ => ("!" ++ String.ofList word, tail)
      if (handle ≠ "!" && !handle.endsWith "!") || !tail.head?.any isSpace then none
      else
        let tail := tail.dropWhile isSpace
        let after ← tagText? true tail
        if after.length < tail.length && wordEnds after then
          (lineEnd? after).map fun rest => (.tagHandle handle, rest)
        else none
    | _ => none
  else none

/-- A token that takes a number of characters and does not touch the candidates. -/
def mark (s : Scanner) (t : Token) (n : Nat) : Scanner := (s.push t).skip n

/-- A token outside of all blocks. -/
def documentToken? (s : Scanner) (t : Token) (rest : List Char) : Option Scanner := do
  let s ← (s.unroll (-1)).dropCandidate?
  some { (s.allowKey false).push t with cursor := s.cursor.moveTo rest }

def openFlow? (s : Scanner) (t : Token) : Option Scanner := do
  let s ← s.saveCandidate?
  some (({ s with candidate := none, around := s.candidate :: s.around }.allowKey true).mark t 1)

def closeFlow? (s : Scanner) (t : Token) : Option Scanner := do
  let s ← s.dropCandidate?
  let s := match s.around with
    | candidate :: around => { s with candidate, around }
    | [] => s
  some ((s.allowKey false).mark t 1)

def flowEntry? (s : Scanner) : Option Scanner := do
  let s ← s.dropCandidate?
  some ((s.allowKey true).mark .flowEntry 1)

def blockEntry? (s : Scanner) : Option Scanner := do
  if !s.inFlow && !s.keyAllowed then none
  let s ← (s.roll s.cursor.column .blockSequence).dropCandidate?
  some ((s.allowKey true).mark .blockEntry 1)

def key? (s : Scanner) : Option Scanner := do
  if !s.inFlow && !s.keyAllowed then none
  let s ← (s.roll s.cursor.column .blockMapping).dropCandidate?
  some ((s.allowKey !s.inFlow).mark .key 1)

/-- A colon. It makes the candidate a key, which opens a block if it stands further right than the current one. -/
def value? (s : Scanner) : Option Scanner :=
  match s.candidate with
  | some c =>
    let opens := !s.inFlow && s.indent < c.column
    let filling : List Item := if opens then [.token .key, .token .blockMapping] else [.token .key]
    let items := s.items.flatMap fun i => if i = .slot c.slot then filling else [i]
    let s := if opens then { s with indent := c.column, outer := s.indent :: s.outer } else s
    some (({ s with items, candidate := none }.allowKey false).mark .value 1)
  | none =>
    if !s.inFlow && !s.keyAllowed then none
    else
      let s := s.roll s.cursor.column .blockMapping
      some ((s.allowKey !s.inFlow).mark .value 1)

def word? (s : Scanner) (t : Token) (rest : List Char) : Option Scanner := do
  let s ← s.saveCandidate?
  some { (s.allowKey false).push t with cursor := s.cursor.moveTo rest }

def blockScalar? (s : Scanner) (literal : Bool) : Option Scanner := do
  let s ← s.dropCandidate?
  let (text, _, rest) ← block? literal s.indent (s.cursor.rest.drop 1)
  some { (s.allowKey true).push (.scalar false (String.ofList text)) with cursor := s.cursor.moveTo rest }

def plainScalar? (s : Scanner) : Option Scanner := do
  let s ← s.saveCandidate?
  let (text, broken, rest) ← plain? s.inFlow (s.indent + 1) s.cursor.column s.cursor.rest
  some { (s.allowKey broken).push (.scalar true (String.ofList text)) with cursor := s.cursor.moveTo rest }

/-- The token at hand, which starts with `c` before `rest`. -/
def token? (s : Scanner) (c : Char) (rest : List Char) : Option Scanner :=
  let first := s.cursor.column = 0
  let apart := wordEnds rest
  if first && c = '%' then do
    let (t, rest) ← directive? rest
    s.documentToken? t rest
  else if first && isDocumentMark (c :: rest) then
    s.documentToken? (if c = '-' then .documentStart else .documentEnd) (rest.drop 2)
  else if c = '[' then s.openFlow? .flowSequence
  else if c = '\x7b' then s.openFlow? .flowMapping
  else if c = ']' then s.closeFlow? .flowSequenceEnd
  else if c = '\x7d' then s.closeFlow? .flowMappingEnd
  else if c = ',' then s.flowEntry?
  else if c = '-' && apart then s.blockEntry?
  else if c = '?' && (s.inFlow || apart) then s.key?
  else if c = ':' && (s.inFlow || apart) then s.value?
  else if c = '*' then do
    let (name, rest) ← name? rest
    s.word? (.alias name) rest
  else if c = '&' then do
    let (name, rest) ← name? rest
    s.word? (.anchor name) rest
  else if c = '!' then do
    let (handle, rest) ← tag? s.inFlow rest
    s.word? (.tag handle) rest
  else if (c = '|' || c = '>') && !s.inFlow then s.blockScalar? (c = '|')
  else if c = '\'' || c = '"' then do
    let (text, rest) ← quoted? c (s.cursor.column + 1) rest
    s.word? (.scalar false (String.ofList text)) rest
  else if (c = '-' && !rest.head?.any isSpace) || (!s.inFlow && (c = '?' || c = ':') && !apart) ||
      !"-?:#|>%@\x60\t".toList.contains c then s.plainScalar?
  else none

def run? : (fuel : Nat) → Scanner → Option Scanner
  | 0, _ => none
  | fuel + 1, s => do
    let s ← (s.toNext (s.cursor.rest.length + 1)).dropStale?
    let s := s.unroll s.cursor.column
    match s.cursor.rest with
    | [] => (s.unroll (-1)).dropCandidate?
    | c :: rest => run? fuel (← s.token? c rest)

end Scanner

/-- The tokens of a stream; nothing if it is malformed. -/
def tokens? (cs : List Char) : Option (List Token) := do
  let cs := if cs.head? = some '\ufeff' then cs.drop 1 else cs
  if !cs.all isAllowed then none
  let s ← (Scanner.start cs).run? (cs.length + 2)
  some <| s.items.reverse.filterMap fun
    | .token t => some t
    | .slot _ => none

end HexAtlas.Yaml
