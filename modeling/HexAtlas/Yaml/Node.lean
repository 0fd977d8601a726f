import HexAtlas.Yaml.Token

namespace HexAtlas.Yaml

/-- Documents as trees. Aliases are replaced by what they name; empty places are empty plain scalars. -/
inductive Node where
  | scalar (plain : Bool) (text : String)
  | sequence (items : List Node)
  | mapping (entries : List (Node × Node))
  /-- An alias inside the very node that it names. -/
  | loop
deriving Repr, Inhabited

namespace Node

def absent : Node := scalar true ""

end Node

/-- The named nodes of a document, the last one first. -/
abbrev Anchors := List (String × Option Node)

namespace Anchors

/-- Fills in the node of the innermost open anchor of a name. -/
def close (name : String) (node : Node) : Anchors → Anchors
  | [] => []
  | (n, filled) :: rest =>
    if n = name && filled.isNone then (n, some node) :: rest else (n, filled) :: close name node rest

end Anchors

structure Reading where
  tokens : List Token
  anchors : Anchors

def Reading.next? (r : Reading) : Option Token := r.tokens.head?

/-- An empty place is recognised by one of these tokens, or the end, in the place of a node. -/
def Reading.isAt (r : Reading) (ts : List Token) : Bool := r.tokens.head?.any ts.contains

/-- The anchor and the tag before a node, in either order, each at most once. -/
def properties (tokens : List Token) : Option String × Option String × List Token :=
  match tokens with
  | .anchor name :: .tag handle :: rest => (some name, some handle, rest)
  | .tag handle :: .anchor name :: rest => (some name, some handle, rest)
  | .anchor name :: rest => (some name, none, rest)
  | .tag handle :: rest => (none, some handle, rest)
  | rest => (none, none, rest)

/-- Handles that need no directive. -/
def isKnownHandle (handles : List String) (handle : String) : Bool :=
  handle = "" || handle = "!" || handle = "!!" || handles.contains handle

mutual

/-- A node. `block` allows blocks, `indentless` a sequence that stands no further right than its key. -/
def node? (handles : List String) : (fuel : Nat) → (block indentless : Bool) → Reading → Option (Node × Reading)
  | 0, _, _, _ => none
  | fuel + 1, block, indentless, r =>
    match r.tokens with
    | .alias name :: rest =>
      match r.anchors.lookup name with
      | some node? => some (node?.getD .loop, { r with tokens := rest })
      | none => none
    | _ => do
      let (anchor?, tag?, rest) := properties r.tokens
      if !tag?.all (isKnownHandle handles) then none
      let r' : Reading := ⟨rest, anchor?.elim r.anchors fun name => (name, none) :: r.anchors⟩
      let (node, r') ← content? handles fuel block indentless (anchor?.isSome || tag?.isSome) r'
      some (node, { r' with anchors := anchor?.elim r'.anchors fun name => r'.anchors.close name node })

/-- A node after its properties. With some of them it may be empty. -/
def content? (handles : List String) :
    (fuel : Nat) → (block indentless hasProperties : Bool) → Reading → Option (Node × Reading)
  | 0, _, _, _, _ => none
  | fuel + 1, block, indentless, hasProperties, r =>
    match r.tokens with
    | .scalar plain text :: rest => some (.scalar plain text, { r with tokens := rest })
    | .blockEntry :: _ =>
      if indentless then (indentless? handles fuel r).map fun (items, r) => (.sequence items, r)
      else if hasProperties then some (.absent, r) else none
    | .flowSequence :: rest =>
      (flowItems? handles fuel true { r with tokens := rest }).map fun (items, r) => (.sequence items, r)
    | .flowMapping :: rest =>
      (flowEntries? handles fuel true { r with tokens := rest }).map fun (entries, r) => (.mapping entries, r)
    | .blockSequence :: rest =>
      if block then
        (blockItems? handles fuel { r with tokens := rest }).map fun (items, r) => (.sequence items, r)
      else if hasProperties then some (.absent, r) else none
    | .blockMapping :: rest =>
      if block then
        (blockEntries? handles fuel { r with tokens := rest }).map fun (entries, r) => (.mapping entries, r)
      else if hasProperties then some (.absent, r) else none
    | _ => if hasProperties then some (.absent, r) else none

def blockItems? (handles : List String) : (fuel : Nat) → Reading → Option (List Node × Reading)
  | 0, _ => none
  | fuel + 1, r =>
    match r.tokens with
    | .blockEntry :: rest => do
      let r := { r with tokens := rest }
      let (item, r) ← if r.isAt [.blockEntry, .blockEnd] then some (Node.absent, r)
        else node? handles fuel true false r
      let (items, r) ← blockItems? handles fuel r
      some (item :: items, r)
    | .blockEnd :: rest => some ([], { r with tokens := rest })
    | _ => none

/-- The items of a sequence that no block encloses. -/
def indentless? (handles : List String) : (fuel : Nat) → Reading → Option (List Node × Reading)
  | 0, _ => none
  | fuel + 1, r =>
    match r.tokens with
    | .blockEntry :: rest => do
      let r := { r with tokens := rest }
      let (item, r) ← if r.isAt [.blockEntry, .key, .value, .blockEnd] then some (Node.absent, r)
        else node? handles fuel true false r
      let (items, r) ← indentless? handles fuel r
      some (item :: items, r)
    | _ => some ([], r)

def blockEntries? (handles : List String) : (fuel : Nat) → Reading → Option (List (Node × Node) × Reading)
  | 0, _ => none
  | fuel + 1, r =>
    match r.tokens with
    | .key :: rest => do
      let r := { r with tokens := rest }
      let (key, r) ← if r.isAt [.key, .value, .blockEnd] then some (Node.absent, r)
        else node? handles fuel true true r
      let (value, r) ← match r.tokens with
        | .value :: rest =>
          let r := { r with tokens := rest }
          if r.isAt [.key, .value, .blockEnd] then some (Node.absent, r) else node? handles fuel true true r
        | _ => some (Node.absent, r)
      let (entries, r) ← blockEntries? handles fuel r
      some ((key, value) :: entries, r)
    | .blockEnd :: rest => some ([], { r with tokens := rest })
    | _ => none

/-- A value between brackets, if there is one. -/
def flowValue? (handles : List String) : (fuel : Nat) → (ends : List Token) → Reading → Option (Node × Reading)
  | 0, _, _ => none
  | fuel + 1, ends, r =>
    match r.tokens with
    | .value :: rest =>
      let r := { r with tokens := rest }
      if r.isAt ends then some (Node.absent, r) else node? handles fuel false false r
    | _ => some (Node.absent, r)

/-- The items of a flow sequence up to its end. An item may be a pair, which is a mapping of its own. -/
def flowItems? (handles : List String) : (fuel : Nat) → (first : Bool) → Reading → Option (List Node × Reading)
  | 0, _, _ => none
  | fuel + 1, first, r =>
    match r.tokens with
    | .flowSequenceEnd :: rest => some ([], { r with tokens := rest })
    | tokens => do
      let r ← if first then some { r with tokens }
        else match tokens with
          | .flowEntry :: rest => some { r with tokens := rest }
          | _ => none
      match r.tokens with
      | .flowSequenceEnd :: rest => some ([], { r with tokens := rest })
      | .key :: rest => do
        let r := { r with tokens := rest }
        let ends := [Token.flowEntry, .flowSequenceEnd]
        let (key, r) ← if r.isAt (.value :: ends) then some (Node.absent, r) else node? handles fuel false false r
        let (value, r) ← flowValue? handles fuel ends r
        let (items, r) ← flowItems? handles fuel false r
        some (.mapping [(key, value)] :: items, r)
      | _ => do
        let (item, r) ← node? handles fuel false false r
        let (items, r) ← flowItems? handles fuel false r
        some (item :: items, r)

/-- The entries of a flow mapping up to its end. -/
def flowEntries? (handles : List String) :
    (fuel : Nat) → (first : Bool) → Reading → Option (List (Node × Node) × Reading)
  | 0, _, _ => none
  | fuel + 1, first, r =>
    match r.tokens with
    | .flowMappingEnd :: rest => some ([], { r with tokens := rest })
    | tokens => do
      let r ← if first then some { r with tokens }
        else match tokens with
          | .flowEntry :: rest => some { r with tokens := rest }
          | _ => none
      match r.tokens with
      | .flowMappingEnd :: rest => some ([], { r with tokens := rest })
      | .key :: rest => do
        let r := { r with tokens := rest }
        let ends := [Token.flowEntry, .flowMappingEnd]
        let (key, r) ← if r.isAt (.value :: ends) then some (Node.absent, r) else node? handles fuel false false r
        let (value, r) ← flowValue? handles fuel ends r
        let (entries, r) ← flowEntries? handles fuel false r
        some ((key, value) :: entries, r)
      | _ => do
        let (key, r) ← node? handles fuel false false r
        let (entries, r) ← flowEntries? handles fuel false r
        some ((key, .absent) :: entries, r)

end

/-- The directives before a document: at most one version, which is 1.1 or 1.2, and tag handles, each once. -/
def directives? (version : Bool) (handles : List String) : List Token → Option (Bool × List String × List Token)
  | .version major minor :: rest =>
    if version || major ≠ 1 || !(minor = 1 || minor = 2) then none else directives? true handles rest
  | .tagHandle handle :: rest =>
    if handles.contains handle then none else directives? version (handle :: handles) rest
  | rest => some (version, handles, rest)

/-- The documents of a stream. Only the first may do without the mark of its start. -/
def documents? : (fuel : Nat) → (first : Bool) → List Token → Option (List Node)
  | 0, _, _ => none
  | fuel + 1, first, tokens => do
    let tokens := if first then tokens else tokens.dropWhile (· = .documentEnd)
    if tokens = [] then some []
    else
      let (version, handles, rest) ← directives? false [] tokens
      let explicit := rest.head? = some .documentStart
      if !explicit && (!first || version || handles ≠ []) then none
      let rest := if explicit then rest.drop 1 else rest
      let r : Reading := ⟨rest, []⟩
      let empty := explicit && match rest with
        | [] | .version .. :: _ | .tagHandle _ :: _ | .documentStart :: _ | .documentEnd :: _ => true
        | _ => false
      let (node, r) ← if empty then some (Node.absent, r) else node? handles (2 * rest.length + 2) true false r
      let rest := match r.tokens with
        | .documentEnd :: rest => rest
        | rest => rest
      let others ← documents? fuel false rest
      some (node :: others)

/-- The documents of a text; nothing if it is malformed. -/
def parse? (cs : List Char) : Option (List Node) := do
  let tokens ← tokens? cs
  documents? (tokens.length + 2) true tokens

end HexAtlas.Yaml
