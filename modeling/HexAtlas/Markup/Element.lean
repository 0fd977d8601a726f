import HexAtlas.Attributes
import HexAtlas.Markup.Reference

namespace HexAtlas

def escapeChar : Char → List Char
  | '&' => "&amp;".toList
  | '<' => "&lt;".toList
  | '>' => "&gt;".toList
  | '"' => "&quot;".toList
  | c => [c]

/-- Text as it stands between tags and in attribute values. -/
def escape (cs : List Char) : List Char := cs.flatMap escapeChar

inductive Node where
  | element (name : String) (attributes : Attributes) (children : List Node)
  | text (content : String)
  | raw (markup : String)
deriving Repr, Inhabited

/-- An element keeps the order of its attributes and children. Texts and attribute values are escaped when they are
written, raw markup is not. -/
structure Element where
  name : String
  attributes : Attributes
  children : List Node
deriving Repr, Inhabited

namespace Element

def named (name : String) : Element := ⟨name, .empty, []⟩

def toNode (e : Element) : Node := .element e.name e.attributes e.children

def attr (e : Element) (key value : String) : Element := { e with attributes := e.attributes.set key value }

def attrs (e : Element) (pairs : Attributes) : Element := { e with attributes := e.attributes.extend pairs }

def push (e : Element) (node : Node) : Element := { e with children := e.children ++ [node] }

def text (e : Element) (content : String) : Element := e.push (.text content)

def raw (e : Element) (markup : String) : Element := e.push (.raw markup)

def child (e other : Element) : Element := e.push other.toNode

def extend (e : Element) (others : List Element) : Element :=
  { e with children := e.children ++ others.map toNode }

def id? (e : Element) : Option String := e.attributes.get? "id"

end Element

namespace Node

def element? : Node → Option Element
  | element name attributes children => some ⟨name, attributes, children⟩
  | _ => none

def text? : Node → Option String
  | text content => some content
  | _ => none

mutual

/-- The first element of a name in document order. -/
def findById? (id : String) : Node → Option Element
  | element name attributes children =>
    if attributes.get? "id" = some id then some ⟨name, attributes, children⟩ else findByIdIn? id children
  | _ => none

def findByIdIn? (id : String) : List Node → Option Element
  | [] => none
  | node :: rest => findById? id node <|> findByIdIn? id rest

end

mutual

/-- An element with its descendants, those of one tag, in document order. -/
def withTag (tag : String) : Node → List Element
  | element name attributes children =>
    let inner := withTagIn tag children
    if name = tag then ⟨name, attributes, children⟩ :: inner else inner
  | _ => []

def withTagIn (tag : String) : List Node → List Element
  | [] => []
  | node :: rest => withTag tag node ++ withTagIn tag rest

end

/-- The names that raw markup declares. -/
def rawIds (markup : String) : List String :=
  ((references markup.toList).filter (·.kind = .id)).map fun r => String.ofList r.name

mutual

/-- All declared names in document order. -/
def declaredIds : Node → List String
  | element _ attributes children => (attributes.get? "id").toList ++ declaredIdsIn children
  | raw markup => rawIds markup
  | text _ => []

def declaredIdsIn : List Node → List String
  | [] => []
  | node :: rest => declaredIds node ++ declaredIdsIn rest

end

def indent (depth : Nat) : List Char := List.replicate (2 * depth) ' '

/-- The inside of a tag: the element's name and its attributes. -/
def tagText (name : String) (attributes : Attributes) : List Char :=
  name.toList ++ attributes.entries.flatMap fun (key, value) =>
    ' ' :: key.toList ++ "=\"".toList ++ escape value.toList ++ ['"']

def endTag (name : String) : List Char := "</".toList ++ name.toList ++ ">\n".toList

mutual

/-- A node as lines of markup. An element without children closes itself, one with texts only stands on one line,
and any other has its children between the lines of its tags. -/
def write (depth : Nat) : Node → List Char
  | element name attributes children =>
    let start := indent depth ++ '<' :: tagText name attributes
    if children.isEmpty then start ++ "/>\n".toList
    else if children.all fun node => node.text?.isSome then
      start ++ '>' :: (escape ((children.filterMap text?).flatMap String.toList) ++ endTag name)
    else start ++ ">\n".toList ++ writeAll (depth + 1) children ++ indent depth ++ endTag name
  | text content => indent depth ++ escape content.toList ++ ['\n']
  | raw markup => markup.toList ++ ['\n']

def writeAll (depth : Nat) : List Node → List Char
  | [] => []
  | node :: rest => write depth node ++ writeAll depth rest

end

end Node

namespace Element

def elements (e : Element) : List Element := e.children.filterMap Node.element?

/-- The texts among the direct children, joined. -/
def textContent (e : Element) : String := String.join (e.children.filterMap Node.text?)

def findById? (e : Element) (id : String) : Option Element := e.toNode.findById? id

def descendantsNamed (e : Element) (tag : String) : List Element := Node.withTagIn tag e.children

def declaredIds (e : Element) : List String := e.toNode.declaredIds

def svg (e : Element) : String := String.ofList (e.toNode.write 0)

end Element

end HexAtlas
