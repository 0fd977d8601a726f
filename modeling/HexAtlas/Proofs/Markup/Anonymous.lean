import HexAtlas.Markup.Element

namespace HexAtlas

namespace Attributes

/-- The attributes whose values are names. -/
def isNaming (key : String) : Bool := key = "id" || key = "href"

def blankName (key value : String) : String := if isNaming key then "" else value

@[simp] theorem blankName_id (value : String) : blankName "id" value = "" := rfl

@[simp] theorem blankName_href (value : String) : blankName "href" value = "" := rfl

def blankEntry (entry : String × String) : String × String := (entry.1, blankName entry.1 entry.2)

def anonymous (a : Attributes) : Attributes := ⟨a.entries.map blankEntry⟩

theorem map_blankEntry_setIn (key value : String) (entries : List (String × String)) :
    (Table.setIn key value entries).map blankEntry =
      Table.setIn key (blankName key value) (entries.map blankEntry) := by
  induction entries with
  | nil => rfl
  | cons entry rest ih =>
    obtain ⟨k, v⟩ := entry
    by_cases same : k = key
    · subst same
      simp [Table.setIn, blankEntry]
    · simp [Table.setIn, blankEntry, same, ih]

theorem anonymous_set (a : Attributes) (key value : String) :
    anonymous (a.set key value) = (anonymous a).set key (blankName key value) :=
  congrArg Table.mk (map_blankEntry_setIn key value a.entries)

theorem anonymous_extend (a b : Attributes) : anonymous (a.extend b) = (anonymous a).extend (anonymous b) := by
  obtain ⟨entries⟩ := b
  induction entries generalizing a with
  | nil => rfl
  | cons entry rest ih =>
    have later : anonymous ((a.set entry.1 entry.2).extend ⟨rest⟩) =
        (anonymous (a.set entry.1 entry.2)).extend (anonymous ⟨rest⟩) := ih _
    rw [anonymous_set] at later
    exact later

end Attributes

namespace Node

mutual

def anonymous : Node → Node
  | element name attributes children => element name attributes.anonymous (anonymousIn children)
  | text content => text content
  | raw _ => raw ""

def anonymousIn : List Node → List Node
  | [] => []
  | node :: rest => anonymous node :: anonymousIn rest

end

theorem anonymousIn_eq_map (nodes : List Node) : anonymousIn nodes = nodes.map anonymous := by
  induction nodes with
  | nil => rfl
  | cons node rest ih => rw [anonymousIn, ih, List.map_cons]

end Node

namespace Element

def anonymous (e : Element) : Element := ⟨e.name, e.attributes.anonymous, e.children.map Node.anonymous⟩

theorem anonymous_toNode (e : Element) : e.toNode.anonymous = e.anonymous.toNode := by
  rw [toNode, Node.anonymous, Node.anonymousIn_eq_map]
  rfl

@[simp] theorem anonymous_named (name : String) : (named name).anonymous = named name := rfl

@[simp] theorem anonymous_attr (e : Element) (key value : String) :
    (e.attr key value).anonymous = e.anonymous.attr key (Attributes.blankName key value) := by
  simp only [anonymous, attr, Attributes.anonymous_set]

@[simp] theorem anonymous_attrs (e : Element) (pairs : Attributes) :
    (e.attrs pairs).anonymous = e.anonymous.attrs pairs.anonymous := by
  simp only [anonymous, attrs, Attributes.anonymous_extend]

@[simp] theorem anonymous_push (e : Element) (node : Node) :
    (e.push node).anonymous = e.anonymous.push node.anonymous := by
  simp only [anonymous, push, List.map_append, List.map_cons, List.map_nil]

@[simp] theorem anonymous_text (e : Element) (content : String) :
    (e.text content).anonymous = e.anonymous.text content := by
  rw [text, anonymous_push, Node.anonymous, text]

@[simp] theorem anonymous_child (e other : Element) :
    (e.child other).anonymous = e.anonymous.child other.anonymous := by
  rw [child, anonymous_push, anonymous_toNode, child]

@[simp] theorem anonymous_extend (e : Element) (others : List Element) :
    (e.extend others).anonymous = e.anonymous.extend (others.map anonymous) := by
  simp only [anonymous, extend, List.map_append, List.map_map, Function.comp_def, anonymous_toNode]

end Element

end HexAtlas
