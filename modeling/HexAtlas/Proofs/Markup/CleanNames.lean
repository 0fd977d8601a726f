import HexAtlas.Proofs.Markup.TagText
import HexAtlas.Proofs.Table

namespace HexAtlas

namespace Node

mutual

/-- The names of elements and of attributes. -/
def names : Node → List String
  | element name attributes children => name :: (attributes.keys ++ namesIn children)
  | text _ => []
  | raw _ => []

def namesIn : List Node → List String
  | [] => []
  | node :: rest => names node ++ namesIn rest

end

mutual

/-- The raw markup in a tree. -/
def raws : Node → List String
  | element _ _ children => rawsIn children
  | text _ => []
  | raw markup => [markup]

def rawsIn : List Node → List String
  | [] => []
  | node :: rest => raws node ++ rawsIn rest

end

theorem namesIn_eq_flatMap (nodes : List Node) : namesIn nodes = nodes.flatMap names := by
  induction nodes with
  | nil => rfl
  | cons node rest ih => rw [namesIn, ih, List.flatMap_cons]

theorem rawsIn_eq_flatMap (nodes : List Node) : rawsIn nodes = nodes.flatMap raws := by
  induction nodes with
  | nil => rfl
  | cons node rest ih => rw [rawsIn, ih, List.flatMap_cons]

/-- Every name in the tree can stand in a tag. -/
def Clean (node : Node) : Prop := ∀ name ∈ node.names, IsTagName name

instance (node : Node) : Decidable node.Clean := inferInstanceAs (Decidable (∀ name ∈ node.names, IsTagName name))

end Node

namespace Element

def Clean (e : Element) : Prop := e.toNode.Clean

instance (e : Element) : Decidable e.Clean := inferInstanceAs (Decidable e.toNode.Clean)

def raws (e : Element) : List String := e.toNode.raws

theorem clean_iff (e : Element) :
    e.Clean ↔ IsTagName e.name ∧ e.attributes.Clean ∧ ∀ child ∈ e.children, child.Clean := by
  simp only [Clean, Node.Clean, toNode, Node.names, Node.namesIn_eq_flatMap, List.forall_mem_cons,
    List.forall_mem_append, Attributes.Clean, List.forall_mem_flatMap]

@[simp] theorem clean_named {name : String} : (named name).Clean ↔ IsTagName name := by
  simp [clean_iff, named, Attributes.clean_empty]

@[simp] theorem clean_attr {e : Element} {key value : String} :
    (e.attr key value).Clean ↔ IsTagName key ∧ e.Clean := by
  simp only [clean_iff, attr, Attributes.Clean, Table.mem_keys_set, forall_eq_or_imp]
  rw [and_assoc, and_left_comm]

@[simp] theorem clean_attrs {e : Element} {pairs : Attributes} : (e.attrs pairs).Clean ↔ pairs.Clean ∧ e.Clean := by
  simp only [clean_iff, attrs, Attributes.Clean, Table.extend, Table.mem_keys_setAll, or_imp, forall_and]
  rw [and_assoc, and_left_comm]
  rfl

theorem clean_push {e : Element} {node : Node} : (e.push node).Clean ↔ e.Clean ∧ node.Clean := by
  rw [clean_iff, clean_iff, push, List.forall_mem_append, List.forall_mem_singleton, and_assoc, and_assoc]

@[simp] theorem clean_text {e : Element} {content : String} : (e.text content).Clean ↔ e.Clean := by
  rw [text, clean_push, and_iff_left_iff_imp]
  exact fun _ => List.forall_mem_nil _

@[simp] theorem clean_child {e other : Element} : (e.child other).Clean ↔ e.Clean ∧ other.Clean := clean_push

@[simp] theorem clean_extend {e : Element} {others : List Element} :
    (e.extend others).Clean ↔ e.Clean ∧ ∀ other ∈ others, other.Clean := by
  rw [clean_iff, clean_iff, extend, List.forall_mem_append, List.forall_mem_map, and_assoc, and_assoc]
  rfl

theorem raws_eq (e : Element) : e.raws = e.children.flatMap Node.raws := Node.rawsIn_eq_flatMap e.children

@[simp] theorem raws_named (name : String) : (named name).raws = [] := rfl

@[simp] theorem raws_attr (e : Element) (key value : String) : (e.attr key value).raws = e.raws := rfl

@[simp] theorem raws_attrs (e : Element) (pairs : Attributes) : (e.attrs pairs).raws = e.raws := rfl

theorem raws_push (e : Element) (node : Node) : (e.push node).raws = e.raws ++ node.raws := by
  rw [raws_eq, raws_eq, push, List.flatMap_append, List.flatMap_singleton]

@[simp] theorem raws_text (e : Element) (content : String) : (e.text content).raws = e.raws := by
  rw [text, raws_push, Node.raws, List.append_nil]

@[simp] theorem raws_child (e other : Element) : (e.child other).raws = e.raws ++ other.raws :=
  raws_push e other.toNode

@[simp] theorem raws_extend (e : Element) (others : List Element) :
    (e.extend others).raws = e.raws ++ others.flatMap raws := by
  rw [raws_eq, raws_eq, extend, List.flatMap_append, List.flatMap_map]
  rfl

end Element

end HexAtlas
