import HexAtlas.Proofs.Markup.DeclaredIds
import HexAtlas.Proofs.Markup.Descendants
import Mathlib.Data.List.Basic

namespace HexAtlas

namespace Node

/-- The node that a path leads to. Each step of a path is the position of a child. -/
def at? : List Nat → Node → Option Node
  | [], node => some node
  | i :: path, element _ _ children => children[i]?.bind (at? path)
  | _ :: _, _ => none

mutual

/-- The nodes of a tree with their places. -/
def places : Node → List (List Nat × Node)
  | element name attributes children => ([], element name attributes children) :: placesIn 0 children
  | text content => [([], text content)]
  | raw markup => [([], raw markup)]

/-- The same for siblings, the first of which has the position `first`. -/
def placesIn (first : Nat) : List Node → List (List Nat × Node)
  | [] => []
  | node :: rest => (places node).map (fun place => (first :: place.1, place.2)) ++ placesIn (first + 1) rest

end

/-- A fact on trees follows from the same fact on the children of each element. -/
theorem induct {motive : Node → Prop}
    (element : ∀ name attributes children, (∀ child ∈ children, motive child) →
      motive (.element name attributes children))
    (text : ∀ content, motive (.text content)) (raw : ∀ markup, motive (.raw markup)) : (node : Node) → motive node
  | .element name attributes children =>
    element name attributes children fun child _ => induct element text raw child
  | .text content => text content
  | .raw markup => raw markup

theorem mem_placesIn {first : Nat} {nodes : List Node} {path : List Nat} {found : Node} :
    (path, found) ∈ placesIn first nodes ↔
      ∃ i more node, path = (first + i) :: more ∧ nodes[i]? = some node ∧ (more, found) ∈ places node := by
  induction nodes generalizing first with
  | nil => simp [placesIn]
  | cons node rest ih =>
    rw [placesIn, List.mem_append, List.mem_map, ih]
    constructor
    · rintro (⟨⟨more, inner⟩, member, same⟩ | ⟨i, more, child, rfl, position, member⟩)
      · cases same
        exact ⟨0, more, node, rfl, rfl, member⟩
      · exact ⟨i + 1, more, child, by rw [Nat.add_right_comm, Nat.add_assoc], position, member⟩
    · rintro ⟨i, more, child, rfl, position, member⟩
      cases i with
      | zero =>
        cases position
        exact Or.inl ⟨(more, found), member, rfl⟩
      | succ i => exact Or.inr ⟨i, more, child, by rw [Nat.add_right_comm, Nat.add_assoc], position, member⟩

/-- Each node is listed with the path that leads to it, and nothing else is. -/
theorem mem_places {node found : Node} {path : List Nat} :
    (path, found) ∈ places node ↔ node.at? path = some found := by
  induction node using induct generalizing path found with
  | element name attributes children ih =>
    rw [places, List.mem_cons]
    cases path with
    | nil => simp [mem_placesIn, at?, eq_comm]
    | cons i more =>
      rw [at?, Option.bind_eq_some_iff, mem_placesIn]
      constructor
      · rintro (same | ⟨j, more, child, same, position, member⟩)
        · cases same
        · rw [Nat.zero_add] at same
          cases same
          exact ⟨child, position, (ih child (List.mem_of_getElem? position)).mp member⟩
      · rintro ⟨child, position, leads⟩
        exact Or.inr ⟨i, more, child, by rw [Nat.zero_add], position,
          (ih child (List.mem_of_getElem? position)).mpr leads⟩
  | text content => cases path <;> simp [places, at?, eq_comm]
  | raw markup => cases path <;> simp [places, at?, eq_comm]

theorem ascending_placesIn {nodes : List Node}
    (each : ∀ node ∈ nodes, (places node).Pairwise fun a b => a.1 < b.1) (first : Nat) :
    (placesIn first nodes).Pairwise fun a b => a.1 < b.1 := by
  induction nodes generalizing first with
  | nil => exact .nil
  | cons node rest ih =>
    obtain ⟨here, later⟩ := List.forall_mem_cons.mp each
    rw [placesIn]
    refine List.pairwise_append.mpr ⟨List.pairwise_map.mpr (here.imp fun below => ?_), ih later _, ?_⟩
    · exact List.cons_lt_cons_iff.mpr (Or.inr ⟨rfl, below⟩)
    · rintro a own ⟨path, found⟩ behind
      obtain ⟨place, -, rfl⟩ := List.mem_map.mp own
      obtain ⟨i, more, child, rfl, -, -⟩ := mem_placesIn.mp behind
      exact List.cons_lt_cons_iff.mpr (Or.inl (by omega))

theorem ascending_places (node : Node) : (places node).Pairwise fun a b => a.1 < b.1 := by
  induction node using induct with
  | element name attributes children ih =>
    rw [places]
    refine List.pairwise_cons.mpr ⟨?_, ascending_placesIn ih 0⟩
    rintro ⟨path, found⟩ member
    obtain ⟨i, more, child, rfl, -, -⟩ := mem_placesIn.mp member
    exact List.nil_lt_cons _ _
  | text content => exact List.pairwise_singleton _ _
  | raw markup => exact List.pairwise_singleton _ _

def inOrder (node : Node) : List Node := node.places.map Prod.snd

theorem map_snd_placesIn (first : Nat) (nodes : List Node) :
    (placesIn first nodes).map Prod.snd = nodes.flatMap inOrder := by
  induction nodes generalizing first with
  | nil => rfl
  | cons node rest ih =>
    rw [placesIn, List.map_append, ih, List.map_map, List.flatMap_cons]
    rfl

/-- An element comes before what is in it. -/
theorem inOrder_element (name : String) (attributes : Attributes) (children : List Node) :
    (element name attributes children).inOrder = element name attributes children :: children.flatMap inOrder := by
  rw [inOrder, places, List.map_cons, map_snd_placesIn]

/-- The elements of a tree in document order. -/
def elementsInOrder (node : Node) : List Element := node.inOrder.filterMap element?

theorem elementsInOrder_element (name : String) (attributes : Attributes) (children : List Node) :
    (element name attributes children).elementsInOrder =
      ⟨name, attributes, children⟩ :: children.flatMap elementsInOrder := by
  rw [elementsInOrder, inOrder_element, List.filterMap_cons, List.filterMap_flatMap]
  rfl

theorem findByIdIn?_eq {id : String} {nodes : List Node}
    (each : ∀ node ∈ nodes, findById? id node = node.elementsInOrder.find? fun e => e.id? = some id) :
    findByIdIn? id nodes = (nodes.flatMap elementsInOrder).find? fun e => e.id? = some id := by
  induction nodes with
  | nil => rfl
  | cons node rest ih =>
    obtain ⟨here, later⟩ := List.forall_mem_cons.mp each
    rw [findByIdIn?, here, ih later, List.flatMap_cons, List.find?_append, Option.orElse_eq_orElse,
      Option.orElse_eq_or]

/-- The search stops at the first element of the name. -/
theorem findById?_eq (id : String) (node : Node) :
    findById? id node = node.elementsInOrder.find? fun e => e.id? = some id := by
  induction node using induct with
  | element name attributes children ih =>
    rw [findById?, elementsInOrder_element, List.find?_cons, findByIdIn?_eq ih]
    by_cases own : attributes.get? "id" = some id
    · simp [own, Element.id?]
    · simp [own, Element.id?]
  | text content => rfl
  | raw markup => rfl

theorem withTag_eq (tag : String) (node : Node) :
    withTag tag node = node.elementsInOrder.filter fun e => e.name = tag := by
  induction node using induct with
  | element name attributes children ih =>
    have inner : withTagIn tag children = (children.flatMap elementsInOrder).filter fun e => e.name = tag := by
      rw [withTagIn_eq_flatMap, List.filter_flatMap]
      exact List.flatMap_congr ih
    rw [withTag, elementsInOrder_element, List.filter_cons, inner]
    by_cases own : name = tag
    · simp [own]
    · simp [own]
  | text content => rfl
  | raw markup => rfl

/-- The names that a node declares itself, leaving out what is in it. Raw markup declares those that stand in it as
the value of an `id`. -/
def ownIds : Node → List String
  | element _ attributes _ => (attributes.get? "id").toList
  | raw markup => ((references markup.toList).filter fun r => r.kind = .id).map fun r => String.ofList r.name
  | text _ => []

theorem rawIds_eq_ownIds (markup : String) : rawIds markup = ownIds (raw markup) := rfl

theorem declaredIds_eq_flatMap (node : Node) : node.declaredIds = node.inOrder.flatMap ownIds := by
  induction node using induct with
  | element name attributes children ih =>
    rw [declaredIds, declaredIdsIn_eq_flatMap, inOrder_element, List.flatMap_cons, List.flatMap_assoc]
    exact congrArg (_ ++ ·) (List.flatMap_congr ih)
  | text content => rfl
  | raw markup =>
    rw [declaredIds, rawIds_eq_ownIds]
    exact (List.append_nil _).symm

/-- Nodes with their places, in document order: those of a tree, each at its place, and the places ascend. -/
structure IsDocumentOrder (root : Node) (listed : List (List Nat × Node)) : Prop where
  complete : ∀ path node, (path, node) ∈ listed ↔ root.at? path = some node
  ascending : listed.Pairwise fun a b => a.1 < b.1

theorem isDocumentOrder_places (root : Node) : root.IsDocumentOrder root.places :=
  ⟨fun _ _ => mem_places, ascending_places root⟩

theorem mem_inOrder {root node : Node} : node ∈ root.inOrder ↔ ∃ path, root.at? path = some node := by
  rw [inOrder, List.mem_map]
  constructor
  · rintro ⟨⟨path, found⟩, member, rfl⟩
    exact ⟨path, mem_places.mp member⟩
  · rintro ⟨path, leads⟩
    exact ⟨(path, node), mem_places.mpr leads, rfl⟩

theorem element?_eq_some_iff {node : Node} {e : Element} : node.element? = some e ↔ node = e.toNode := by
  cases node with
  | element name attributes children =>
    constructor
    · rintro ⟨rfl⟩
      rfl
    · intro same
      cases e
      cases same
      rfl
  | text content => simp [element?, Element.toNode]
  | raw markup => simp [element?, Element.toNode]

theorem mem_elementsInOrder {root : Node} {e : Element} :
    e ∈ root.elementsInOrder ↔ ∃ path, root.at? path = some e.toNode := by
  rw [elementsInOrder, List.mem_filterMap, ← mem_inOrder]
  constructor
  · rintro ⟨node, member, same⟩
    exact element?_eq_some_iff.mp same ▸ member
  · exact fun member => ⟨e.toNode, member, element?_eq_some_iff.mpr rfl⟩

theorem filterMap_places (node : Node) :
    node.places.filterMap (fun place => place.2.element?) = node.elementsInOrder := by
  rw [elementsInOrder, inOrder, List.filterMap_map]
  rfl

end Node

namespace Element

theorem findById?_eq_none_iff {e : Element} {id : String} :
    e.findById? id = none ↔ ∀ path (inner : Element), e.toNode.at? path = some inner.toNode →
      inner.id? ≠ some id := by
  rw [findById?, Node.findById?_eq, List.find?_eq_none]
  constructor
  · intro none path inner leads
    simpa using none inner (Node.mem_elementsInOrder.mpr ⟨path, leads⟩)
  · intro none inner member
    obtain ⟨path, leads⟩ := Node.mem_elementsInOrder.mp member
    simpa using none path inner leads

/-- The path to an element inside another one has a step. -/
theorem filter_places (e : Element) :
    (e.toNode.places.filter fun place => place.1 ≠ []) = Node.placesIn 0 e.children := by
  rw [toNode, Node.places, List.filter_cons_of_neg (by simp), List.filter_eq_self]
  rintro ⟨path, found⟩ member
  obtain ⟨i, more, child, rfl, -, -⟩ := Node.mem_placesIn.mp member
  simp

theorem descendantsNamed_eq_filter (e : Element) (tag : String) :
    e.descendantsNamed tag =
      ((e.toNode.places.filter (fun place => place.1 ≠ [])).filterMap (fun place => place.2.element?)).filter
        fun inner => inner.name = tag := by
  have inside : (Node.placesIn 0 e.children).filterMap (fun place => place.2.element?) =
      e.children.flatMap Node.elementsInOrder := by
    have nodes := congrArg (List.filterMap Node.element?) (Node.map_snd_placesIn 0 e.children)
    rw [List.filterMap_map, List.filterMap_flatMap] at nodes
    exact nodes
  rw [filter_places, inside, descendantsNamed_eq, List.filter_flatMap]
  exact List.flatMap_congr fun child _ => Node.withTag_eq tag child

theorem isSome_findById?_iff {e : Element} (rawless : ∀ path markup, e.toNode.at? path ≠ some (.raw markup))
    (id : String) : (e.findById? id).isSome ↔ id ∈ e.declaredIds := by
  rw [findById?, Node.findById?_eq, List.find?_isSome, declaredIds, Node.declaredIds_eq_flatMap, List.mem_flatMap]
  constructor
  · rintro ⟨inner, member, own⟩
    obtain ⟨path, leads⟩ := Node.mem_elementsInOrder.mp member
    have own : inner.attributes.get? "id" = some id := of_decide_eq_true own
    exact ⟨inner.toNode, Node.mem_inOrder.mpr ⟨path, leads⟩, Option.mem_toList.mpr own⟩
  · rintro ⟨node, member, own⟩
    obtain ⟨path, leads⟩ := Node.mem_inOrder.mp member
    cases node with
    | element name attributes children =>
      have own : attributes.get? "id" = some id := Option.mem_toList.mp own
      exact ⟨⟨name, attributes, children⟩, Node.mem_elementsInOrder.mpr ⟨path, leads⟩, decide_eq_true own⟩
    | text content => cases own
    | raw markup => exact absurd leads (rawless path markup)

/-- What the queries on an element answer, by the nodes of its tree in document order. -/
structure Queried (e : Element) (listed : List (List Nat × Node)) : Prop where
  order : e.toNode.IsDocumentOrder listed
  /-- The first element of a name is found, which may be the root. -/
  findById : ∀ id, e.findById? id =
    (listed.filterMap fun place => place.2.element?).find? fun inner => inner.id? = some id
  missing : ∀ id, e.findById? id = none ↔
    ∀ path (inner : Element), e.toNode.at? path = some inner.toNode → inner.id? ≠ some id
  /-- The root is no descendant of itself. -/
  descendantsNamed : ∀ tag, e.descendantsNamed tag =
    ((listed.filter fun place => place.1 ≠ []).filterMap fun place => place.2.element?).filter
      fun inner => inner.name = tag
  declaredIds : e.declaredIds = listed.flatMap fun place => place.2.ownIds
  /-- Without raw markup, the declared names are those that are found. -/
  found : (∀ path markup, e.toNode.at? path ≠ some (.raw markup)) →
    ∀ id, (e.findById? id).isSome ↔ id ∈ e.declaredIds

/-- All queries on an element go by one order of the nodes in its tree. -/
theorem exists_queried (e : Element) : ∃ listed, e.Queried listed := by
  refine ⟨e.toNode.places, ?_⟩
  exact {
    order := e.toNode.isDocumentOrder_places
    findById := fun id => by rw [Node.filterMap_places, findById?, Node.findById?_eq]
    missing := fun _ => findById?_eq_none_iff
    descendantsNamed := e.descendantsNamed_eq_filter
    declaredIds := by
      rw [declaredIds, Node.declaredIds_eq_flatMap, Node.inOrder, List.flatMap_map]
    found := isSome_findById?_iff }

/-- In a tree without raw markup, a name that two elements have is declared, so one of them is found. In a tree with
raw markup, what that declares comes in its place, and is not found. -/
theorem exists_queried_twins :
    let inner := (named "path").attr "id" "twin"
    let tree := (((named "svg").text "Fish").child (((named "g").attr "id" "outer").child inner)).child inner
    let marked :=
      (tree.raw "<use href='#eye'/><g id='fin'><path id='tail'/></g>").child ((named "g").attr "id" "last")
    ((∀ path markup, tree.toNode.at? path ≠ some (.raw markup)) ∧ (tree.findById? "twin").isSome) ∧
      ∃ listed, marked.Queried listed ∧
        (listed.flatMap fun place => place.2.ownIds) = ["outer", "twin", "twin", "fin", "tail", "last"] ∧
        marked.findById? "fin" = none := by
  intro inner tree marked
  have rawless : ∀ path markup, tree.toNode.at? path ≠ some (.raw markup) := by
    intro path markup leads
    have member := Node.mem_inOrder.mpr ⟨path, leads⟩
    simp [tree, inner, Node.inOrder, Node.places, Node.placesIn, toNode, child, text, push, named, attr] at member
  obtain ⟨listed, queried⟩ := exists_queried tree
  refine ⟨⟨rawless, (queried.found rawless "twin").mpr (by decide)⟩, ?_⟩
  obtain ⟨listed, queried⟩ := exists_queried marked
  refine ⟨listed, queried, ?_, by decide +kernel⟩
  rw [← queried.declaredIds]
  decide +kernel

end Element

end HexAtlas
