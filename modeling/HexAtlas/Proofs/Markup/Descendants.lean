import HexAtlas.Markup.Element

namespace HexAtlas

theorem Node.withTagIn_eq_flatMap (tag : String) (nodes : List Node) :
    withTagIn tag nodes = nodes.flatMap (withTag tag) := by
  induction nodes with
  | nil => rfl
  | cons node rest ih => rw [withTagIn, ih, List.flatMap_cons]

namespace Element

variable {e : Element} {tag : String}

theorem elements_of_children {es : List Element} (h : e.children = es.map toNode) : e.elements = es := by
  rw [elements, h, List.filterMap_map]
  exact List.filterMap_some

theorem descendantsNamed_eq (e : Element) (tag : String) :
    e.descendantsNamed tag = e.children.flatMap (Node.withTag tag) :=
  Node.withTagIn_eq_flatMap tag e.children

theorem descendantsNamed_of_children {es : List Element} (h : e.children = es.map toNode) :
    e.descendantsNamed tag = es.flatMap fun inner => inner.toNode.withTag tag := by
  rw [descendantsNamed_eq, h, List.flatMap_map]

/-- An element of the tag comes before those inside it. -/
theorem withTag_of_name (h : e.name = tag) : e.toNode.withTag tag = e :: e.descendantsNamed tag := if_pos h

theorem withTag_of_ne (other : e.name ≠ tag) : e.toNode.withTag tag = e.descendantsNamed tag := if_neg other

theorem withTag_leaf (leaf : e.children = []) (other : e.name ≠ tag) : e.toNode.withTag tag = [] := by
  rw [withTag_of_ne other, descendantsNamed_eq, leaf, List.flatMap_nil]

/-- There is no element among texts. -/
theorem descendantsNamed_of_texts {texts : List String} (h : e.children = texts.map .text) :
    e.descendantsNamed tag = [] := by
  rw [descendantsNamed_eq, h, List.flatMap_map, List.flatMap_eq_nil_iff]
  exact fun _ _ => rfl

end Element

end HexAtlas
