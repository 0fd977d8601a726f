import HexAtlas.Markup.Element
import HexAtlas.Proofs.Table

namespace HexAtlas

theorem Node.declaredIdsIn_eq_flatMap (nodes : List Node) : declaredIdsIn nodes = nodes.flatMap declaredIds := by
  induction nodes with
  | nil => rfl
  | cons node rest ih => rw [declaredIdsIn, ih, List.flatMap_cons]

namespace Element

theorem declaredIds_eq (e : Element) : e.declaredIds = e.id?.toList ++ e.children.flatMap Node.declaredIds := by
  rw [declaredIds, toNode, Node.declaredIds, Node.declaredIdsIn_eq_flatMap, id?]

@[simp] theorem id?_named (name : String) : (named name).id? = none := rfl

@[simp] theorem id?_attr (e : Element) (key value : String) :
    (e.attr key value).id? = if "id" = key then some value else e.id? :=
  Table.get?_set e.attributes key value "id"

theorem id?_attrs {pairs : Attributes} (distinct : pairs.Distinct) (e : Element) :
    (e.attrs pairs).id? = (pairs.get? "id").or e.id? :=
  Table.get?_extend distinct e.attributes "id"

@[simp] theorem children_attr (e : Element) (key value : String) : (e.attr key value).children = e.children := rfl

theorem declaredIds_of_children_nil {e : Element} (h : e.children = []) : e.declaredIds = e.id?.toList := by
  rw [declaredIds_eq, h, List.flatMap_nil, List.append_nil]

@[simp] theorem declaredIds_named (name : String) : (named name).declaredIds = [] := rfl

@[simp] theorem declaredIds_named_id (name id : String) : ((named name).attr "id" id).declaredIds = [id] := rfl

/-- Other attributes declare nothing. -/
@[simp] theorem declaredIds_attr {key : String} (other : "id" ≠ key) (e : Element) (value : String) :
    (e.attr key value).declaredIds = e.declaredIds := by
  rw [declaredIds_eq, declaredIds_eq e, id?_attr, if_neg other, children_attr]

theorem declaredIds_named_attrs {pairs : Attributes} (distinct : pairs.Distinct) (name : String) :
    ((named name).attrs pairs).declaredIds = (pairs.get? "id").toList := by
  rw [declaredIds_of_children_nil rfl, id?_attrs distinct, id?_named, Option.or_none]

theorem declaredIds_push (e : Element) (node : Node) :
    (e.push node).declaredIds = e.declaredIds ++ node.declaredIds := by
  have children : (e.push node).children = e.children ++ [node] := rfl
  rw [declaredIds_eq, declaredIds_eq e, children, List.flatMap_append, List.flatMap_singleton, List.append_assoc]
  rfl

@[simp] theorem declaredIds_text (e : Element) (content : String) :
    (e.text content).declaredIds = e.declaredIds := by
  rw [text, declaredIds_push, Node.declaredIds, List.append_nil]

@[simp] theorem declaredIds_child (e other : Element) :
    (e.child other).declaredIds = e.declaredIds ++ other.declaredIds :=
  declaredIds_push e other.toNode

/-- What is put into an element adds its own names at the end. -/
theorem declaredIds_extend (e : Element) (others : List Element) :
    (e.extend others).declaredIds = e.declaredIds ++ others.flatMap declaredIds := by
  have children : (e.extend others).children = e.children ++ others.map toNode := rfl
  rw [declaredIds_eq, declaredIds_eq e, children, List.flatMap_append, List.flatMap_map, List.append_assoc]
  rfl

end Element

end HexAtlas
