import HexAtlas.Proofs.Markup.TagText

namespace HexAtlas

/-- A name that ends before the end of an empty element's tag. -/
structure IsSolidName (name : String) : Prop extends IsTagName name where
  solid : '/' ∉ name.toList

instance (name : String) : Decidable (IsSolidName name) :=
  decidable_of_iff (IsTagName name ∧ '/' ∉ name.toList)
    ⟨fun ⟨named, solid⟩ => ⟨named, solid⟩, fun h => ⟨h.toIsTagName, h.solid⟩⟩

theorem IsSolidName.exists_cons {name : String} (h : IsSolidName name) :
    ∃ c rest, name.toList = c :: rest ∧ c ≠ '/' := by
  cases whole : name.toList with
  | nil => exact absurd (String.toList_eq_nil_iff.mp whole) h.nonempty
  | cons c rest =>
    refine ⟨c, rest, rfl, ?_⟩
    rintro rfl
    exact h.solid (whole ▸ List.mem_cons_self)

theorem IsSolidName.ends_before {name : String} (h : IsSolidName name) :
    ∀ c ∈ name.toList, (isNameChar c && c != '/') = true := by
  intro c member
  rw [h.plain c member, Bool.true_and, bne_iff_ne]
  rintro rfl
  exact h.solid member

/-- Behind the name of a tag stands a pair or the end of the tag. -/
theorem head?_pairsText_append {ps : List (String × List Char)} {r : List Char} (ends : EndsTag r) {c : Char}
    (atHead : (pairsText ps ++ r).head? = some c) : (isNameChar c && c != '/') = false := by
  cases ps with
  | nil =>
    rcases ends with slash | bracket
    · rw [show (pairsText [] ++ r).head? = some '/' from slash] at atHead
      cases atHead
      rfl
    · rw [show (pairsText [] ++ r).head? = some '>' from bracket] at atHead
      cases atHead
      rfl
  | cons pair rest =>
    rw [pairsText_cons] at atHead
    cases atHead
    rfl

theorem tagText_append_inj {name name' : String} {as bs : Attributes} (named : IsSolidName name)
    (named' : IsSolidName name') (keys : as.Clean) (keys' : bs.Clean) {r s : List Char} (leftEnd : EndsTag r)
    (rightEnd : EndsTag s) (same : Node.tagText name as ++ r = Node.tagText name' bs ++ s) :
    name = name' ∧ as = bs ∧ r = s := by
  rw [tagText_eq, tagText_eq, List.append_assoc, List.append_assoc] at same
  obtain ⟨names, afterName⟩ := append_run_inj named.ends_before named'.ends_before
    (fun _ => head?_pairsText_append leftEnd) (fun _ => head?_pairsText_append rightEnd) same
  obtain ⟨pairs, ends⟩ := pairsText_append_inj (isTagPair_written_iff.mpr keys) (isTagPair_written_iff.mpr keys')
    leftEnd rightEnd afterName
  exact ⟨String.ext names, writtenPairs_inj pairs, ends⟩

namespace Node

theorem indent_append_inj {d e : Nat} {r s : List Char} (same : indent d ++ '<' :: r = indent e ++ '<' :: s) :
    d = e ∧ r = s := by
  obtain ⟨blanks, rest⟩ := append_mark_inj (bracket_not_mem_indent d) (bracket_not_mem_indent e) same
  have lengths := congrArg List.length blanks
  simp only [indent, List.length_replicate] at lengths
  exact ⟨by omega, rest⟩

/-- Trees whose elements hold either elements or one text. Only the names of elements stand next to the end of a
tag: keys may have slashes, and they may even stand in a list twice. -/
inductive Regular : Node → Prop where
  | block {name : String} {attributes : Attributes} {children : List Node} (named : IsSolidName name)
      (keys : attributes.Clean) (elements : ∀ child ∈ children, Regular child) :
      Regular (.element name attributes children)
  | line {name : String} {attributes : Attributes} {content : String} (named : IsSolidName name)
      (keys : attributes.Clean) :
      Regular (.element name attributes [.text content])

theorem endsTag_inside (depth : Nat) (name : String) (children : List Node) (r : List Char) :
    EndsTag (inside depth name children ++ r) := by
  unfold inside
  split
  · exact Or.inl rfl
  · split <;> exact Or.inr rfl

theorem inside_line (depth : Nat) (name content : String) :
    inside depth name [.text content] = '>' :: (escape content.toList ++ endTag name) := by
  simp [inside, text?]

/-- Elements stand on their own lines, one level deeper. -/
theorem inside_block {depth : Nat} {name : String} {child : Node} {rest : List Node} (regular : child.Regular) :
    inside depth name (child :: rest) =
      '>' :: '\n' :: (writeAll (depth + 1) (child :: rest) ++ (indent depth ++ endTag name)) := by
  cases regular <;> simp [inside, text?]

/-- A node begins with the indentation and a tag that is not a closing one. -/
theorem Regular.exists_write_eq {node : Node} (h : node.Regular) (depth : Nat) :
    ∃ c rest, write depth node = indent depth ++ '<' :: c :: rest ∧ c ≠ '/' := by
  have starts {name : String} (named : IsSolidName name) (attributes : Attributes) (children : List Node) :
      ∃ c rest, write depth (.element name attributes children) = indent depth ++ '<' :: c :: rest ∧ c ≠ '/' := by
    obtain ⟨c, rest, whole, noSlash⟩ := named.exists_cons
    exact ⟨c, _, by rw [write_element, tagText, whole]; rfl, noSlash⟩
  cases h with
  | block named => exact starts named _ _
  | line named => exact starts named _ _

/-- A block and a line of text differ in what follows their first opening bracket. -/
theorem inside_block_ne_line {depth : Nat} {name content : String} {children : List Node}
    (elements : ∀ child ∈ children, child.Regular) (r s : List Char) :
    inside depth name children ++ r ≠ inside depth name [.text content] ++ s := by
  intro same
  rw [inside_line] at same
  cases children with
  | nil => cases same
  | cons child rest =>
    have regular := elements child List.mem_cons_self
    obtain ⟨c, more, first, noSlash⟩ := regular.exists_write_eq (depth + 1)
    rw [inside_block regular, writeAll, first, endTag_eq] at same
    simp only [List.cons_append, List.append_assoc] at same
    have texts : ('\n' :: indent (depth + 1)) ++ '<' :: _ = escape content.toList ++ '<' :: _ :=
      (List.cons.inj same).2
    obtain ⟨_, tags⟩ := append_mark_inj (by simp [indent]) (not_mem_escape (by simp) _) texts
    exact noSlash (List.cons.inj tags).1

theorem inside_line_append_inj {depth : Nat} {name content content' : String} {r s : List Char}
    (same : inside depth name [.text content] ++ r = inside depth name [.text content'] ++ s) :
    content = content' ∧ r = s := by
  simp only [inside_line, endTag_eq, List.cons_append, List.append_assoc] at same
  obtain ⟨texts, ends⟩ :=
    append_mark_inj (not_mem_escape (by simp) _) (not_mem_escape (by simp) _) (List.cons.inj same).2
  exact ⟨String.ext (escape_inj texts), by simpa using ends⟩

/-- The node can be told from the text that begins with it, whatever follows. -/
def KnownFrom (depth : Nat) (n : Node) : Prop :=
  ∀ m r s, m.Regular → write depth n ++ r = write depth m ++ s → n = m ∧ r = s

/-- Nodes in a row are known from the whole, where what follows them is a tag one level up. -/
theorem writeAll_append_inj {depth : Nat} {ns ms : List Node} (known : ∀ n ∈ ns, n.KnownFrom (depth + 1))
    (left : ∀ n ∈ ns, n.Regular) (right : ∀ m ∈ ms, m.Regular) {r s : List Char}
    (same : writeAll (depth + 1) ns ++ (indent depth ++ '<' :: r) =
      writeAll (depth + 1) ms ++ (indent depth ++ '<' :: s)) : ns = ms ∧ r = s := by
  -- A node of the row is indented more than the tag that ends the row.
  have deeper {node : Node} (regular : node.Regular) (more : List Char) (r : List Char) :
      indent depth ++ '<' :: r ≠ write (depth + 1) node ++ more := by
    intro same
    obtain ⟨c, rest, first, _⟩ := regular.exists_write_eq (depth + 1)
    rw [first, List.append_assoc] at same
    exact absurd (indent_append_inj same).1 (by omega)
  induction ns generalizing ms with
  | nil =>
    cases ms with
    | nil => exact ⟨rfl, (indent_append_inj same).2⟩
    | cons m rest =>
      rw [writeAll, writeAll, List.append_assoc] at same
      exact absurd same (deeper (right m List.mem_cons_self) _ _)
  | cons n rest ih =>
    cases ms with
    | nil =>
      rw [writeAll, writeAll, List.append_assoc] at same
      exact absurd same.symm (deeper (left n List.mem_cons_self) _ _)
    | cons m rest' =>
      obtain ⟨here, later⟩ := List.forall_mem_cons.mp left
      obtain ⟨here', later'⟩ := List.forall_mem_cons.mp right
      rw [writeAll, writeAll, List.append_assoc, List.append_assoc] at same
      obtain ⟨rfl, behind⟩ := known n List.mem_cons_self _ _ _ here' same
      obtain ⟨rfl, ends⟩ := ih (fun k member => known k (List.mem_cons_of_mem n member)) later later' behind
      exact ⟨rfl, ends⟩

theorem inside_block_append_inj {depth : Nat} {name : String} {ns ms : List Node}
    (known : ∀ n ∈ ns, n.KnownFrom (depth + 1)) (left : ∀ n ∈ ns, n.Regular) (right : ∀ m ∈ ms, m.Regular)
    {r s : List Char} (same : inside depth name ns ++ r = inside depth name ms ++ s) : ns = ms ∧ r = s := by
  cases ns with
  | nil =>
    cases ms with
    | nil => exact ⟨rfl, List.append_cancel_left same⟩
    | cons m rest =>
      rw [inside_block (right m List.mem_cons_self)] at same
      cases same
  | cons n rest =>
    rw [inside_block (left n List.mem_cons_self)] at same
    cases ms with
    | nil => cases same
    | cons m rest' =>
      rw [inside_block (right m List.mem_cons_self)] at same
      simp only [endTag_eq, List.cons_append, List.append_assoc] at same
      obtain ⟨rows, ends⟩ := writeAll_append_inj known left right (List.cons.inj (List.cons.inj same).2).2
      exact ⟨rows, by simpa using ends⟩

theorem write_element_append_inj {depth : Nat} {name name' : String} {as bs : Attributes}
    {children children' : List Node} (named : IsSolidName name) (named' : IsSolidName name') (keys : as.Clean)
    (keys' : bs.Clean) {r s : List Char}
    (same : write depth (.element name as children) ++ r = write depth (.element name' bs children') ++ s) :
    name = name' ∧ as = bs ∧ inside depth name children ++ r = inside depth name' children' ++ s := by
  simp only [write_element, List.append_assoc, List.cons_append] at same
  exact tagText_append_inj named named' keys keys' (endsTag_inside depth name children r)
    (endsTag_inside depth name' children' s) (indent_append_inj same).2

theorem Regular.knownFrom {n : Node} (regular : n.Regular) (depth : Nat) : n.KnownFrom depth := by
  induction regular generalizing depth with
  | block named keys elements ih =>
    intro m r s right same
    cases right with
    | block named' keys' elements' =>
      obtain ⟨rfl, rfl, behind⟩ := write_element_append_inj named named' keys keys' same
      have known := fun n member => ih n member (depth + 1)
      obtain ⟨rfl, ends⟩ := inside_block_append_inj known elements elements' behind
      exact ⟨rfl, ends⟩
    | line named' keys' =>
      obtain ⟨rfl, rfl, behind⟩ := write_element_append_inj named named' keys keys' same
      exact absurd behind (inside_block_ne_line elements _ _)
  | line named keys =>
    intro m r s right same
    cases right with
    | block named' keys' elements =>
      obtain ⟨rfl, rfl, behind⟩ := write_element_append_inj named named' keys keys' same
      exact absurd behind.symm (inside_block_ne_line elements _ _)
    | line named' keys' =>
      obtain ⟨rfl, rfl, behind⟩ := write_element_append_inj named named' keys keys' same
      obtain ⟨rfl, ends⟩ := inside_line_append_inj behind
      exact ⟨rfl, ends⟩

end Node

/-- Writing a tree loses nothing of it: neither a name, a value or a text nor the order of attributes and
children. -/
theorem Element.svg_eq_iff {a b : Element} (left : a.toNode.Regular) (right : b.toNode.Regular) :
    a.svg = b.svg ↔ a = b := by
  constructor
  · intro same
    have texts : a.toNode.write 0 = b.toNode.write 0 := by
      simpa only [svg, String.toList_ofList] using congrArg String.toList same
    obtain ⟨nodes, _⟩ := left.knownFrom 0 _ _ _ right (congrArg (· ++ []) texts)
    cases a
    cases b
    cases nodes
    rfl
  · rintro rfl
    rfl

/-- A text that reads like a child is not written like one. -/
theorem Element.svg_eq_iff_line_block :
    ((named "g").text "\n  <use/>\n").toNode.Regular ∧ ((named "g").child (named "use")).toNode.Regular ∧
      ((named "g").text "\n  <use/>\n").svg ≠ ((named "g").child (named "use")).svg := by
  have line : ((named "g").text "\n  <use/>\n").toNode.Regular := .line (by decide) (by decide)
  have leaf : (named "use").toNode.Regular := .block (by decide) (by decide) (List.forall_mem_nil _)
  have block : ((named "g").child (named "use")).toNode.Regular :=
    .block (by decide) (by decide) (List.forall_mem_singleton.mpr leaf)
  refine ⟨line, block, fun same => ?_⟩
  have trees := (svg_eq_iff line block).mp same
  cases trees

end HexAtlas
