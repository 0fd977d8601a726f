import HexAtlas.Proofs.Markup.CleanNames

namespace HexAtlas

/-- Tags with their values as they are written. -/
inductive Tag where
  | opening (name : String) (pairs : List (String × List Char))
  | empty (name : String) (pairs : List (String × List Char))
  | closing (name : String)

namespace Tag

def text : Tag → List Char
  | opening name pairs => '<' :: (name.toList ++ pairsText pairs ++ ['>'])
  | empty name pairs => '<' :: (name.toList ++ pairsText pairs ++ "/>".toList)
  | closing name => '<' :: '/' :: (name.toList ++ ['>'])

/-- The tag has a name, and so has every value, which no quote cuts short and no bracket opens. -/
def Proper : Tag → Prop
  | opening name pairs => IsTagName name ∧ ∀ pair ∈ pairs, IsTagPair pair
  | empty name pairs => IsTagName name ∧ ∀ pair ∈ pairs, IsTagPair pair
  | closing name => IsTagName name

theorem bracket_not_mem_pairsText {pairs : List (String × List Char)} (proper : ∀ pair ∈ pairs, IsTagPair pair) :
    '<' ∉ pairsText pairs := by
  intro member
  obtain ⟨⟨key, value⟩, listed, inside⟩ := List.mem_flatMap.mp member
  have keyFree := (proper _ listed).key.not_mem (c := '<') (by decide)
  have valueFree := (proper _ listed).value.2
  simp [keyFree, valueFree] at inside

/-- Only its first character is an opening bracket. -/
theorem Proper.exists_text_eq {tag : Tag} (h : tag.Proper) : ∃ body, tag.text = '<' :: body ∧ '<' ∉ body := by
  have nameFree {name : String} (named : IsTagName name) : '<' ∉ name.toList := named.not_mem (by decide)
  cases tag with
  | opening name pairs =>
    exact ⟨_, rfl, by simp [nameFree h.1, bracket_not_mem_pairsText h.2]⟩
  | empty name pairs =>
    exact ⟨_, rfl, by simp [nameFree h.1, bracket_not_mem_pairsText h.2]⟩
  | closing name => exact ⟨_, rfl, by simp [nameFree h]⟩

end Tag

/-- A text with proper tags in their order. All that stands before, between and after them has no opening
bracket. -/
inductive Tagged : List Char → List Tag → Prop
  | plain {cs : List Char} (free : '<' ∉ cs) : Tagged cs []
  | tag {before cs : List Char} {tag : Tag} {tags : List Tag} (free : '<' ∉ before) (proper : tag.Proper)
      (rest : Tagged cs tags) : Tagged (before ++ (tag.text ++ cs)) (tag :: tags)

/-- Tags that close in the order of their nesting. -/
inductive Nested : List Tag → Prop
  | nil : Nested []
  | empty {name : String} {pairs : List (String × List Char)} {tags : List Tag} (rest : Nested tags) :
      Nested (.empty name pairs :: tags)
  | element {name : String} {pairs : List (String × List Char)} {inner tags : List Tag} (within : Nested inner)
      (rest : Nested tags) : Nested (.opening name pairs :: (inner ++ .closing name :: tags))

theorem Nested.append {front back : List Tag} (left : Nested front) (right : Nested back) :
    Nested (front ++ back) := by
  induction left with
  | nil => exact right
  | empty rest ih => exact .empty ih
  | element within rest _ ih =>
    rw [List.cons_append, List.append_assoc, List.cons_append]
    exact .element within ih

namespace Tagged

theorem text_append {before cs : List Char} {tags : List Tag} (free : '<' ∉ before) (h : Tagged cs tags) :
    Tagged (before ++ cs) tags := by
  cases h with
  | plain free' => exact .plain fun member => (List.mem_append.mp member).elim free free'
  | tag free' proper rest =>
    rw [← List.append_assoc]
    exact .tag (fun member => (List.mem_append.mp member).elim free free') proper rest

theorem tag_append {tag : Tag} (proper : tag.Proper) {cs : List Char} {tags : List Tag} (h : Tagged cs tags) :
    Tagged (tag.text ++ cs) (tag :: tags) :=
  .tag List.not_mem_nil proper h

theorem lineEnd : Tagged ['\n'] [] := .plain (by decide)

theorem append {a b : List Char} {front back : List Tag} (left : Tagged a front) (right : Tagged b back) :
    Tagged (a ++ b) (front ++ back) := by
  induction left with
  | plain free => exact right.text_append free
  | tag free proper rest ih =>
    rw [List.append_assoc, List.append_assoc]
    exact .tag free proper ih

theorem proper {cs : List Char} {tags : List Tag} (h : Tagged cs tags) : ∀ tag ∈ tags, tag.Proper := by
  induction h with
  | plain => exact List.forall_mem_nil _
  | tag free proper rest ih => exact List.forall_mem_cons.mpr ⟨proper, ih⟩

/-- Every opening bracket of the text begins one of its tags. -/
theorem exists_prefix_of_bracket {cs : List Char} {tags : List Tag} (h : Tagged cs tags) {before after : List Char}
    (bracket : cs = before ++ '<' :: after) : ∃ tag ∈ tags, tag.text <+: '<' :: after := by
  induction h generalizing before with
  | plain free => exact absurd (bracket ▸ List.mem_append_right before List.mem_cons_self) free
  | @tag start cs tag tags free proper rest ih =>
    obtain ⟨body, text, bodyFree⟩ := proper.exists_text_eq
    obtain ⟨more, -, back⟩ := exists_append_of_not_mem start bracket.symm free
    cases more with
    | nil => exact ⟨tag, List.mem_cons_self, cs, back⟩
    | cons c rest =>
      rw [text] at back
      obtain ⟨later, -, within⟩ := exists_append_of_not_mem body (List.cons.inj back).2.symm bodyFree
      obtain ⟨found, member, start⟩ := ih within
      exact ⟨found, List.mem_cons_of_mem _ member, start⟩

end Tagged

namespace Node

mutual

/-- The tags that a node is written with, in their order. -/
def tags : Node → List Tag
  | element name attributes children =>
    if children.isEmpty then [.empty name (writtenPairs attributes)]
    else .opening name (writtenPairs attributes) :: (tagsIn children ++ [.closing name])
  | text _ => []
  | raw _ => []

def tagsIn : List Node → List Tag
  | [] => []
  | node :: rest => tags node ++ tagsIn rest

end

mutual

theorem nested_tags : (node : Node) → Nested node.tags
  | element name attributes children => by
    rw [tags]
    split
    · exact .empty .nil
    · exact .element (nested_tagsIn children) .nil
  | text _ => .nil
  | raw _ => .nil

theorem nested_tagsIn : (nodes : List Node) → Nested (tagsIn nodes)
  | [] => .nil
  | node :: rest => (nested_tags node).append (nested_tagsIn rest)

end

/-- Texts have no tags. -/
theorem tagsIn_of_texts {nodes : List Node} (texts : nodes.all (fun node => node.text?.isSome) = true) :
    tagsIn nodes = [] := by
  induction nodes with
  | nil => rfl
  | cons node rest ih =>
    rw [List.all_cons, Bool.and_eq_true] at texts
    cases node with
    | text content => rw [tagsIn, tags, ih texts.2, List.append_nil]
    | element name attributes children => cases texts.1
    | raw markup => cases texts.1

/-- What stands between the two tags of an element. -/
theorem exists_inside_eq (depth : Nat) (name : String) {children : List Node} (filled : children.isEmpty = false)
    (within : Tagged (writeAll (depth + 1) children) (tagsIn children)) :
    ∃ body, inside depth name children = '>' :: (body ++ endTag name) ∧ Tagged body (tagsIn children) := by
  have newline : '<' ∉ ['\n'] := by decide
  rw [inside, if_neg (by simp [filled])]
  split
  · rename_i texts
    rw [tagsIn_of_texts texts]
    exact ⟨_, rfl, .plain (not_mem_escape (by simp) _)⟩
  · have rows := within.append (.plain (bracket_not_mem_indent depth))
    rw [List.append_nil] at rows
    exact ⟨'\n' :: (writeAll (depth + 1) children ++ indent depth), by simp, rows.text_append newline⟩

mutual

/-- A node without raw markup is written as its tags if all names can be told from what stands around them. -/
theorem tagged_write : (node : Node) → (depth : Nat) → node.raws = [] → node.Clean →
    Tagged (write depth node) node.tags
  | element name attributes children, depth, rawless, clean => by
    obtain ⟨here, others⟩ := List.forall_mem_cons.mp clean
    obtain ⟨keys, below⟩ := List.forall_mem_append.mp others
    have pairs := isTagPair_written_iff.mpr keys
    rw [write_element, tagText_eq, tags]
    split
    · rename_i empty
      have start : (Tag.empty name (writtenPairs attributes)).Proper := ⟨here, pairs⟩
      have whole := (Tagged.lineEnd.tag_append start).text_append (bracket_not_mem_indent depth)
      simpa [inside, empty, Tag.text] using whole
    · rename_i filled
      have start : (Tag.opening name (writtenPairs attributes)).Proper := ⟨here, pairs⟩
      have close : (Tag.closing name).Proper := here
      obtain ⟨body, between, within⟩ := exists_inside_eq depth name (by simpa using filled)
        (tagged_writeAll children (depth + 1) rawless below)
      have whole := ((within.append (Tagged.lineEnd.tag_append close)).tag_append start).text_append
        (bracket_not_mem_indent depth)
      simpa [between, Tag.text, endTag_eq] using whole
  | text content, depth, _, _ => by
    have line := Tagged.lineEnd.text_append (not_mem_escape (by simp) content.toList)
    simpa [write, tags] using line.text_append (bracket_not_mem_indent depth)
  | raw _, _, rawless, _ => by cases rawless

theorem tagged_writeAll : (nodes : List Node) → (depth : Nat) → rawsIn nodes = [] →
    (∀ name ∈ namesIn nodes, IsTagName name) → Tagged (writeAll depth nodes) (tagsIn nodes)
  | [], _, _, _ => .plain List.not_mem_nil
  | node :: rest, depth, rawless, clean => by
    obtain ⟨rawlessHere, rawlessLater⟩ := List.append_eq_nil_iff.mp rawless
    obtain ⟨here, later⟩ := List.forall_mem_append.mp clean
    exact (tagged_write node depth rawlessHere here).append (tagged_writeAll rest depth rawlessLater later)

end

mutual

/-- The names of a node stand in its tags. -/
theorem clean_of_proper_tags : (node : Node) → (∀ tag ∈ node.tags, tag.Proper) → node.Clean
  | element name attributes children, proper => by
    have here : IsTagName name ∧ ∀ pair ∈ writtenPairs attributes, IsTagPair pair := by
      rw [tags] at proper
      split at proper
      · exact proper _ List.mem_cons_self
      · exact proper _ List.mem_cons_self
    have below : ∀ tag ∈ tagsIn children, tag.Proper := by
      intro tag member
      refine proper tag ?_
      rw [tags]
      split
      · rename_i empty
        rw [List.isEmpty_iff.mp empty] at member
        cases member
      · exact List.mem_cons_of_mem _ (List.mem_append_left _ member)
    have keys := isTagPair_written_iff.mp here.2
    exact List.forall_mem_cons.mpr
      ⟨here.1, List.forall_mem_append.mpr ⟨keys, cleanIn_of_proper_tags children below⟩⟩
  | text _, _ => List.forall_mem_nil _
  | raw _, _ => List.forall_mem_nil _

theorem cleanIn_of_proper_tags : (nodes : List Node) → (∀ tag ∈ tagsIn nodes, tag.Proper) →
    ∀ name ∈ namesIn nodes, IsTagName name
  | [], _ => List.forall_mem_nil _
  | node :: rest, proper => by
    obtain ⟨here, later⟩ := List.forall_mem_append.mp proper
    exact List.forall_mem_append.mpr ⟨clean_of_proper_tags node here, cleanIn_of_proper_tags rest later⟩

end

end Node

namespace Element

/-- The text of a tree is its tags in document order with plain text between them: no other bracket opens, and the
tags close as they are nested. -/
structure WellFormed (e : Element) : Prop where
  tagged : Tagged e.svg.toList e.toNode.tags
  brackets : ∀ before after, e.svg.toList = before ++ '<' :: after →
    ∃ tag ∈ e.toNode.tags, tag.text <+: '<' :: after
  nested : Nested e.toNode.tags

theorem wellFormed_iff_clean {e : Element} (rawless : e.raws = []) : e.WellFormed ↔ e.Clean := by
  constructor
  · intro wellFormed
    exact e.toNode.clean_of_proper_tags wellFormed.tagged.proper
  · intro clean
    have text : e.svg.toList = e.toNode.write 0 := String.toList_ofList
    have tagged : Tagged e.svg.toList e.toNode.tags := text ▸ e.toNode.tagged_write 0 rawless clean
    exact ⟨tagged, fun _ _ => tagged.exists_prefix_of_bracket, e.toNode.nested_tags⟩

end Element

end HexAtlas
