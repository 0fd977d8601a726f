import HexAtlas.Proofs.Yaml.Growth
import HexAtlas.Proofs.Yaml.Mapping

namespace HexAtlas.Yaml

namespace Scanner

variable {s t : Scanner} {tokens : List Token} {rest : List Char}

theorem Reaches.exists_run? (h : s.Reaches t) {n : Nat} (enough : s.cursor.rest.length ≤ n) :
    ∃ fuel, s.run? n = t.run? fuel := by
  obtain ⟨steps, fewer, run⟩ := h
  refine ⟨n - steps, ?_⟩
  rw [← run, Nat.sub_add_cancel (by omega)]

/-- A key, some items below it and the dash of the next one. -/
theorem KeyPlace.toItem (first : Bool) {c : Char} {key : List Char} {texts : List (List Char)}
    (h : s.KeyPlace tokens (if first then -1 else 0) (if first then [] else [-1]) 0
      (c :: key ++ ':' :: '\n' :: (itemLines texts ++ ' ' :: ' ' :: '-' :: rest)))
    (start : c.isAlphanum = true) (solid : ∀ a ∈ c :: key, isPlainChar a = true) (short : key.length < 1024)
    (verbatim : ∀ text ∈ texts, IsVerbatim text) (ends : wordEnds rest = true) :
    ∃ t, s.Reaches t ∧ t.KeyPlace (tokens ++ (if first then [.blockMapping] else []) ++
      [.key, .scalar true (String.ofList (c :: key)), .value, .blockSequence] ++ itemTokens texts ++ [.blockEntry])
      2 [0, -1] 3 rest := by
  obtain ⟨u, toColon, atColon⟩ := h.key start solid short rfl
  have opening := atColon.lineEnd
  cases texts with
  | nil =>
    obtain ⟨v, toDash, atDash⟩ := opening.dash true ends
    exact ⟨v, toColon.trans toDash, by simpa [itemTokens] using atDash⟩
  | cons text more =>
    have below : itemLines (text :: more) ++ ' ' :: ' ' :: '-' :: rest = ' ' :: ' ' :: '-' :: ' ' :: '"' ::
        (text ++ '"' :: '\n' :: (itemLines more ++ ' ' :: ' ' :: '-' :: rest)) := by simp [itemLines]
    rw [below] at opening
    obtain ⟨v, toItem, atItem⟩ := opening.item true (verbatim text List.mem_cons_self)
    obtain ⟨w, toEnd, atEnd⟩ := atItem.items fun other member => verbatim other (List.mem_cons_of_mem text member)
    obtain ⟨x, toDash, atDash⟩ := atEnd.dash false ends
    exact ⟨x, ((toColon.trans toItem).trans toEnd).trans toDash, by simpa [itemTokens] using atDash⟩

/-- What a run that comes to its end has read behind a dash and a quote. -/
theorem KeyPlace.exists_quoted? {cs : List Char} (h : s.KeyPlace tokens 2 [0, -1] 3 (' ' :: '"' :: cs)) {fuel : Nat}
    (done : s.run? fuel = some t) :
    ∃ text after, quoted? '"' 5 cs = some (text, after) ∧ ∃ opening more,
      t.emitted = tokens ++ opening ++ .scalar false (String.ofList text) :: more ∧
      (opening = [] ∨ opening = [.key] ∨ opening = [.blockMapping, .key]) := by
  cases fuel with
  | zero => cases done
  | succ fuel =>
    obtain ⟨u, arrives, at'⟩ := h.arrive (startsToken_cons (by decide) _) (by decide)
    rw [run?_succ, arrives, Option.bind_some, at'.rest] at done
    obtain ⟨v, read, done⟩ := Option.bind_eq_some_iff.mp done
    cases quoted : quoted? '"' (u.cursor.column + 1) cs with
    | none => simp [token?, isDocumentMark, quoted] at read
    | some found =>
      obtain ⟨text, after⟩ := found
      rw [token?_quote quoted at'.block at'.allowed at'.free] at read
      cases read
      refine ⟨text, after, by rw [← quoted, at'.column], ?_⟩
      rw [← at'.emitted]
      refine (Holds.run? ⟨⟨[], [.slot u.slots], rfl, .inl rfl⟩, at'.fresh, Nat.le_succ _, ?_⟩ done).exists_emitted
      intro c held
      rcases List.mem_cons.mp held with own | outer
      · cases own
        exact Nat.le_refl _
      · rw [at'.block] at outer
        cases outer

end Scanner

section Reading

variable {handles : List String} {anchors : Anchors} {rest : List Token} {fuel : Nat} {block indentless : Bool}
  {node : Node} {r : Reading}

theorem eq_of_node?_scalar {plain : Bool} {text : String}
    (h : node? handles fuel block indentless ⟨.scalar plain text :: rest, anchors⟩ = some (node, r)) :
    node = .scalar plain text ∧ r = ⟨rest, anchors⟩ := by
  match fuel with
  | 0 => cases h
  | 1 => simp [node?, content?, properties] at h
  | fuel + 2 =>
    rw [node?_scalar] at h
    cases h
    exact ⟨rfl, rfl⟩

theorem exists_of_node?_blockMapping
    (h : node? handles fuel true indentless ⟨.blockMapping :: rest, anchors⟩ = some (node, r)) :
    ∃ entries fuel', node = .mapping entries ∧ blockEntries? handles fuel' ⟨rest, anchors⟩ = some (entries, r) := by
  match fuel with
  | 0 => cases h
  | 1 => simp [node?, content?, properties] at h
  | fuel + 2 =>
    rw [node?_blockMapping] at h
    obtain ⟨⟨entries, _⟩, read, h⟩ := Option.map_eq_some_iff.mp h
    cases h
    exact ⟨entries, fuel, rfl, read⟩

theorem exists_of_node?_blockSequence
    (h : node? handles fuel true indentless ⟨.blockSequence :: rest, anchors⟩ = some (node, r)) :
    ∃ items fuel', node = .sequence items ∧ blockItems? handles fuel' ⟨rest, anchors⟩ = some (items, r) := by
  match fuel with
  | 0 => cases h
  | 1 => simp [node?, content?, properties] at h
  | fuel + 2 =>
    rw [node?_blockSequence] at h
    obtain ⟨⟨items, _⟩, read, h⟩ := Option.map_eq_some_iff.mp h
    cases h
    exact ⟨items, fuel, rfl, read⟩

/-- A key is no node. -/
theorem node?_key : node? handles fuel block indentless ⟨.key :: rest, anchors⟩ = none := by
  match fuel with
  | 0 => rfl
  | 1 => simp [node?, content?, properties]
  | fuel + 2 => simp [node?, content?, properties]

/-- The node that starts with a scalar is the scalar, or a mapping if the scalar is a key. -/
theorem of_node?_opening {opening : List Token} {plain : Bool} {text : String}
    (opens : opening = [] ∨ opening = [.key] ∨ opening = [.blockMapping, .key])
    (h : node? handles fuel true false ⟨opening ++ .scalar plain text :: rest, anchors⟩ = some (node, r)) :
    node = .scalar plain text ∨ ∃ entries, node = .mapping entries := by
  rcases opens with rfl | rfl | rfl
  · exact .inl (eq_of_node?_scalar h).1
  · simp only [List.cons_append, List.nil_append, node?_key] at h
    cases h
  · obtain ⟨entries, _, own, _⟩ := exists_of_node?_blockMapping h
    exact .inr ⟨entries, own⟩

theorem exists_of_blockItems? {texts : List (List Char)} {opening : List Token} {plain : Bool} {text : String}
    {items : List Node} (opens : opening = [] ∨ opening = [.key] ∨ opening = [.blockMapping, .key])
    (h : blockItems? handles fuel
      ⟨itemTokens texts ++ .blockEntry :: (opening ++ .scalar plain text :: rest), anchors⟩ =
      some (items, r)) :
    ∃ item more, items = texts.map (fun text => .scalar false (String.ofList text)) ++ item :: more ∧
      (item = .scalar plain text ∨ ∃ entries, item = .mapping entries) := by
  induction texts generalizing fuel items with
  | nil =>
    cases fuel with
    | zero => cases h
    | succ fuel =>
      have filled : Reading.isAt ⟨opening ++ .scalar plain text :: rest, anchors⟩ [.blockEntry, .blockEnd] =
        false := by
        rcases opens with rfl | rfl | rfl <;> rfl
      simp only [itemTokens, List.flatMap_nil, List.nil_append, blockItems?, filled] at h
      obtain ⟨⟨item, r'⟩, read, h⟩ := Option.bind_eq_some_iff.mp h
      obtain ⟨⟨more, r''⟩, later, h⟩ := Option.bind_eq_some_iff.mp h
      cases h
      exact ⟨item, more, rfl, of_node?_opening opens read⟩
  | cons first texts ih =>
    cases fuel with
    | zero => cases h
    | succ fuel =>
      simp only [itemTokens, List.flatMap_cons, List.cons_append, List.nil_append, blockItems?] at h
      obtain ⟨⟨item, r'⟩, read, h⟩ := Option.bind_eq_some_iff.mp h
      obtain ⟨⟨more, r''⟩, later, h⟩ := Option.bind_eq_some_iff.mp h
      cases h
      obtain ⟨rfl, rfl⟩ := eq_of_node?_scalar read
      obtain ⟨item, more, rfl, own⟩ := ih later
      exact ⟨item, more, rfl, own⟩

/-- The first entry of a mapping whose key is a word and whose value a sequence. -/
theorem exists_of_blockEntries? {key : String} {entries : List (Node × Node)}
    (h : blockEntries? handles fuel ⟨.key :: .scalar true key :: .value :: .blockSequence :: rest, anchors⟩ =
      some (entries, r)) :
    ∃ items more fuel' r', entries = (.scalar true key, .sequence items) :: more ∧
      blockItems? handles fuel' ⟨rest, anchors⟩ = some (items, r') := by
  cases fuel with
  | zero => cases h
  | succ fuel =>
    rw [blockEntries?] at h
    obtain ⟨⟨name, r₁⟩, readKey, h⟩ := Option.bind_eq_some_iff.mp h
    obtain ⟨rfl, rfl⟩ := eq_of_node?_scalar readKey
    obtain ⟨⟨value, r₂⟩, readValue, h⟩ := Option.bind_eq_some_iff.mp h
    obtain ⟨items, fuel', rfl, read⟩ := exists_of_node?_blockSequence readValue
    obtain ⟨⟨more, r₃⟩, _, h⟩ := Option.bind_eq_some_iff.mp h
    cases h
    exact ⟨items, more, fuel', r₂, rfl, read⟩

/-- A stream that starts with a block mapping has it as its first document. -/
theorem exists_of_documents?_blockMapping {documents : List Node}
    (h : documents? fuel true (.blockMapping :: rest) = some documents) :
    ∃ entries others fuel' r', documents = .mapping entries :: others ∧
      blockEntries? [] fuel' ⟨rest, []⟩ = some (entries, r') := by
  cases fuel with
  | zero => cases h
  | succ fuel =>
    obtain ⟨⟨node, r'⟩, read, opened⟩ := Option.bind_eq_some_iff.mp h
    obtain ⟨others, _, opened⟩ := Option.bind_eq_some_iff.mp opened
    cases opened
    obtain ⟨entries, fuel', rfl, inner⟩ := exists_of_node?_blockMapping read
    exact ⟨entries, others, fuel', r', rfl, inner⟩

end Reading

/-- A scanner comes to the end of a text that has tokens. -/
theorem exists_run?_of_tokens? {cs : List Char} {tokens : List Token} (unmarked : cs.head? ≠ some '\ufeff')
    (h : tokens? cs = some tokens) :
    (∀ c ∈ cs, isAllowed c = true) ∧ ∃ t, (Scanner.start cs).run? (cs.length + 2) = some t ∧
      t.emitted = tokens := by
  simp only [tokens?, if_neg unmarked] at h
  split at h
  · cases h
  · rename_i allowed
    obtain ⟨t, done, h⟩ := Option.bind_eq_some_iff.mp h
    cases h
    exact ⟨by simpa using allowed, t, done, rfl⟩

theorem allowed_of_parse? {cs : List Char} {documents : List Node} (unmarked : cs.head? ≠ some '\ufeff')
    (h : parse? cs = some documents) : ∀ c ∈ cs, isAllowed c = true := by
  obtain ⟨tokens, scanned, _⟩ := Option.bind_eq_some_iff.mp h
  exact (exists_run?_of_tokens? unmarked scanned).1

/-- If a mapping can be read whose first key has a sequence below it, then so can what stands between the quotes of
each item; the item is that text, or a mapping. -/
theorem exists_item_of_parse? {comments texts : List (List Char)} {key whole cs : List Char} {documents : List Node}
    (notes : ∀ comment ∈ comments, IsComment comment) (named : isWord key = true) (short : key.length ≤ 1024)
    (verbatim : ∀ text ∈ texts, IsVerbatim text) (shape : whole = lineFeeds comments ++ (key ++ ':' :: '\n' ::
      (itemLines texts ++ ' ' :: ' ' :: '-' :: ' ' :: '"' :: cs))) (unmarked : whole.head? ≠ some '\ufeff')
    (h : parse? whole = some documents) :
    ∃ text after, quoted? '"' 5 cs = some (text, after) ∧ ∃ item more entries others,
      documents = .mapping ((.scalar true (String.ofList key), .sequence
        (texts.map (fun text => .scalar false (String.ofList text)) ++ item :: more)) :: entries) :: others ∧
      (item = .scalar false (String.ofList text) ∨ ∃ entries, item = .mapping entries) := by
  obtain ⟨tokens, scanned, h⟩ := Option.bind_eq_some_iff.mp h
  obtain ⟨_, t, done, emitted⟩ := exists_run?_of_tokens? unmarked scanned
  obtain ⟨c, word, rfl, start, solid⟩ := exists_cons_of_isWord named
  have opening := Scanner.keyPlace_start whole
  rw [shape] at opening
  obtain ⟨u, toKey, atKey⟩ := opening.skip (by decide) notes
    (startsToken_cons (isVisible_of_isAlphanum start) _)
  obtain ⟨v, toItem, atItem⟩ := Scanner.KeyPlace.toItem true atKey start solid
    (by rw [List.length_cons] at short; omega) verbatim rfl
  rw [← shape] at toKey
  obtain ⟨fuel, same⟩ := (toKey.trans toItem).exists_run? (n := whole.length + 2) (Nat.le_add_right _ _)
  rw [same] at done
  obtain ⟨text, after, quoted, front, more, shape', opens⟩ := atItem.exists_quoted? done
  refine ⟨text, after, quoted, ?_⟩
  rw [← emitted, shape'] at h
  simp only [List.nil_append, if_true, List.append_assoc, List.cons_append] at h
  obtain ⟨entries, others, fuel₁, _, rfl, readEntries⟩ := exists_of_documents?_blockMapping h
  obtain ⟨items, laterEntries, fuel₂, _, rfl, readItems⟩ := exists_of_blockEntries? readEntries
  obtain ⟨item, laterItems, rfl, own⟩ := exists_of_blockItems? opens readItems
  exact ⟨item, laterItems, laterEntries, others, rfl, own⟩

end HexAtlas.Yaml
