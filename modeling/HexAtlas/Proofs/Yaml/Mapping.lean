import HexAtlas.Proofs.Yaml.Token
import HexAtlas.Yaml.Node

namespace HexAtlas.Yaml

/-- A plain scalar that starts with a letter or a digit. -/
def isWord (cs : List Char) : Bool := cs.head?.any (·.isAlphanum) && cs.all isPlainChar

theorem exists_cons_of_isWord {cs : List Char} (h : isWord cs = true) :
    ∃ c rest, cs = c :: rest ∧ c.isAlphanum = true ∧ ∀ d ∈ cs, isPlainChar d = true := by
  rw [isWord, Bool.and_eq_true, List.all_eq_true] at h
  obtain ⟨start, solid⟩ := h
  cases cs with
  | nil => cases start
  | cons c rest => exact ⟨c, rest, rfl, by simpa using start, solid⟩

theorem allowed_of_isWord {word : List Char} (h : isWord word = true) : ∀ c ∈ word, isAllowed c = true := by
  obtain ⟨_, _, _, _, plain⟩ := exists_cons_of_isWord h
  intro c member
  have own := plain c member
  simp only [isPlainChar, Bool.and_eq_true] at own
  exact own.1.1.1

/-- What stands behind a key. -/
inductive EntryValue where
  | plain (word : List Char)
  | list (texts : List (List Char))

namespace EntryValue

def text : EntryValue → List Char
  | plain word => ' ' :: (word ++ ['\n'])
  | list texts => '\n' :: itemLines texts

def tokens : EntryValue → List Token
  | plain word => [.scalar true (String.ofList word)]
  | list texts => .blockSequence :: (itemTokens texts ++ [.blockEnd])

def node : EntryValue → Node
  | plain word => .scalar true (String.ofList word)
  | list texts => .sequence (texts.map fun text => .scalar false (String.ofList text))

/-- A word, or at least one text that is read as itself between quotes. -/
def IsSound : EntryValue → Prop
  | plain word => isWord word = true
  | list texts => texts ≠ [] ∧ ∀ text ∈ texts, IsVerbatim text

theorem IsSound.allowed {value : EntryValue} (h : value.IsSound) : ∀ c ∈ value.text, isAllowed c = true := by
  intro c member
  cases value with
  | plain word =>
    simp only [text, List.mem_cons, List.mem_append, List.not_mem_nil, or_false] at member
    rcases member with rfl | inside | rfl
    · rfl
    · exact allowed_of_isWord h c inside
    · rfl
  | list texts =>
    simp only [text, itemLines, List.mem_cons, List.mem_flatMap, List.mem_append, List.not_mem_nil,
      or_false] at member
    rcases member with rfl | ⟨each, listed, rfl | rfl | rfl | rfl | rfl | inside | rfl | rfl⟩
    any_goals rfl
    exact (h.2 each listed).1 c inside

end EntryValue

/-- Texts that can stand behind a comment mark, each on a line of its own. -/
def AreNotes (notes : List (List Char)) : Prop :=
  ∀ note ∈ notes, ∀ c ∈ note, isAllowed c = true ∧ isBreak c = false

instance (notes : List (List Char)) : Decidable (AreNotes notes) :=
  decidable_of_iff (notes.all fun note => note.all fun c => isAllowed c && !isBreak c) (by simp [AreNotes])

structure Entry where
  notes : List (List Char)
  key : List Char
  value : EntryValue

namespace Entry

def comments (e : Entry) : List (List Char) := e.notes.map ('#' :: ·)

def line (e : Entry) : List Char := e.key ++ ':' :: e.value.text

def text (e : Entry) : List Char := lineFeeds e.comments ++ e.line

def tokens (e : Entry) : List Token := .key :: .scalar true (String.ofList e.key) :: .value :: e.value.tokens

def node (e : Entry) : Node × Node := (.scalar true (String.ofList e.key), e.value.node)

structure IsSound (e : Entry) : Prop where
  notes : AreNotes e.notes
  key : isWord e.key = true
  short : e.key.length ≤ 1024
  value : e.value.IsSound

theorem isSound_plain {notes : List (List Char)} {key word : List Char}
    (sound : AreNotes notes) (named : isWord key = true)
    (short : key.length ≤ 1024) (given : isWord word = true) : IsSound ⟨notes, key, .plain word⟩ :=
  ⟨sound, named, short, given⟩

theorem isSound_list {notes texts : List (List Char)} {key : List Char}
    (sound : AreNotes notes) (named : isWord key = true)
    (short : key.length ≤ 1024) (nonempty : texts ≠ []) (verbatim : ∀ text ∈ texts, IsVerbatim text) :
    IsSound ⟨notes, key, .list texts⟩ :=
  ⟨sound, named, short, nonempty, verbatim⟩

variable {e : Entry}

theorem IsSound.isComment (h : e.IsSound) : ∀ comment ∈ e.comments, IsComment comment := by
  intro comment member
  obtain ⟨note, listed, rfl⟩ := List.mem_map.mp member
  refine ⟨?_, by simp⟩
  intro c inside
  rcases List.mem_cons.mp inside with rfl | inside
  · rfl
  · exact (h.notes note listed c inside).2

theorem IsSound.startsToken (h : e.IsSound) (rest : List Char) : StartsToken (e.line ++ rest) := by
  obtain ⟨c, word, shape, start, _⟩ := exists_cons_of_isWord h.key
  rw [line, shape]
  exact startsToken_cons (isVisible_of_isAlphanum start) _

theorem IsSound.startsSolid (h : e.IsSound) (rest : List Char) : StartsSolid (e.text ++ rest) := by
  intro c atHead
  cases notes : e.notes with
  | nil =>
    rw [text, comments, notes] at atHead
    have visible := h.startsToken rest c atHead
    simp only [isVisible, Bool.and_eq_true, Bool.not_eq_true'] at visible
    exact visible.1.1
  | cons note more =>
    have mark : c = '#' := by simpa [text, comments, notes, lineFeeds] using atHead.symm
    subst mark
    decide

theorem IsSound.unmarked (h : e.IsSound) (rest : List Char) : (e.text ++ rest).head? ≠ some '\ufeff' := by
  intro atHead
  cases notes : e.notes with
  | nil =>
    rw [text, comments, notes] at atHead
    exact absurd (h.startsToken rest _ atHead) (by decide)
  | cons note more => simp [text, comments, notes, lineFeeds] at atHead

theorem IsSound.allowed (h : e.IsSound) : ∀ c ∈ e.text, isAllowed c = true := by
  intro c member
  simp only [text, line, lineFeeds, comments, List.mem_append, List.mem_flatMap, List.mem_map,
    List.mem_cons] at member
  rcases member with ⟨comment, ⟨note, listed, rfl⟩, inside⟩ | inKey | rfl | inValue
  · simp only [List.mem_cons, List.not_mem_nil, or_false] at inside
    rcases inside with (rfl | inNote) | rfl
    · rfl
    · exact (h.notes note listed c inNote).1
    · rfl
  · exact allowed_of_isWord h.key c inKey
  · rfl
  · exact h.value.allowed c inValue

/-- The line of an entry, up to the word of the next one. -/
theorem reaches_line {s : Scanner} {tokens : List Token} {first : Bool} {comments : List (List Char)}
    {rest : List Char} (h : s.KeyPlace tokens (if first then -1 else 0) (if first then [] else [-1]) 0
      (e.line ++ (lineFeeds comments ++ rest))) (sound : e.IsSound) (each : ∀ comment ∈ comments, IsComment comment)
    (stops : StartsToken rest) (solid : StartsSolid (lineFeeds comments ++ rest)) :
    ∃ t, s.Reaches t ∧ t.KeyPlace (tokens ++ (if first then [.blockMapping] else []) ++ e.tokens) 0
      [-1] 0 rest := by
  obtain ⟨c, word, shape, start, plain⟩ := exists_cons_of_isWord sound.key
  have short : word.length < 1024 := by
    have bound := sound.short
    rw [shape, List.length_cons] at bound
    omega
  have value := sound.value
  rw [shape] at plain
  rw [line, shape] at h
  rw [Entry.tokens, shape]
  cases given : e.value with
  | plain answer =>
    rw [given] at value h
    obtain ⟨d, more, same, start', plain'⟩ := exists_cons_of_isWord value
    subst same
    have atLine : s.KeyPlace tokens (if first then -1 else 0) (if first then [] else [-1]) 0
        (c :: word ++ ':' :: ' ' :: (d :: more ++ '\n' :: (lineFeeds comments ++ rest))) := by
      simpa [EntryValue.text] using h
    obtain ⟨t, toNext, next⟩ := atLine.entry start plain short start' plain' solid
    obtain ⟨u, toWord, atWord⟩ := next.skip (Int.le_refl 0) each stops
    exact ⟨u, toNext.trans toWord, by simpa [EntryValue.tokens] using atWord⟩
  | list texts =>
    rw [given] at value h
    have atLine : s.KeyPlace tokens (if first then -1 else 0) (if first then [] else [-1]) 0
        (c :: word ++ ':' :: '\n' :: (itemLines texts ++ (lineFeeds comments ++ rest))) := by
      simpa [EntryValue.text] using h
    obtain ⟨t, toNext, next⟩ := atLine.list start plain short value.1 value.2 each stops
    exact ⟨t, toNext, by simpa [EntryValue.tokens] using next⟩

/-- All lines of a mapping that is open. -/
theorem reaches_lines {es : List Entry} (sound : ∀ e ∈ es, e.IsSound) {s : Scanner} {tokens : List Token}
    (first : Bool) (own : e.IsSound)
    (h : s.KeyPlace tokens (if first then -1 else 0) (if first then [] else [-1]) 0 (e.line ++ es.flatMap text)) :
    ∃ t, s.Reaches t ∧
      t.KeyPlace (tokens ++ (if first then [.blockMapping] else []) ++ (e :: es).flatMap Entry.tokens)
      0 [-1] 0 [] := by
  induction es generalizing s tokens first e with
  | nil =>
    have closing : s.KeyPlace tokens (if first then -1 else 0) (if first then [] else [-1]) 0
        (e.line ++ (lineFeeds [] ++ [])) := h
    have last := reaches_line closing own (List.forall_mem_nil _) .nil .nil
    simpa using last
  | cons next more ih =>
    have nextSound := sound next List.mem_cons_self
    have shape : (next :: more).flatMap text = lineFeeds next.comments ++ (next.line ++ more.flatMap text) := by
      rw [List.flatMap_cons, text, List.append_assoc]
    have solid := nextSound.startsSolid (more.flatMap text)
    rw [text, List.append_assoc] at solid
    rw [shape] at h
    obtain ⟨t, toNext, atNext⟩ := reaches_line h own nextSound.isComment (nextSound.startsToken _) solid
    obtain ⟨u, toEnd, atEnd⟩ := ih (fun other member => sound other (List.mem_cons_of_mem next member)) false
      nextSound atNext
    exact ⟨u, toNext.trans toEnd, by simpa using atEnd⟩

end Entry

section Reading

variable {handles : List String} {anchors : Anchors} {rest : List Token}

theorem node?_scalar (fuel : Nat) (block indentless plain : Bool) (text : String) :
    node? handles (fuel + 2) block indentless ⟨.scalar plain text :: rest, anchors⟩ =
      some (.scalar plain text, ⟨rest, anchors⟩) := by
  simp [node?, content?, properties]

theorem node?_blockSequence (fuel : Nat) (indentless : Bool) :
    node? handles (fuel + 2) true indentless ⟨.blockSequence :: rest, anchors⟩ =
      (blockItems? handles fuel ⟨rest, anchors⟩).map fun (items, r) => (.sequence items, r) := by
  cases read : blockItems? handles fuel ⟨rest, anchors⟩ <;> simp [node?, content?, properties, read]

theorem node?_blockMapping (fuel : Nat) (indentless : Bool) :
    node? handles (fuel + 2) true indentless ⟨.blockMapping :: rest, anchors⟩ =
      (blockEntries? handles fuel ⟨rest, anchors⟩).map fun (entries, r) => (.mapping entries, r) := by
  cases read : blockEntries? handles fuel ⟨rest, anchors⟩ <;> simp [node?, content?, properties, read]

theorem blockItems?_itemTokens {texts : List (List Char)} {fuel : Nat} (enough : texts.length + 2 < fuel) :
    blockItems? handles fuel ⟨itemTokens texts ++ .blockEnd :: rest, anchors⟩ =
      some (texts.map fun text => .scalar false (String.ofList text), ⟨rest, anchors⟩) := by
  induction texts generalizing fuel with
  | nil =>
    obtain ⟨fuel, rfl⟩ : ∃ k, fuel = k + 1 := ⟨fuel - 1, by omega⟩
    simp [itemTokens, blockItems?]
  | cons text more ih =>
    simp only [List.length_cons] at enough
    obtain ⟨fuel, rfl⟩ : ∃ k, fuel = k + 2 + 1 := ⟨fuel - 3, by omega⟩
    have later := @ih (fuel + 2) (by omega)
    rw [show itemTokens (text :: more) ++ .blockEnd :: rest =
      .blockEntry :: .scalar false (String.ofList text) :: (itemTokens more ++ .blockEnd :: rest) by
        simp [itemTokens]]
    rw [blockItems?]
    simp [Reading.isAt, node?_scalar, later]

theorem length_itemTokens (texts : List (List Char)) : (itemTokens texts).length = 2 * texts.length := by
  induction texts with
  | nil => rfl
  | cons text more ih =>
    simp only [itemTokens, List.flatMap_cons, List.length_append, List.length_cons, List.length_nil] at ih ⊢
    omega

theorem EntryValue.node?_tokens {value : EntryValue} {fuel : Nat} (enough : value.tokens.length + 4 < fuel) :
    node? handles fuel true true ⟨value.tokens ++ rest, anchors⟩ = some (value.node, ⟨rest, anchors⟩) := by
  obtain ⟨fuel, rfl⟩ : ∃ k, fuel = k + 2 := ⟨fuel - 2, by omega⟩
  cases value with
  | plain word => exact node?_scalar fuel true true true _
  | list texts =>
    have items := length_itemTokens texts
    have shape : (EntryValue.list texts).tokens ++ rest =
      .blockSequence :: (itemTokens texts ++ .blockEnd :: rest) := by simp [EntryValue.tokens]
    simp only [EntryValue.tokens, List.length_cons, List.length_append] at enough
    rw [shape, node?_blockSequence, blockItems?_itemTokens (by omega)]
    rfl

theorem blockEntries?_tokens {es : List Entry} {fuel : Nat} (enough : (es.flatMap Entry.tokens).length + 3 < fuel) :
    blockEntries? handles fuel ⟨es.flatMap Entry.tokens ++ .blockEnd :: rest, anchors⟩ =
      some (es.map Entry.node, ⟨rest, anchors⟩) := by
  induction es generalizing fuel with
  | nil =>
    obtain ⟨fuel, rfl⟩ : ∃ k, fuel = k + 1 := ⟨fuel - 1, by omega⟩
    simp [blockEntries?]
  | cons e more ih =>
    obtain ⟨fuel, rfl⟩ : ∃ k, fuel = k + 2 + 1 := ⟨fuel - 3, by omega⟩
    have shape :
      (e :: more).flatMap Entry.tokens ++ .blockEnd :: rest = .key :: .scalar true (String.ofList e.key) ::
        .value :: (e.value.tokens ++ (more.flatMap Entry.tokens ++ .blockEnd :: rest)) := by
      simp [Entry.tokens]
    simp only [List.flatMap_cons, Entry.tokens, List.length_append, List.length_cons] at enough
    have value := @EntryValue.node?_tokens handles anchors (more.flatMap Entry.tokens ++ .blockEnd :: rest) e.value
      (fuel + 2) (by omega)
    have later := @ih (fuel + 2) (by omega)
    have filled : ∀ tail, Reading.isAt ⟨e.value.tokens ++ tail, anchors⟩ [.key, .value, .blockEnd] = false := by
      intro tail
      cases e.value <;> rfl
    have named : ∀ text tail, Reading.isAt ⟨.scalar true text :: tail, anchors⟩ [.key, .value, .blockEnd] = false :=
      fun _ _ => rfl
    rw [shape, blockEntries?]
    simp [named, filled, node?_scalar, value, later, Entry.node]

theorem documents?_tokens {es : List Entry} (fuel : Nat) :
    documents? (fuel + 2) true (.blockMapping :: (es.flatMap Entry.tokens ++ [.blockEnd])) =
      some [.mapping (es.map Entry.node)] := by
  have read := @node?_blockMapping [] [] (es.flatMap Entry.tokens ++ [.blockEnd])
    (2 * (es.flatMap Entry.tokens ++ [Token.blockEnd]).length + 2) false
  rw [blockEntries?_tokens (by simp only [List.length_append, List.length_cons, List.length_nil]; omega)] at read
  show (node? [] (2 * (es.flatMap Entry.tokens ++ [Token.blockEnd]).length + 2 + 2) true false
    ⟨.blockMapping :: (es.flatMap Entry.tokens ++ [.blockEnd]), []⟩).bind _ = _
  rw [read]
  rfl

end Reading

/-- A mapping that is written line by line reads back as its entries. -/
theorem parse?_entries {es : List Entry} (nonempty : es ≠ []) (sound : ∀ e ∈ es, e.IsSound) :
    parse? (es.flatMap Entry.text) = some [.mapping (es.map Entry.node)] := by
  obtain ⟨e, more, rfl⟩ := List.exists_cons_of_ne_nil nonempty
  have own := sound e List.mem_cons_self
  have shape : (e :: more).flatMap Entry.text = lineFeeds e.comments ++ (e.line ++ more.flatMap Entry.text) := by
    rw [List.flatMap_cons, Entry.text, List.append_assoc]
  have start := Scanner.keyPlace_start ((e :: more).flatMap Entry.text)
  rw [shape] at start
  obtain ⟨t, toWord, atWord⟩ := start.skip (by decide) own.isComment (own.startsToken _)
  obtain ⟨u, toEnd, atEnd⟩ := Entry.reaches_lines
    (fun other member => sound other (List.mem_cons_of_mem e member)) true own atWord
  rw [← shape] at toWord
  have allowed : ∀ c ∈ (e :: more).flatMap Entry.text, isAllowed c = true := by
    intro c member
    obtain ⟨other, listed, inside⟩ := List.mem_flatMap.mp member
    exact (sound other listed).allowed c inside
  have unmarked : ((e :: more).flatMap Entry.text).head? ≠ some '\ufeff' := by
    rw [List.flatMap_cons]
    exact own.unmarked _
  have read := tokens?_of_reaches unmarked allowed (toWord.trans toEnd) atEnd
  rw [parse?, read]
  exact documents?_tokens _

end HexAtlas.Yaml
