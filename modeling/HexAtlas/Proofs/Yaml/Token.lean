import HexAtlas.Proofs.Yaml.Quoted
import HexAtlas.Yaml.Token

namespace HexAtlas.Yaml

namespace Cursor

theorem after_of_inline {cs : List Char} (inline : ∀ c ∈ cs, isBreak c = false) (line column : Nat)
    (rest : List Char) : after line column (cs ++ rest) = after line (column + cs.length) rest := by
  induction cs generalizing column with
  | nil => rfl
  | cons c more ih =>
    have own : isBreak c = false := inline c List.mem_cons_self
    rw [List.cons_append, after.eq_3 line column c (more ++ rest) (by rintro _ rfl; cases own), own,
      if_neg Bool.false_ne_true, ih (fun d member => inline d (List.mem_cons_of_mem c member)), List.length_cons,
      Nat.add_assoc, Nat.add_comm 1]

theorem moveTo_of_append {c : Cursor} {passed rest : List Char} (h : c.rest = passed ++ rest) :
    c.moveTo rest = ⟨rest, c.index + passed.length, (after c.line c.column passed).1,
      (after c.line c.column passed).2⟩ := by
  have taken : c.rest.take (c.rest.length - rest.length) = passed := by
    rw [h, List.length_append, Nat.add_sub_cancel, List.take_left']
    rfl
  rw [moveTo, taken]

theorem moveTo_inline {c : Cursor} {passed rest : List Char} (h : c.rest = passed ++ rest)
    (inline : ∀ d ∈ passed, isBreak d = false) :
    c.moveTo rest = ⟨rest, c.index + passed.length, c.line, c.column + passed.length⟩ := by
  have place := after_of_inline inline c.line c.column []
  rw [List.append_nil] at place
  rw [moveTo_of_append h, place]
  rfl

theorem line_le_after (cs : List Char) (line column : Nat) : line ≤ (after line column cs).1 := by
  fun_induction after line column cs with
  | case1 => exact Nat.le_refl _
  | case2 line column rest ih => omega
  | case3 line column c rest _ _ ih => omega
  | case4 line column c rest _ _ ih => exact ih

theorem line_le_moveTo (c : Cursor) (rest : List Char) : c.line ≤ (c.moveTo rest).line := line_le_after _ _ _

theorem moveTo_line {c : Cursor} {passed rest : List Char} (h : c.rest = passed ++ '\n' :: rest)
    (inline : ∀ d ∈ passed, isBreak d = false) :
    c.moveTo rest = ⟨rest, c.index + passed.length + 1, c.line + 1, 0⟩ := by
  have shape : c.rest = (passed ++ ['\n']) ++ rest := by simp [h]
  rw [moveTo_of_append shape, after_of_inline inline, List.length_append]
  rfl

end Cursor

def Item.token? : Item → Option Token
  | token t => some t
  | slot _ => none

@[simp] theorem Item.token?_token (t : Token) : (token t).token? = some t := rfl

@[simp] theorem Item.token?_slot (n : Nat) : (slot n).token? = none := rfl

/-- A slot is filled only where it is. -/
theorem Item.flatMap_of_slot_not_mem {items : List Item} {n : Nat} (unused : slot n ∉ items) (filling : List Item) :
    items.flatMap (fun i => if i = slot n then filling else [i]) = items := by
  have each : ∀ i ∈ items, (if i = slot n then filling else [i]) = [i] := by
    rintro i member
    exact if_neg (by rintro rfl; exact unused member)
  rw [List.flatMap_def, List.map_congr_left each, ← List.flatMap_def, List.flatMap_singleton']

/-- Neither blank nor the start of a comment. -/
def isVisible (c : Char) : Bool := !isSpace c && !isBreak c && c ≠ '#' && c ≠ '\ufeff'

/-- The text ends, or a token starts here. -/
def StartsToken (cs : List Char) : Prop := ∀ c, cs.head? = some c → isVisible c = true

theorem StartsToken.nil : StartsToken [] := nofun

theorem startsToken_cons {c : Char} (visible : isVisible c = true) (rest : List Char) :
    StartsToken (c :: rest) := by
  intro d atHead
  cases atHead
  exact visible

theorem ne_of_isAlphanum {c d : Char} (h : c.isAlphanum = true) (other : d.isAlphanum = false) : c ≠ d := by
  rintro rfl
  rw [h] at other
  cases other

theorem isVisible_of_isAlphanum {c : Char} (h : c.isAlphanum = true) : isVisible c = true := by
  have other : ∀ d : Char, d.isAlphanum = false → c ≠ d := fun d => ne_of_isAlphanum h
  simp [isVisible, isSpace, isBreak, other ' ' rfl, other '\t' rfl, other '\n' rfl, other '\r' rfl,
    other '\u0085' (by decide), other '\u2028' (by decide), other '\u2029' (by decide), other '#' rfl,
    other '\ufeff' (by decide)]

/-- The ends of lines, each with a comment or nothing before it. -/
def lineFeeds (comments : List (List Char)) : List Char := comments.flatMap (· ++ ['\n'])

/-- What may stand on a line without a token. -/
structure IsComment (cs : List Char) : Prop where
  inline : ∀ c ∈ cs, isBreak c = false
  marked : ∀ c, cs.head? = some c → c = '#'

theorem IsComment.nil : IsComment [] := ⟨List.forall_mem_nil _, nofun⟩

theorem length_le_lineFeeds (comments : List (List Char)) : comments.length ≤ (lineFeeds comments).length := by
  induction comments with
  | nil => exact Nat.le_refl _
  | cons comment more ih =>
    simp only [lineFeeds, List.flatMap_cons, List.length_append, List.length_cons] at ih ⊢
    omega

/-- A sequence as lines, one for each text. -/
def itemLines (texts : List (List Char)) : List Char :=
  texts.flatMap fun text => ' ' :: ' ' :: '-' :: ' ' :: '"' :: (text ++ ['"', '\n'])

def itemTokens (texts : List (List Char)) : List Token :=
  texts.flatMap fun text => [.blockEntry, .scalar false (String.ofList text)]

theorem isInline_of_isPlainChar {word : List Char} (solid : ∀ c ∈ word, isPlainChar c = true) :
    ∀ c ∈ word, isBreak c = false := by
  intro c member
  have plain := solid c member
  simp only [isPlainChar, Bool.and_eq_true, Bool.not_eq_true'] at plain
  exact plain.1.2

namespace Scanner

/-- The tokens so far. -/
def emitted (s : Scanner) : List Token := s.items.reverse.filterMap Item.token?

/-- The scanner before its next token. -/
def arrive? (s : Scanner) : Option Scanner :=
  (s.toNext (s.cursor.rest.length + 1)).dropStale?.map fun s => s.unroll s.cursor.column

theorem run?_succ (fuel : Nat) (s : Scanner) : s.run? (fuel + 1) = s.arrive?.bind fun t =>
    match t.cursor.rest with
    | [] => (t.unroll (-1)).dropCandidate?
    | c :: rest => (t.token? c rest).bind (run? fuel) := by
  rw [run?, arrive?]
  cases (s.toNext (s.cursor.rest.length + 1)).dropStale? <;> rfl

/-- The run from one place comes by the other, with a step for each character at most. -/
def Reaches (s t : Scanner) : Prop :=
  ∃ steps, steps + t.cursor.rest.length ≤ s.cursor.rest.length ∧ ∀ fuel, s.run? (fuel + steps) = t.run? fuel

theorem Reaches.refl (s : Scanner) : s.Reaches s := ⟨0, by omega, fun _ => rfl⟩

theorem Reaches.trans {s t u : Scanner} (first : s.Reaches t) (second : t.Reaches u) : s.Reaches u := by
  obtain ⟨k, fewer, run⟩ := first
  obtain ⟨l, fewer', run'⟩ := second
  refine ⟨l + k, by omega, fun fuel => ?_⟩
  rw [← Nat.add_assoc, run, run']

theorem reaches_of_token? {s t u : Scanner} {c : Char} {rest : List Char} (arrives : s.arrive? = some t)
    (atHand : t.cursor.rest = c :: rest) (read : t.token? c rest = some u)
    (shorter : u.cursor.rest.length < s.cursor.rest.length) : s.Reaches u := by
  refine ⟨1, by omega, fun fuel => ?_⟩
  rw [run?_succ, arrives, Option.bind_some, atHand]
  simp only [read, Option.bind_some]

/-- What lies before the next token may be passed beforehand. -/
theorem reaches_of_arrive? {s t : Scanner} (arrives : s.arrive? = some t) (arrived : t.arrive? = some t)
    (shorter : t.cursor.rest.length ≤ s.cursor.rest.length) : s.Reaches t := by
  refine ⟨0, by omega, fun fuel => ?_⟩
  cases fuel with
  | zero => rfl
  | succ fuel => rw [Nat.add_zero, run?_succ, run?_succ, arrives, arrived]

theorem toNext_spaces {s : Scanner} {n : Nat} {rest : List Char}
    (atHand : s.cursor.rest = List.replicate n ' ' ++ rest) (stops : StartsToken rest) (fuel : Nat) :
    s.toNext (fuel + 1) =
      { s with cursor := ⟨rest, s.cursor.index + n, s.cursor.line, s.cursor.column + n⟩ } := by
  have outside : ∀ c, rest.head? = some c → c ≠ ' ' ∧ c ≠ '\t' ∧ isBreak c = false ∧ c ≠ '#' ∧ c ≠ '\ufeff' := by
    intro c atHead
    have visible := stops c atHead
    simp only [isVisible, isSpace, Bool.and_eq_true, Bool.not_eq_true', Bool.or_eq_false_iff, decide_eq_true_eq,
      decide_eq_false_iff_not] at visible
    obtain ⟨⟨⟨⟨space, tab⟩, line⟩, comment⟩, mark⟩ := visible
    exact ⟨space, tab, line, comment, mark⟩
  have noMark : s.cursor.rest.head? ≠ some '\ufeff' := by
    rw [atHand]
    cases n with
    | zero => exact fun atHead => (outside _ atHead).2.2.2.2 rfl
    | succ n => simp [List.replicate_succ]
  have noComment : rest.head? ≠ some '#' := fun atHead => (outside _ atHead).2.2.2.1 rfl
  have noBreak : takeBreak? rest = none := by
    cases rest with
    | nil => rfl
    | cons c more =>
      have line := (outside c rfl).2.2.1
      rw [takeBreak?.eq_2 c more (by rintro _ rfl; cases line), line]
      rfl
  have moved := Cursor.moveTo_inline atHand (by simp [isBreak])
  rw [List.length_replicate] at moved
  have dropped : ∀ blank : Char → Bool, blank ' ' = true → (∀ c, c ≠ ' ' → c ≠ '\t' → blank c = false) →
      s.cursor.rest.dropWhile blank = rest := by
    intro blank isBlank others
    rw [atHand, List.dropWhile_append_of_pos (by simpa using fun _ => isBlank)]
    exact dropWhile_eq_self fun c atHead => others c (outside c atHead).1 (outside c atHead).2.1
  rw [toNext]
  simp only [noMark, decide_false, Bool.and_false, Bool.false_eq_true, if_false]
  rw [dropped _ (by simp) (by simp +contextual)]
  simp [noComment, noBreak, moved]

/-- A line feed, or a comment with one. -/
theorem toNext_line {s : Scanner} {comment rest : List Char} (atHand : s.cursor.rest = comment ++ '\n' :: rest)
    (inline : ∀ c ∈ comment, isBreak c = false) (marked : ∀ c, comment.head? = some c → c = '#')
    (block : s.around = []) (fuel : Nat) :
    s.toNext (fuel + 1) = Scanner.toNext { s with
      cursor := ⟨rest, s.cursor.index + comment.length + 1, s.cursor.line + 1, 0⟩
      keyAllowed := true } fuel := by
  have noMark : s.cursor.rest.head? ≠ some '\ufeff' := by
    rw [atHand]
    cases comment with
    | nil => simp
    | cons c more =>
      rw [marked c rfl]
      simp
  have kept : ∀ blank : Char → Bool, blank '#' = false → blank '\n' = false →
      s.cursor.rest.dropWhile blank = s.cursor.rest := by
    intro blank ends ends'
    refine dropWhile_eq_self fun c atHead => ?_
    rw [atHand] at atHead
    cases comment with
    | nil =>
      cases atHead
      exact ends'
    | cons d more =>
      cases atHead
      rw [marked _ rfl]
      exact ends
  have passed : (if s.cursor.rest.head? = some '#' then s.cursor.rest.dropWhile fun c => !isBreak c
      else s.cursor.rest) = '\n' :: rest := by
    rw [atHand]
    cases comment with
    | nil => rfl
    | cons c more =>
      have dropped : (c :: more ++ '\n' :: rest).dropWhile (fun c => !isBreak c) = '\n' :: rest :=
        (run_append (fun c member => by simp [inline c member]) fun d atHead => by cases atHead; rfl).2
      rw [dropped, List.cons_append, List.head?_cons, marked c rfl, if_pos rfl]
  have found : takeBreak? ('\n' :: rest) = some ('\n', rest) := by
    rw [takeBreak?.eq_2 '\n' rest (by rintro _ h; cases h)]
    rfl
  have moved := Cursor.moveTo_line atHand inline
  rw [toNext]
  simp only [noMark, decide_false, Bool.and_false, Bool.false_eq_true, if_false]
  rw [kept _ (by simp) (by simp), passed, found]
  simp [moved, inFlow, block]

theorem toNext_lines {s : Scanner} {comments : List (List Char)} {n : Nat} {rest : List Char}
    (atHand : s.cursor.rest = lineFeeds comments ++ (List.replicate n ' ' ++ rest)) (nonempty : comments ≠ [])
    (each : ∀ comment ∈ comments, IsComment comment) (stops : StartsToken rest) (block : s.around = []) {fuel : Nat}
    (enough : comments.length < fuel) :
    ∃ index, s.toNext fuel = { s with
      cursor := ⟨rest, index, s.cursor.line + comments.length, n⟩
      keyAllowed := true } := by
  induction comments generalizing s fuel with
  | nil => exact absurd rfl nonempty
  | cons comment more ih =>
    obtain ⟨fuel, rfl⟩ : ∃ k, fuel = k + 1 := ⟨fuel - 1, by omega⟩
    have own := each comment List.mem_cons_self
    have line : s.cursor.rest = comment ++ '\n' :: (lineFeeds more ++ (List.replicate n ' ' ++ rest)) := by
      rw [atHand]
      simp [lineFeeds]
    rw [toNext_line line own.inline own.marked block]
    by_cases last : more = []
    · obtain ⟨fuel, rfl⟩ : ∃ k, fuel = k + 1 := ⟨fuel - 1, by simp only [List.length_cons] at enough; omega⟩
      subst last
      rw [toNext_spaces rfl stops]
      exact ⟨s.cursor.index + comment.length + 1 + n, by simp⟩
    · obtain ⟨index, read⟩ := ih (s := { s with
        cursor := ⟨lineFeeds more ++ (List.replicate n ' ' ++ rest), s.cursor.index + comment.length + 1,
          s.cursor.line + 1, 0⟩
        keyAllowed := true }) rfl last (fun other member => each other (List.mem_cons_of_mem comment member)) block
        (by simpa using enough)
      rw [read]
      exact ⟨index, by simp [Nat.add_assoc, Nat.add_comm 1]⟩

theorem dropStale?_of_fresh {s : Scanner} (block : s.around = [])
    (fresh : ∀ k, s.candidate = some k → s.isStale k = false) : s.dropStale? = some s := by
  obtain ⟨cursor, items, slots, indent, outer, keyAllowed, candidate, around⟩ := s
  obtain rfl : around = [] := block
  cases candidate with
  | none => rfl
  | some k =>
    have kept := fresh k rfl
    simp [dropStale?, kept]

/-- A candidate that is out of date and need not be a key is forgotten. -/
theorem dropStale?_of_stale {s : Scanner} (block : s.around = [])
    (stale : ∀ k, s.candidate = some k → k.required = false ∧ s.isStale k = true) :
    s.dropStale? = some { s with candidate := none } := by
  obtain ⟨cursor, items, slots, indent, outer, keyAllowed, candidate, around⟩ := s
  obtain rfl : around = [] := block
  cases candidate with
  | none => rfl
  | some k =>
    obtain ⟨free, gone⟩ := stale k rfl
    simp [dropStale?, free, gone]

theorem unroll_of_le {s : Scanner} {column : Int} (inside : s.indent ≤ column) : s.unroll column = s := by
  have closed : ∀ items outer, unroll.close column items s.indent outer = (items, s.indent, outer) := by
    intro items outer
    cases outer with
    | nil => rfl
    | cons next rest => rw [unroll.close, if_neg (by omega)]
  unfold unroll
  rw [closed]
  split <;> rfl

theorem unroll_of_lt {s : Scanner} {column : Int} (next : Int) (around : List Int) (outside : column < s.indent)
    (outer : s.outer = next :: around) (inside : next ≤ column) (block : s.around = []) :
    s.unroll column = { s with items := .token .blockEnd :: s.items, indent := next, outer := around } := by
  have closed : ∀ items, unroll.close column items next around = (items, next, around) := by
    intro items
    cases around with
    | nil => rfl
    | cons further rest => rw [unroll.close, if_neg (by omega)]
  rw [unroll, outer, unroll.close, if_pos outside, closed]
  simp [inFlow, block]

/-- The next token on the same line. -/
theorem arrive?_spaces {s : Scanner} {n : Nat} {rest : List Char}
    (atHand : s.cursor.rest = List.replicate n ' ' ++ rest) (stops : StartsToken rest) (block : s.around = [])
    (fresh : ∀ k, s.candidate = some k → k.line = s.cursor.line ∧ s.cursor.index + n ≤ k.index + 1024)
    (inside : s.indent ≤ s.cursor.column + n) :
    s.arrive? =
      some { s with cursor := ⟨rest, s.cursor.index + n, s.cursor.line, s.cursor.column + n⟩ } := by
  rw [arrive?, toNext_spaces atHand stops, dropStale?_of_fresh, Option.map_some, unroll_of_le]
  · simpa using inside
  · exact block
  · intro k held
    obtain ⟨line, near⟩ := fresh k held
    simp only [isStale, Bool.or_eq_false_iff, decide_eq_false_iff_not]
    omega

theorem arrive?_self {s : Scanner} (stops : StartsToken s.cursor.rest) (block : s.around = [])
    (fresh : ∀ k, s.candidate = some k → k.line = s.cursor.line ∧ s.cursor.index ≤ k.index + 1024)
    (inside : s.indent ≤ s.cursor.column) : s.arrive? = some s :=
  arrive?_spaces (n := 0) rfl stops block fresh (by simpa using inside)

/-- The first token of a later line. -/
theorem arrive?_lines {s : Scanner} {comments : List (List Char)} {n : Nat} {rest : List Char}
    (atHand : s.cursor.rest = lineFeeds comments ++ (List.replicate n ' ' ++ rest)) (nonempty : comments ≠ [])
    (each : ∀ comment ∈ comments, IsComment comment) (stops : StartsToken rest) (block : s.around = [])
    (past : ∀ k, s.candidate = some k → k.required = false ∧ k.line ≤ s.cursor.line) :
    ∃ index, s.arrive? = some (unroll { s with
      cursor := ⟨rest, index, s.cursor.line + comments.length, n⟩
      keyAllowed := true
      candidate := none } n) := by
  have enough : comments.length < s.cursor.rest.length + 1 := by
    have feeds := length_le_lineFeeds comments
    rw [atHand, List.length_append]
    omega
  obtain ⟨index, read⟩ := toNext_lines atHand nonempty each stops block enough
  refine ⟨index, ?_⟩
  rw [arrive?, read, dropStale?_of_stale]
  · rfl
  · exact block
  · intro k held
    obtain ⟨optional, early⟩ := past k held
    have lines : 0 < comments.length := List.length_pos_iff.mpr nonempty
    simp only [isStale, Bool.or_eq_true, decide_eq_true_eq]
    exact ⟨optional, Or.inl (by omega)⟩

/-- A letter or a digit starts a plain scalar. -/
theorem token?_of_isAlphanum {c : Char} (h : c.isAlphanum = true) (s : Scanner) (rest : List Char) :
    s.token? c rest = s.plainScalar? := by
  have other : ∀ d : Char, d.isAlphanum = false → c ≠ d := fun d => ne_of_isAlphanum h
  have noMark : isDocumentMark (c :: rest) = false := by
    unfold isDocumentMark
    split <;> simp_all
  simp [token?, noMark, other '%' rfl, other '[' rfl, other '\x7b' rfl, other ']' rfl, other '\x7d' rfl,
    other ',' rfl,
    other '-' rfl, other '?' rfl, other ':' rfl, other '*' rfl, other '&' rfl, other '!' rfl, other '|' rfl,
    other '>' rfl, other '\'' rfl, other '"' rfl, other '#' rfl, other '@' rfl, other '\x60' rfl, other '\t' rfl]

/-- A word before a colon waits for it. -/
theorem plainScalar?_key {s : Scanner} {word rest : List Char} (atHand : s.cursor.rest = word ++ ':' :: rest)
    (solid : ∀ c ∈ word, isPlainChar c = true) (ends : wordEnds rest = true) (block : s.around = [])
    (allowed : s.keyAllowed = true) (free : s.candidate = none) :
    s.plainScalar? = some { s with
      cursor := ⟨':' :: rest, s.cursor.index + word.length, s.cursor.line, s.cursor.column + word.length⟩
      items := .token (.scalar true (String.ofList word)) :: .slot s.slots :: s.items
      slots := s.slots + 1
      keyAllowed := false
      candidate :=
        some ⟨s.slots, s.indent = s.cursor.column, s.cursor.line, s.cursor.column, s.cursor.index⟩ } := by
  have moved := Cursor.moveTo_inline atHand (isInline_of_isPlainChar solid)
  simp [plainScalar?, saveCandidate?, dropCandidate?, allowed, free, inFlow, block, atHand,
    plain?_key solid ends, push, allowKey, moved]

/-- A word behind a colon ends with its line. -/
theorem plainScalar?_value {s : Scanner} {word rest : List Char} (atHand : s.cursor.rest = word ++ '\n' :: rest)
    (solid : ∀ c ∈ word, isPlainChar c = true) (next : StartsSolid rest) (block : s.around = [])
    (forbidden : s.keyAllowed = false) (nested : 0 ≤ s.indent) :
    s.plainScalar? = some { s with
      cursor := ⟨rest, s.cursor.index + word.length + 1, s.cursor.line + 1, 0⟩
      items := .token (.scalar true (String.ofList word)) :: s.items
      keyAllowed := true } := by
  have moved := Cursor.moveTo_line atHand (isInline_of_isPlainChar solid)
  have inner : 0 < s.indent + 1 := by omega
  simp [plainScalar?, saveCandidate?, forbidden, inFlow, block, atHand, plain?_line solid next inner, push,
    allowKey, moved]

/-- The colon makes the word before it a key. The first key of a mapping opens it. -/
theorem value?_of_candidate {s : Scanner} {k : Candidate} {word : Token} {old : List Item} {rest : List Char}
    (atHand : s.cursor.rest = ':' :: rest) (held : s.candidate = some k)
    (items : s.items = .token word :: .slot k.slot :: old) (unused : ∀ n, .slot n ∈ old → n < k.slot)
    (block : s.around = []) :
    s.value? = some { s with
      cursor := ⟨rest, s.cursor.index + 1, s.cursor.line, s.cursor.column + 1⟩
      items := .token .value :: .token word ::
        (if s.indent < k.column then [.token .key, .token .blockMapping] else [.token .key]) ++ old
      indent := if s.indent < k.column then k.column else s.indent
      outer := if s.indent < k.column then s.indent :: s.outer else s.outer
      keyAllowed := false
      candidate := none } := by
  have moved : s.cursor.skip 1 = ⟨rest, s.cursor.index + 1, s.cursor.line, s.cursor.column + 1⟩ := by
    rw [Cursor.skip, atHand]
    exact Cursor.moveTo_inline (show s.cursor.rest = [':'] ++ rest from atHand) (by simp [isBreak])
  have others : ∀ filling : List Item, old.flatMap (fun i => if i = .slot k.slot then filling else [i]) = old :=
    fun filling => Item.flatMap_of_slot_not_mem (fun member => absurd (unused _ member) (Nat.lt_irrefl _)) filling
  by_cases opens : s.indent < k.column
  · simp [value?, held, inFlow, block, opens, items, others, allowKey, mark, push, Scanner.skip, moved]
  · simp [value?, held, inFlow, block, opens, items, others, allowKey, mark, push, Scanner.skip, moved]

theorem blockEntry?_of_free {s : Scanner} {rest : List Char} (atHand : s.cursor.rest = '-' :: rest)
    (block : s.around = []) (allowed : s.keyAllowed = true) (free : s.candidate = none) :
    s.blockEntry? = some { s with
      cursor := ⟨rest, s.cursor.index + 1, s.cursor.line, s.cursor.column + 1⟩
      items := .token .blockEntry ::
        (if s.cursor.column ≤ s.indent then [] else [.token .blockSequence]) ++ s.items
      indent := if s.cursor.column ≤ s.indent then s.indent else s.cursor.column
      outer := if s.cursor.column ≤ s.indent then s.outer else s.indent :: s.outer } := by
  have moved : s.cursor.skip 1 = ⟨rest, s.cursor.index + 1, s.cursor.line, s.cursor.column + 1⟩ := by
    rw [Cursor.skip, atHand]
    exact Cursor.moveTo_inline (show s.cursor.rest = ['-'] ++ rest from atHand) (by simp [isBreak])
  by_cases inner : s.cursor.column ≤ s.indent
  · simp [ blockEntry?, allowed, roll, inFlow, block, inner, dropCandidate?, free, allowKey, mark, push,
      Scanner.skip, moved]
  · simp [ blockEntry?, allowed, roll, inFlow, block, inner, dropCandidate?, free, allowKey, mark, push,
      Scanner.skip, moved]

/-- A text between quotes is a candidate for a key, like any other word. -/
theorem token?_quote {s : Scanner} {cs text rest : List Char}
    (read : quoted? '"' (s.cursor.column + 1) cs = some (text, rest))
    (block : s.around = []) (allowed : s.keyAllowed = true) (free : s.candidate = none) :
    s.token? '"' cs = some { s with
      cursor := s.cursor.moveTo rest
      items := .token (.scalar false (String.ofList text)) :: .slot s.slots :: s.items
      slots := s.slots + 1
      keyAllowed := false
      candidate :=
        some ⟨s.slots, s.indent = s.cursor.column, s.cursor.line, s.cursor.column, s.cursor.index⟩ } := by
  simp [token?, isDocumentMark, read, word?, saveCandidate?, allowed, dropCandidate?, free, inFlow, block, allowKey,
    push]

/-- A place outside of brackets: the tokens up to it, the open blocks and the rest of the text. -/
structure Standing (s : Scanner) (tokens : List Token) (indent : Int) (outer : List Int) (rest : List Char) :
    Prop where
  emitted : s.emitted = tokens
  fresh : ∀ n, Item.slot n ∈ s.items → n < s.slots
  indent : s.indent = indent
  outer : s.outer = outer
  block : s.around = []
  rest : s.cursor.rest = rest

/-- A place where a key may stand: at the first word of a line and behind a dash. -/
structure KeyPlace (s : Scanner) (tokens : List Token) (indent : Int) (outer : List Int) (column : Nat)
    (rest : List Char) : Prop extends Standing s tokens indent outer rest where
  column : s.cursor.column = column
  allowed : s.keyAllowed = true
  free : s.candidate = none

/-- Behind a word at the start of a line, which a colon follows. -/
structure AfterWord (s : Scanner) (tokens : List Token) (word : Token) (indent : Int) (outer : List Int)
    (rest : List Char) (k : Candidate) (old : List Item) : Prop where
  items : s.items = .token word :: .slot k.slot :: old
  emitted : old.reverse.filterMap Item.token? = tokens
  unused : ∀ n, Item.slot n ∈ old → n < k.slot
  slots : s.slots = k.slot + 1
  indent : s.indent = indent
  outer : s.outer = outer
  block : s.around = []
  rest : s.cursor.rest = ':' :: rest
  held : s.candidate = some k
  start : k.column = 0
  near : k.line = s.cursor.line ∧ s.cursor.index ≤ k.index + 1024
  inside : 0 < s.cursor.column

/-- Behind the colon of a key. -/
structure AfterKey (s : Scanner) (tokens : List Token) (rest : List Char) : Prop
    extends Standing s tokens 0 [-1] rest where
  inside : 0 < s.cursor.column
  forbidden : s.keyAllowed = false
  free : s.candidate = none

/-- Before the line feed of a line whose last word is no key. -/
structure LineEnd (s : Scanner) (tokens : List Token) (indent : Int) (outer : List Int) (rest : List Char) : Prop
    extends Standing s tokens indent outer ('\n' :: rest) where
  past : ∀ k, s.candidate = some k → k.required = false ∧ k.line ≤ s.cursor.line

variable {s : Scanner} {tokens : List Token} {rest : List Char}

theorem AfterKey.lineEnd (h : s.AfterKey tokens ('\n' :: rest)) : s.LineEnd tokens 0 [-1] rest :=
  ⟨h.toStanding, by simp [h.free]⟩

theorem KeyPlace.word {indent : Int} {outer : List Int} {c : Char} {word : List Char}
    (h : s.KeyPlace tokens indent outer 0 (c :: word ++ ':' :: rest)) (nested : indent ≤ 0)
    (start : c.isAlphanum = true) (solid : ∀ d ∈ c :: word, isPlainChar d = true) (short : word.length < 1024)
    (ends : wordEnds rest = true) :
    ∃ t k old, s.Reaches t ∧ t.AfterWord tokens (.scalar true (String.ofList (c :: word))) indent outer rest k
      old := by
  have arrives :=
    arrive?_self (h.rest ▸ startsToken_cons (isVisible_of_isAlphanum start) _) h.block (by simp [h.free])
    (by rw [h.indent, h.column]; exact nested)
  have read := plainScalar?_key h.rest solid ends h.block h.allowed h.free
  rw [← token?_of_isAlphanum start] at read
  refine ⟨_, ⟨s.slots, s.indent = s.cursor.column, s.cursor.line, s.cursor.column, s.cursor.index⟩, s.items,
    reaches_of_token? arrives h.rest read ?_, ?_⟩
  · rw [h.rest]
    simp only [List.length_append, List.length_cons]
    omega
  exact {
    items := rfl
    emitted := h.emitted
    unused := h.fresh
    slots := rfl
    indent := h.indent
    outer := h.outer
    block := h.block
    rest := rfl
    held := rfl
    start := h.column
    near := ⟨rfl, by simp only [List.length_cons]; omega⟩
    inside := by
      simp only [List.length_cons]
      omega }

/-- The first key of a mapping opens it. -/
theorem AfterWord.colon {word : Token} {first : Bool} {k : Candidate} {old : List Item}
    (h : s.AfterWord tokens word (if first then -1 else 0) (if first then [] else [-1]) rest k old)
    (ends : wordEnds rest = true) :
    ∃ t, s.Reaches t ∧
      t.AfterKey (tokens ++ (if first then [.blockMapping] else []) ++ [.key, word, .value]) rest := by
  have nested : s.indent ≤ s.cursor.column := by
    rw [h.indent]
    split <;> omega
  have arrives := arrive?_self (h.rest ▸ startsToken_cons (by decide) _) h.block (by simp [h.held, h.near]) nested
  have read := value?_of_candidate h.rest h.held h.items h.unused h.block
  have colon : s.token? ':' rest = s.value? := by
    have inside : s.cursor.column ≠ 0 := by have := h.inside; omega
    simp [token?, inside, ends]
  rw [← colon] at read
  refine ⟨_, reaches_of_token? arrives h.rest read (by rw [h.rest]; exact Nat.lt_succ_self _), ?_⟩
  have opens : s.indent < k.column ↔ first = true := by
    rw [h.indent, h.start]
    cases first <;> simp
  have slots := h.slots
  refine ⟨⟨?_, ?_, ?_, ?_, h.block, rfl⟩, Nat.succ_pos _, rfl, rfl⟩
  · simp only [Scanner.emitted, opens, ← h.emitted]
    cases first <;> simp
  · intro n member
    have listed : Item.slot n ∈ old := by
      simp only [opens] at member
      cases first <;> simpa using member
    have := h.unused n listed
    simp only [slots]
    omega
  · simp only [h.indent, h.start]
    cases first <;> rfl
  · simp only [h.indent, h.outer, h.start]
    cases first <;> rfl

theorem AfterKey.arrive (h : s.AfterKey tokens (' ' :: rest)) (stops : StartsToken rest) :
    ∃ t, s.arrive? = some t ∧ t.AfterKey tokens rest := by
  have arrives := arrive?_spaces (n := 1) h.rest stops h.block (by simp [h.free]) (by rw [h.indent]; omega)
  exact ⟨_, arrives, ⟨h.emitted, h.fresh, h.indent, h.outer, h.block, rfl⟩, Nat.succ_pos _, h.forbidden, h.free⟩

/-- A plain value ends its line. -/
theorem AfterKey.value {c : Char} {word : List Char} (h : s.AfterKey tokens (' ' :: (c :: word ++ '\n' :: rest)))
    (start : c.isAlphanum = true) (solid : ∀ d ∈ c :: word, isPlainChar d = true) (next : StartsSolid rest) :
    ∃ t, s.Reaches t ∧ t.KeyPlace (tokens ++ [.scalar true (String.ofList (c :: word))]) 0 [-1] 0 rest := by
  obtain ⟨t, arrives, at'⟩ := h.arrive (startsToken_cons (isVisible_of_isAlphanum start) _)
  have read := plainScalar?_value at'.rest solid next at'.block at'.forbidden (Int.le_of_eq at'.indent.symm)
  rw [← token?_of_isAlphanum start] at read
  refine ⟨_, reaches_of_token? arrives at'.rest read ?_, ?_⟩
  · rw [h.rest]
    simp only [List.length_append, List.length_cons]
    omega
  refine ⟨⟨?_, fun n member => at'.fresh n (by simpa using member), at'.indent, at'.outer, at'.block, rfl⟩,
    rfl, rfl, at'.free⟩
  rw [← at'.emitted]
  simp [Scanner.emitted]

/-- A key and its colon. -/
theorem KeyPlace.key {first : Bool} {c : Char} {key : List Char}
    (h : s.KeyPlace tokens (if first then -1 else 0) (if first then [] else [-1]) 0 (c :: key ++ ':' :: rest))
    (start : c.isAlphanum = true) (solid : ∀ a ∈ c :: key, isPlainChar a = true) (short : key.length < 1024)
    (ends : wordEnds rest = true) :
    ∃ t, s.Reaches t ∧ t.AfterKey (tokens ++ (if first then [.blockMapping] else []) ++
      [.key, .scalar true (String.ofList (c :: key)), .value]) rest := by
  obtain ⟨t, k, old, toWord, atWord⟩ := h.word (by split <;> omega) start solid short ends
  obtain ⟨u, toColon, atColon⟩ := atWord.colon ends
  exact ⟨u, toWord.trans toColon, atColon⟩

/-- A line of a mapping: a key and its plain value. -/
theorem KeyPlace.entry {first : Bool} {c d : Char} {key word : List Char}
    (h : s.KeyPlace tokens (if first then -1 else 0) (if first then [] else [-1]) 0
      (c :: key ++ ':' :: ' ' :: (d :: word ++ '\n' :: rest)))
    (start : c.isAlphanum = true) (solid : ∀ a ∈ c :: key, isPlainChar a = true) (short : key.length < 1024)
    (start' : d.isAlphanum = true) (solid' : ∀ a ∈ d :: word, isPlainChar a = true) (next : StartsSolid rest) :
    ∃ t, s.Reaches t ∧ t.KeyPlace (tokens ++ (if first then [.blockMapping] else []) ++
      [.key, .scalar true (String.ofList (c :: key)), .value, .scalar true (String.ofList (d :: word))])
      0 [-1] 0 rest := by
  obtain ⟨t, toColon, atColon⟩ := h.key start solid short rfl
  obtain ⟨u, toValue, atValue⟩ := atColon.value start' solid' next
  refine ⟨u, toColon.trans toValue, ?_⟩
  simpa using atValue

/-- Lines without a token do not count. -/
theorem KeyPlace.skip {indent : Int} {outer : List Int} {comments : List (List Char)}
    (h : s.KeyPlace tokens indent outer 0 (lineFeeds comments ++ rest)) (nested : indent ≤ 0)
    (each : ∀ comment ∈ comments, IsComment comment) (stops : StartsToken rest) :
    ∃ t, s.Reaches t ∧ t.KeyPlace tokens indent outer 0 rest := by
  by_cases none : comments = []
  · subst none
    exact ⟨s, .refl s, h⟩
  obtain ⟨index, arrives⟩ := arrive?_lines (n := 0) h.rest none each stops h.block (by simp [h.free])
  rw [unroll_of_le (by simpa [h.indent] using nested)] at arrives
  refine ⟨_, reaches_of_arrive? arrives ?_ ?_, ?_⟩
  · exact arrive?_self stops h.block (by simp) (by simpa [h.indent] using nested)
  · rw [h.rest]
    simp
  · exact ⟨⟨h.emitted, h.fresh, h.indent, h.outer, h.block, rfl⟩, rfl, rfl, rfl⟩

theorem LineEnd.arrive {indent : Int} {outer : List Int} {n : Nat}
    (h : s.LineEnd tokens indent outer (List.replicate n ' ' ++ rest)) (stops : StartsToken rest)
    (nested : indent ≤ n) : ∃ t, s.arrive? = some t ∧ t.KeyPlace tokens indent outer n rest := by
  have line : s.cursor.rest = lineFeeds [[]] ++ (List.replicate n ' ' ++ rest) := h.rest
  obtain ⟨index, arrives⟩ := arrive?_lines line (List.cons_ne_nil _ _)
    (by simpa using IsComment.nil) stops h.block h.past
  rw [unroll_of_le (by simpa [h.indent] using nested)] at arrives
  exact ⟨_, arrives, ⟨h.emitted, h.fresh, h.indent, h.outer, h.block, rfl⟩, rfl, rfl, rfl⟩

/-- The first dash opens a sequence. -/
theorem LineEnd.dash (first : Bool)
    (h : s.LineEnd tokens (if first then 0 else 2) (if first then [-1] else [0, -1]) (' ' :: ' ' :: '-' :: rest))
    (ends : wordEnds rest = true) :
    ∃ t, s.Reaches t ∧
      t.KeyPlace (tokens ++ (if first then [.blockSequence] else []) ++ [.blockEntry]) 2 [0, -1] 3 rest := by
  obtain ⟨t, arrives, at'⟩ := h.arrive (n := 2) (startsToken_cons (by decide) _) (by split <;> decide)
  have read := blockEntry?_of_free at'.rest at'.block at'.allowed at'.free
  have dash : t.token? '-' rest = t.blockEntry? := by simp [token?, at'.column, ends]
  rw [← dash] at read
  have opens : (t.cursor.column : Int) ≤ t.indent ↔ first = false := by
    rw [at'.column, at'.indent]
    cases first <;> simp
  refine ⟨_, reaches_of_token? arrives at'.rest read ?_, ⟨?_, ?_, ?_, ?_, at'.block, rfl⟩, ?_, at'.allowed,
    at'.free⟩
  · rw [h.rest]
    simp only [List.length_cons]
    omega
  · simp only [Scanner.emitted, opens, ← at'.emitted]
    cases first <;> simp
  · intro n member
    refine at'.fresh n ?_
    simp only [opens] at member
    cases first <;> simpa using member
  · simp only [at'.column, at'.indent]
    cases first <;> rfl
  · simp only [at'.column, at'.outer, at'.indent]
    cases first <;> rfl
  · rw [at'.column]

theorem KeyPlace.arrive {indent : Int} {outer : List Int} {column : Nat}
    (h : s.KeyPlace tokens indent outer column (' ' :: rest)) (stops : StartsToken rest)
    (nested : indent ≤ column) : ∃ t, s.arrive? = some t ∧ t.KeyPlace tokens indent outer (column + 1) rest := by
  have arrives := arrive?_spaces (n := 1) h.rest stops h.block (by simp [h.free])
    (by rw [h.indent, h.column]; omega)
  exact ⟨_, arrives, ⟨h.emitted, h.fresh, h.indent, h.outer, h.block, rfl⟩, by simp [h.column], h.allowed, h.free⟩

/-- A quoted text behind a dash stands too far right to have to be a key. -/
theorem KeyPlace.quoted {text : List Char}
    (h : s.KeyPlace tokens 2 [0, -1] 3 (' ' :: '"' :: (text ++ '"' :: '\n' :: rest))) (verbatim : IsVerbatim text) :
    ∃ t, s.Reaches t ∧ t.LineEnd (tokens ++ [.scalar false (String.ofList text)]) 2 [0, -1] rest := by
  obtain ⟨t, arrives, at'⟩ := h.arrive (startsToken_cons (by decide) _) (by decide)
  have text' := verbatim.quoted?_append (Nat.succ_pos t.cursor.column) ('\n' :: rest)
  have read := token?_quote text' at'.block at'.allowed at'.free
  refine ⟨_, reaches_of_token? arrives at'.rest read ?_, ⟨⟨?_, ?_, at'.indent, at'.outer, at'.block, rfl⟩, ?_⟩⟩
  · show ('\n' :: rest).length < s.cursor.rest.length
    rw [h.rest]
    simp only [List.length_cons, List.length_append]
    omega
  · rw [← at'.emitted]
    simp [Scanner.emitted, List.filterMap_cons]
  · intro n member
    have before : Item.slot n = .slot t.slots ∨ Item.slot n ∈ t.items := by simpa using member
    rcases before with same | old
    · cases same
      exact Nat.lt_succ_self _
    · exact Nat.lt_succ_of_lt (at'.fresh n old)
  · rintro k ⟨⟩
    refine ⟨?_, Cursor.line_le_moveTo _ _⟩
    simp only [at'.indent, at'.column]
    decide

/-- An item of a sequence below a key. -/
theorem LineEnd.item (first : Bool) {text : List Char}
    (h : s.LineEnd tokens (if first then 0 else 2) (if first then [-1] else [0, -1])
      (' ' :: ' ' :: '-' :: ' ' :: '"' :: (text ++ '"' :: '\n' :: rest)))
    (verbatim : IsVerbatim text) :
    ∃ t, s.Reaches t ∧ t.LineEnd (tokens ++ (if first then [.blockSequence] else []) ++
      [.blockEntry, .scalar false (String.ofList text)]) 2 [0, -1] rest := by
  obtain ⟨t, toDash, atDash⟩ := h.dash first rfl
  obtain ⟨u, toEnd, atEnd⟩ := atDash.quoted verbatim
  refine ⟨u, toDash.trans toEnd, ?_⟩
  simpa using atEnd

/-- A line that stands further left ends a sequence. -/
theorem LineEnd.close {comments : List (List Char)} (h : s.LineEnd tokens 2 [0, -1] (lineFeeds comments ++ rest))
    (each : ∀ comment ∈ comments, IsComment comment) (stops : StartsToken rest) :
    ∃ t, s.Reaches t ∧ t.KeyPlace (tokens ++ [.blockEnd]) 0 [-1] 0 rest := by
  have lines : s.cursor.rest = lineFeeds ([] :: comments) ++ (List.replicate 0 ' ' ++ rest) := h.rest
  obtain ⟨index, arrives⟩ := arrive?_lines lines (List.cons_ne_nil _ _)
    (by simpa using ⟨IsComment.nil, each⟩) stops h.block h.past
  rw [unroll_of_lt 0 [-1] (by simp [h.indent]) (by exact h.outer) (by simp) (by exact h.block)] at arrives
  refine ⟨_, reaches_of_arrive? arrives ?_ ?_, ⟨?_, ?_, rfl, rfl, h.block, rfl⟩, rfl, rfl, rfl⟩
  · exact arrive?_self stops h.block (by simp) (by simp)
  · rw [h.rest]
    simp
    omega
  · rw [← h.emitted]
    simp [Scanner.emitted]
  · intro n member
    exact h.fresh n (by simpa using member)

theorem LineEnd.items {texts : List (List Char)} (h : s.LineEnd tokens 2 [0, -1] (itemLines texts ++ rest))
    (verbatim : ∀ text ∈ texts, IsVerbatim text) :
    ∃ t, s.Reaches t ∧ t.LineEnd (tokens ++ itemTokens texts) 2 [0, -1] rest := by
  induction texts generalizing s tokens with
  | nil => exact ⟨s, .refl s, by simpa [itemLines, itemTokens] using h⟩
  | cons text more ih =>
    have line : s.LineEnd tokens (if false then 0 else 2) (if false then [-1] else [0, -1])
        (' ' :: ' ' :: '-' :: ' ' :: '"' :: (text ++ '"' :: '\n' :: (itemLines more ++ rest))) := by
      simpa [itemLines] using h
    obtain ⟨t, toNext, next⟩ := line.item false (verbatim text List.mem_cons_self)
    obtain ⟨u, toEnd, atEnd⟩ := ih next fun other member => verbatim other (List.mem_cons_of_mem text member)
    refine ⟨u, toNext.trans toEnd, ?_⟩
    simpa [itemTokens] using atEnd

/-- A key with a sequence below it. -/
theorem KeyPlace.list {first : Bool} {c : Char} {key : List Char} {texts comments : List (List Char)}
    (h : s.KeyPlace tokens (if first then -1 else 0) (if first then [] else [-1]) 0
      (c :: key ++ ':' :: '\n' :: (itemLines texts ++ (lineFeeds comments ++ rest))))
    (start : c.isAlphanum = true) (solid : ∀ a ∈ c :: key, isPlainChar a = true) (short : key.length < 1024)
    (nonempty : texts ≠ []) (verbatim : ∀ text ∈ texts, IsVerbatim text)
    (each : ∀ comment ∈ comments, IsComment comment) (stops : StartsToken rest) :
    ∃ t, s.Reaches t ∧ t.KeyPlace (tokens ++ (if first then [.blockMapping] else []) ++
      [.key, .scalar true (String.ofList (c :: key)), .value, .blockSequence] ++ itemTokens texts ++ [.blockEnd])
      0 [-1] 0 rest := by
  obtain ⟨text, more, rfl⟩ := List.exists_cons_of_ne_nil nonempty
  obtain ⟨u, toColon, atColon⟩ := h.key start solid short rfl
  have below : itemLines (text :: more) ++ (lineFeeds comments ++ rest) = ' ' :: ' ' :: '-' :: ' ' :: '"' ::
      (text ++ '"' :: '\n' :: (itemLines more ++ (lineFeeds comments ++ rest))) := by simp [itemLines]
  have opening := atColon.lineEnd
  rw [below] at opening
  obtain ⟨v, toItem, atItem⟩ := opening.item true (verbatim text List.mem_cons_self)
  obtain ⟨w, toEnd, atEnd⟩ := atItem.items fun other member => verbatim other (List.mem_cons_of_mem text member)
  obtain ⟨x, toLine, atLine⟩ := atEnd.close each stops
  refine ⟨x, ((toColon.trans toItem).trans toEnd).trans toLine, ?_⟩
  simpa [itemTokens] using atLine

/-- The end of the text closes the mapping. -/
theorem KeyPlace.finish (h : s.KeyPlace tokens 0 [-1] 0 []) (fuel : Nat) :
    ∃ t, s.run? (fuel + 1) = some t ∧ t.emitted = tokens ++ [.blockEnd] := by
  have arrives : s.arrive? = some s :=
    arrive?_self (h.rest ▸ .nil) h.block (by simp [h.free]) (by simp [h.indent, h.column])
  have closed : s.unroll (-1) = _ := unroll_of_lt (-1) [] (by simp [h.indent]) h.outer (by simp) h.block
  rw [run?_succ, arrives, Option.bind_some, h.rest]
  refine ⟨_, by rw [closed, dropCandidate?, h.free]; rfl, ?_⟩
  rw [← h.emitted]
  simp [Scanner.emitted]

theorem keyPlace_start (cs : List Char) : (start cs).KeyPlace [] (-1) [] 0 cs :=
  ⟨⟨rfl, nofun, rfl, rfl, rfl, rfl⟩, rfl, rfl, rfl⟩

end Scanner

/-- The tokens of a text whose run ends after the lines of a mapping. -/
theorem tokens?_of_reaches {cs : List Char} {t : Scanner} {tokens : List Token}
    (unmarked : cs.head? ≠ some '\ufeff') (allowed : ∀ c ∈ cs, isAllowed c = true)
    (reaches : (Scanner.start cs).Reaches t) (atEnd : t.KeyPlace tokens 0 [-1] 0 []) :
    tokens? cs = some (tokens ++ [.blockEnd]) := by
  obtain ⟨steps, fewer, run⟩ := reaches
  have enough : cs.length + 2 = (cs.length + 1 - steps) + 1 + steps := by
    have whole : (Scanner.start cs).cursor.rest = cs := rfl
    rw [whole, atEnd.rest] at fewer
    simp only [List.length_nil] at fewer
    omega
  obtain ⟨u, done, emitted⟩ := atEnd.finish (cs.length + 1 - steps)
  rw [← run, ← enough] at done
  have all : cs.all isAllowed = true := List.all_eq_true.mpr allowed
  rw [← emitted, Scanner.emitted]
  simp [tokens?, unmarked, all, done]
  rfl

end HexAtlas.Yaml
