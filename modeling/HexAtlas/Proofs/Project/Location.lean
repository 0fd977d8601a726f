import HexAtlas.Proofs.Text.Pieces
import HexAtlas.Project.Location

namespace HexAtlas
namespace Location

/-- A name that leads from a directory to an entry of it. -/
structure IsName (piece : List Char) : Prop where
  filled : piece ≠ []
  not_here : piece ≠ ['.']
  not_above : piece ≠ ['.', '.']
  unslashed : '/' ∉ piece

instance (piece : List Char) : Decidable (IsName piece) :=
  decidable_of_iff (piece ≠ [] ∧ piece ≠ ['.'] ∧ piece ≠ ['.', '.'] ∧ '/' ∉ piece)
    ⟨fun ⟨filled, here, above, slash⟩ => ⟨filled, here, above, slash⟩, fun h => ⟨h.1, h.2, h.3, h.4⟩⟩

theorem IsName.not_isIdle {piece : List Char} (h : IsName piece) : isIdle piece = false := by
  simp [isIdle, h.filled, h.not_here]

/-- The text that a join puts in front. -/
def lead (l : Location) : List Char :=
  if l.text = [] || l.text.getLast? = some '/' then l.text else l.text ++ ['/']

/-- The pieces that stand before what is joined to a location. -/
def under (l : Location) : List (List Char) :=
  if l.text = [] then []
  else if l.text.getLast? = some '/' then splitAll '/' l.text.dropLast
  else splitAll '/' l.text

theorem text_join (l : Location) {m : Location} (relative : m.isAbsolute = false) :
    (l.join m).text = l.lead ++ m.text := by
  unfold join lead
  rw [relative]
  simp only [Bool.false_eq_true, if_false]
  split
  · rfl
  · rw [List.append_assoc, List.singleton_append]

theorem splitAll_lead (l : Location) (cs : List Char) :
    splitAll '/' (l.lead ++ cs) = l.under ++ splitAll '/' cs := by
  unfold lead under
  by_cases empty : l.text = []
  · simp [empty]
  by_cases ended : l.text.getLast? = some '/'
  · have shape : l.text = l.text.dropLast ++ ['/'] := (List.dropLast_append_getLast? '/' ended).symm
    simp only [empty, ended, if_false, if_true, decide_false, decide_true, Bool.or_true]
    conv => lhs; rw [shape]
    rw [List.append_assoc, List.singleton_append, splitAll_append_cons]
  · simp only [empty, ended, Bool.false_eq_true, if_false, decide_false, Bool.or_false]
    rw [List.append_assoc, List.singleton_append, splitAll_append_cons]

theorem splitAll_join (l : Location) {m : Location} (relative : m.isAbsolute = false) :
    splitAll '/' (l.join m).text = l.under ++ splitAll '/' m.text := by
  rw [text_join l relative, splitAll_lead]

/-- The pieces before a join are those of the location, up to idle ones. -/
theorem filter_under (l : Location) :
    l.under.filter (!isIdle ·) = (splitAll '/' l.text).filter (!isIdle ·) := by
  unfold under
  by_cases empty : l.text = []
  · simp [empty, splitAll, isIdle]
  by_cases ended : l.text.getLast? = some '/'
  · have shape : l.text = l.text.dropLast ++ ['/'] := (List.dropLast_append_getLast? '/' ended).symm
    rw [if_neg empty, if_pos ended]
    conv => rhs; rw [shape, splitAll_append_cons]
    simp [splitAll, isIdle]
  · rw [if_neg empty, if_neg ended]

theorem isAbsolute_join (l : Location) {m : Location} (relative : m.isAbsolute = false) :
    (l.join m).isAbsolute = l.isAbsolute := by
  unfold join
  rw [relative]
  cases text : l.text with
  | nil => simpa [isAbsolute, text] using relative
  | cons c rest =>
    simp only [Bool.false_eq_true, if_false]
    split <;> simp [isAbsolute, text]

theorem isAbsolute_names {first : List Char} (h : IsName first) (rest : List (List Char)) (cs : List Char) :
    isAbsolute ⟨joinPieces (first :: rest) ++ cs⟩ = false := by
  obtain ⟨c, more, rfl⟩ := List.exists_cons_of_ne_nil h.filled
  have other : c ≠ '/' := fun same => h.unslashed (same ▸ List.mem_cons_self)
  cases rest <;> simp [isAbsolute, joinPieces, other]

theorem isAbsolute_joinPieces {names : List (List Char)} (named : ∀ name ∈ names, IsName name) :
    isAbsolute ⟨joinPieces names⟩ = false := by
  cases names with
  | nil => rfl
  | cons first rest => simpa using isAbsolute_names (named first List.mem_cons_self) rest []

theorem isAbsolute_of_isName {piece : List Char} (h : IsName piece) : isAbsolute ⟨piece⟩ = false := by
  simpa [joinPieces] using isAbsolute_names h [] []

theorem splitAll_join_name (l : Location) {piece : List Char} (h : IsName piece) :
    splitAll '/' (l.join ⟨piece⟩).text = l.under ++ [piece] := by
  rw [splitAll_join l (isAbsolute_of_isName h), splitAll_of_not_mem h.unslashed]

theorem splitAll_names {names : List (List Char)} (filled : names ≠ []) (named : ∀ name ∈ names, IsName name) :
    splitAll '/' (joinPieces names) = names :=
  splitAll_intercalate filled fun name member => (named name member).unslashed

theorem joinPieces_append {front back : List (List Char)} (filled : front ≠ []) (more : back ≠ []) :
    joinPieces (front ++ back) = joinPieces front ++ '/' :: joinPieces back := by
  induction front with
  | nil => exact absurd rfl filled
  | cons piece rest ih =>
    unfold joinPieces at *
    cases rest with
    | nil =>
      obtain ⟨next, others, rfl⟩ := List.exists_cons_of_ne_nil more
      rw [List.singleton_append, List.intercalate_cons_cons, List.intercalate_singleton]
      simp
    | cons next others =>
      rw [List.cons_append, List.cons_append, List.intercalate_cons_cons, List.intercalate_cons_cons,
        ← List.cons_append, ih (List.cons_ne_nil _ _)]
      simp

theorem joinPieces_injective {names other : List (List Char)} (filled : names ≠ []) (filled' : other ≠ [])
    (named : ∀ name ∈ names, IsName name) (named' : ∀ name ∈ other, IsName name)
    (same : joinPieces names = joinPieces other) : names = other := by
  rw [← splitAll_names filled named, same, splitAll_names filled' named']

/-- Names that are joined to a location follow its own pieces. -/
theorem splitAll_join_names (l : Location) {names : List (List Char)} (filled : names ≠ [])
    (named : ∀ name ∈ names, IsName name) : splitAll '/' (l.join ⟨joinPieces names⟩).text = l.under ++ names := by
  rw [splitAll_join l (isAbsolute_joinPieces named), splitAll_names filled named]

theorem under_ne_nil {l : Location} (filled : l.text ≠ []) : l.under ≠ [] := by
  unfold under
  rw [if_neg filled]
  split <;> exact splitAll_ne_nil _ _

theorem head?_under {l : Location} (filled : l.text ≠ []) : l.under.head? = (splitAll '/' l.text).head? := by
  unfold under
  rw [if_neg filled]
  split
  · rename_i ended
    conv => rhs; rw [← List.dropLast_append_getLast? '/' ended, splitAll_append_cons]
    rw [List.head?_append_of_ne_nil _ (splitAll_ne_nil _ _)]
  · rfl

theorem mem_of_mem_trimPieces {pieces : List (List Char)} {piece : List Char} (h : piece ∈ trimPieces pieces) :
    piece ∈ pieces :=
  List.mem_reverse.mp ((List.dropWhile_sublist _).mem (List.mem_reverse.mp h))

/-- Pieces that end with one that leads somewhere. -/
theorem trimPieces_concat (pieces : List (List Char)) {piece : List Char} (solid : isIdle piece = false) :
    trimPieces (pieces ++ [piece]) = pieces ++ [piece] := by
  rw [trimPieces, List.reverse_append, List.reverse_singleton, List.singleton_append,
    List.dropWhile_cons_of_neg (by simp [solid]), List.reverse_cons, List.reverse_reverse]

theorem filter_trimPieces (pieces : List (List Char)) :
    (trimPieces pieces).filter (!isIdle ·) = pieces.filter (!isIdle ·) := by
  have dropped : ∀ ps : List (List Char), (ps.dropWhile isIdle).filter (!isIdle ·) = ps.filter (!isIdle ·) := by
    intro ps
    induction ps with
    | nil => rfl
    | cons p rest ih =>
      cases idle : isIdle p with
      | true => simp [idle, ih]
      | false => simp [idle]
  rw [trimPieces, List.filter_reverse, dropped, List.filter_reverse, List.reverse_reverse]

/-- The forms of a location: its front and the pieces after it. -/
theorem parts_cases (l : Location) :
    (∃ rest, l.text = '/' :: rest ∧ l.parts = (['/'], splitAll '/' rest)) ∨
    (l.text = ['.'] ∧ l.parts = (['.'], [])) ∨
    (∃ rest, l.text = '.' :: '/' :: rest ∧ l.parts = (['.'], [] :: splitAll '/' rest)) ∨
    (l.parts = ([], splitAll '/' l.text) ∧ l.text.head? ≠ some '/' ∧ (splitAll '/' l.text).head? ≠ some ['.']) := by
  unfold parts
  split
  · rename_i rest text
    exact Or.inl ⟨rest, text, rfl⟩
  · rename_i text
    exact Or.inr (Or.inl ⟨text, rfl⟩)
  · rename_i rest text
    exact Or.inr (Or.inr (Or.inl ⟨rest, text, rfl⟩))
  · rename_i slash dot below
    refine Or.inr (Or.inr (Or.inr ⟨rfl, ?_, ?_⟩))
    · intro atHead
      obtain ⟨rest, shape⟩ := List.head?_eq_some_iff.mp atHead
      exact slash rest shape
    · intro atHead
      obtain ⟨more, shape⟩ := List.head?_eq_some_iff.mp atHead
      have whole := intercalate_splitAll '/' l.text
      rw [shape] at whole
      cases more with
      | nil => exact dot whole.symm
      | cons next others => exact below _ whole.symm

/-- A location without a front. -/
theorem parts_of_relative {l : Location} (slash : l.text.head? ≠ some '/')
    (dot : (splitAll '/' l.text).head? ≠ some ['.']) : l.parts = ([], splitAll '/' l.text) := by
  rcases l.parts_cases with ⟨rest, text, _⟩ | ⟨text, _⟩ | ⟨rest, text, _⟩ | ⟨parts, _, _⟩
  · exact absurd (by rw [text]; rfl) slash
  · exact absurd (by rw [text]; rfl) dot
  · rw [text, show splitAll '/' ('.' :: '/' :: rest) = ['.'] :: splitAll '/' rest from
      splitAll_append_cons '/' ['.'] rest] at dot
    exact absurd rfl dot
  · exact parts

/-- The pieces of a location end like its text. -/
theorem exists_parts_append {l : Location} {front back : List (List Char)}
    (h : splitAll '/' l.text = front ++ back) (before : front ≠ []) (after : back ≠ []) :
    ∃ pre, l.parts.2 = pre ++ back ∧ pre.filter (!isIdle ·) = front.filter (!isIdle ·) := by
  obtain ⟨first, more, rfl⟩ := List.exists_cons_of_ne_nil before
  rcases l.parts_cases with ⟨rest, text, parts⟩ | ⟨text, _⟩ | ⟨rest, text, parts⟩ | ⟨parts, _, _⟩
  · rw [text, splitAll, if_pos rfl, List.cons_append, List.cons.injEq] at h
    exact ⟨more, by rw [parts, h.2], by rw [← h.1]; simp [isIdle]⟩
  · rw [text] at h
    have single : (splitAll '/' ['.']).length = 1 := by decide
    have filled := List.length_pos_iff.mpr after
    rw [h, List.length_append, List.length_cons] at single
    omega
  · have cut : splitAll '/' ('.' :: '/' :: rest) = ['.'] :: splitAll '/' rest := splitAll_append_cons '/' ['.'] rest
    rw [text, cut, List.cons_append, List.cons.injEq] at h
    exact ⟨[] :: more, by rw [parts, h.2]; rfl, by rw [← h.1]; simp [isIdle]⟩
  · exact ⟨first :: more, by rw [parts, h], rfl⟩

theorem unslashed_of_mem_parts {l : Location} {piece : List Char} (h : piece ∈ l.parts.2) : '/' ∉ piece := by
  unfold parts at h
  split at h
  · exact not_mem_of_mem_splitAll h
  · cases h
  · rcases List.mem_cons.mp h with rfl | later
    · exact List.not_mem_nil
    · exact not_mem_of_mem_splitAll later
  · exact not_mem_of_mem_splitAll h

theorem unslashed_of_fileName? {l : Location} {name : List Char} (h : l.fileName? = some name) : '/' ∉ name :=
  have last := List.mem_of_getLast? (Option.filter_eq_some_iff.mp h).1
  unslashed_of_mem_parts (mem_of_mem_trimPieces last)

theorem fileName?_of_splitAll {l : Location} {front : List (List Char)} {name : List Char} (own : IsName name)
    (before : front ≠ []) (h : splitAll '/' l.text = front ++ [name]) : l.fileName? = some name := by
  obtain ⟨pre, parts, _⟩ := exists_parts_append h before (List.cons_ne_nil _ _)
  rw [fileName?, parts, trimPieces_concat pre own.not_isIdle, List.getLast?_concat]
  simp [own.not_above]

/-- The kind of a file is told by its name alone. -/
theorem ofLocation?_congr {l m : Location} (h : l.fileName? = m.fileName?) :
    SourceKind.ofLocation? l = SourceKind.ofLocation? m := by
  unfold SourceKind.ofLocation?
  rw [h]

theorem isPrefix_trimPieces (pieces : List (List Char)) : trimPieces pieces <+: pieces := by
  have tail := List.dropWhile_suffix isIdle (l := pieces.reverse)
  simpa [trimPieces] using List.reverse_prefix.mpr tail

theorem trimPieces_eq_self {pieces : List (List Char)} (solid : ∀ piece ∈ pieces, isIdle piece = false) :
    trimPieces pieces = pieces := by
  rcases List.eq_nil_or_concat' pieces with rfl | ⟨front, last, rfl⟩
  · rfl
  · exact trimPieces_concat front (solid last (by simp))

/-- What trimming leaves does not end with an idle piece. -/
theorem not_isIdle_of_trimPieces {pieces front : List (List Char)} {last : List Char}
    (h : trimPieces pieces = front ++ [last]) : isIdle last = false := by
  have stop := List.head?_dropWhile_not isIdle pieces.reverse
  have atHead : (pieces.reverse.dropWhile isIdle).head? = some last := by
    rw [← List.reverse_reverse (pieces.reverse.dropWhile isIdle), List.head?_reverse]
    rw [trimPieces] at h
    rw [h, List.getLast?_concat]
  rw [atHead] at stop
  exact stop

theorem parent?_of_parts {l : Location} {pre : List (List Char)} {name : List Char} (h : l.parts.2 = pre ++ [name])
    (solid : isIdle name = false) : l.parent? = some ⟨l.parts.1 ++ joinPieces (trimPieces pre)⟩ := by
  have trimmed := trimPieces_concat pre solid
  rw [← h] at trimmed
  unfold parent?
  simp only [trimmed]
  rw [h, if_neg (by simp), List.dropLast_concat]

/-- The first pieces of a location without a front. -/
theorem parts_joinPieces {l : Location} (slash : l.text.head? ≠ some '/')
    (dot : (splitAll '/' l.text).head? ≠ some ['.']) {pieces : List (List Char)} (filled : pieces ≠ [])
    (front : pieces <+: splitAll '/' l.text) : parts ⟨joinPieces pieces⟩ = ([], pieces) := by
  have cut : splitAll '/' (joinPieces pieces) = pieces :=
    splitAll_intercalate filled fun piece member => not_mem_of_mem_splitAll (front.mem member)
  obtain ⟨first, more, rfl⟩ := List.exists_cons_of_ne_nil filled
  obtain ⟨tail, shape⟩ := front
  have atHead : (splitAll '/' l.text).head? = some first := by rw [← shape]; rfl
  have dot' : (splitAll '/' (joinPieces (first :: more))).head? ≠ some ['.'] := by
    rwa [cut, List.head?_cons, ← atHead]
  refine (parts_of_relative (l := ⟨joinPieces (first :: more)⟩) ?_ dot').trans (by rw [cut])
  -- a slash at the front would leave an empty piece before it
  intro slashed
  obtain ⟨rest, text⟩ : ∃ rest, joinPieces (first :: more) = '/' :: rest := List.head?_eq_some_iff.mp slashed
  have pieces := cut
  rw [text, splitAll, if_pos rfl, List.cons.injEq] at pieces
  cases own : l.text with
  | nil =>
    rw [own, ← pieces.1, List.cons_append, show splitAll '/' [] = [[]] from rfl, List.cons.injEq] at shape
    rw [(List.append_eq_nil_iff.mp shape.2).1, ← pieces.1] at text
    cases text
  | cons c others =>
    obtain ⟨piece, after, split⟩ := List.exists_cons_of_ne_nil (splitAll_ne_nil '/' others)
    have other : c ≠ '/' := fun same => slash (by rw [own, same]; rfl)
    rw [own, splitAll_cons_of_ne other split, ← pieces.1] at atHead
    cases atHead

/-- The parent of a location has its front, and the pieces before its name. -/
theorem parts_parent {l : Location} {pre : List (List Char)} {name : List Char} (h : l.parts.2 = pre ++ [name]) :
    parts ⟨l.parts.1 ++ joinPieces (trimPieces pre)⟩ = (l.parts.1, trimPieces pre) ∨
    trimPieces pre = [] ∧ parts ⟨l.parts.1 ++ joinPieces (trimPieces pre)⟩ = (l.parts.1, [[]]) := by
  by_cases none : trimPieces pre = []
  · rw [none]
    rcases l.parts_cases with ⟨rest, _, parts⟩ | ⟨_, parts⟩ | ⟨rest, _, parts⟩ | ⟨parts, _, _⟩ <;> rw [parts]
    · exact Or.inr ⟨rfl, rfl⟩
    · exact Or.inl rfl
    · exact Or.inl rfl
    · exact Or.inr ⟨rfl, rfl⟩
  refine Or.inl ?_
  obtain ⟨tail, shape⟩ := isPrefix_trimPieces pre
  have unslashed : ∀ piece ∈ trimPieces pre, '/' ∉ piece := by
    intro piece member
    refine unslashed_of_mem_parts (l := l) ?_
    rw [h]
    exact List.mem_append_left _ (mem_of_mem_trimPieces member)
  have cut : splitAll '/' (joinPieces (trimPieces pre)) = trimPieces pre := splitAll_intercalate none unslashed
  rcases l.parts_cases with ⟨rest, text, parts⟩ | ⟨text, parts⟩ | ⟨rest, text, parts⟩ | ⟨parts, slash, dot⟩
  · rw [parts]
    show (['/'], splitAll '/' (joinPieces (trimPieces pre))) = _
    rw [cut]
  · rw [parts] at h
    simp at h
  · -- the first piece is the empty one behind the dot, so another one must follow
    rw [parts] at h ⊢
    obtain ⟨first, more, trimmed⟩ := List.exists_cons_of_ne_nil none
    rw [trimmed] at shape cut ⊢
    have empty : first = [] := by
      rw [← shape] at h
      exact (List.cons.inj h).1.symm
    subst empty
    cases more with
    | nil => exact absurd (not_isIdle_of_trimPieces (show _ = [] ++ [[]] from trimmed)) (by simp [isIdle])
    | cons next others =>
      rw [show joinPieces ([] :: next :: others) = '/' :: joinPieces (next :: others) from rfl, splitAll,
        if_pos rfl, List.cons.injEq] at cut
      show (['.'], [] :: splitAll '/' (joinPieces (next :: others))) = _
      rw [cut.2]
  · rw [parts] at h ⊢
    rw [List.nil_append]
    refine parts_joinPieces slash dot none ?_
    rw [show splitAll '/' l.text = pre ++ [name] from h]
    exact (isPrefix_trimPieces pre).trans (List.prefix_append _ _)

theorem dropSteps_cons_of_isIdle {p : List Char} (idle : isIdle p = true) (k : Nat) (rest : List (List Char)) :
    dropSteps k (p :: rest) = dropSteps k rest := by
  cases k <;> rw [dropSteps, if_pos idle]

theorem dropSteps_append (pre : List (List Char)) {pieces : List (List Char)}
    (solid : ∀ piece ∈ pieces, isIdle piece = false) :
    dropSteps (pre.filter (!isIdle ·)).length (pre ++ pieces) = pieces := by
  induction pre with
  | nil =>
    cases pieces with
    | nil => rfl
    | cons p rest => simp [dropSteps, solid p List.mem_cons_self]
  | cons p rest ih =>
    cases idle : isIdle p with
    | true =>
      rw [List.filter_cons_of_neg (by simp [idle]), List.cons_append, dropSteps_cons_of_isIdle idle]
      exact ih
    | false => simpa [idle, dropSteps] using ih

theorem dropSteps_eq_nil {k : Nat} {pieces : List (List Char)} (short : (pieces.filter (!isIdle ·)).length ≤ k) :
    dropSteps k pieces = [] := by
  induction pieces generalizing k with
  | nil => cases k <;> rfl
  | cons p rest ih =>
    cases idle : isIdle p with
    | true =>
      rw [List.filter_cons_of_neg (by simp [idle])] at short
      rw [dropSteps_cons_of_isIdle idle]
      exact ih short
    | false =>
      rw [List.filter_cons_of_pos (by simp [idle]), List.length_cons] at short
      obtain ⟨k, rfl⟩ : ∃ n, k = n + 1 := ⟨k - 1, by omega⟩
      rw [dropSteps, idle, if_neg Bool.false_ne_true]
      exact ih (Nat.le_of_succ_le_succ short)

/-- The step of the front, if there is one. -/
def frontSteps (l : Location) : List (List Char) := if l.parts.1 = [] then [] else [l.parts.1]

theorem steps_eq (l : Location) : l.steps = l.frontSteps ++ l.parts.2.filter (!isIdle ·) := rfl

theorem filter_parts (l : Location) :
    l.parts.2.filter (!isIdle ·) = (splitAll '/' l.text).filter (!isIdle ·) := by
  rcases l.parts_cases with ⟨rest, text, parts⟩ | ⟨text, parts⟩ | ⟨rest, text, parts⟩ | ⟨parts, _, _⟩
  · rw [parts, text, splitAll, if_pos rfl, List.filter_cons_of_neg (by simp [isIdle])]
  · rw [parts, text]
    rfl
  · rw [parts, text, show splitAll '/' ('.' :: '/' :: rest) = ['.'] :: splitAll '/' rest from
      splitAll_append_cons '/' ['.'] rest, List.filter_cons_of_neg (by simp [isIdle]),
      List.filter_cons_of_neg (by simp [isIdle])]
  · rw [parts]

/-- A join keeps the front of a location that is not empty. -/
theorem front_of_text_eq {l m : Location} {cs : List Char} (h : m.text = l.lead ++ '.' :: '/' :: cs)
    (filled : l.text ≠ []) : m.parts.1 = l.parts.1 := by
  obtain ⟨tail, lead⟩ : ∃ tail, l.lead = l.text ++ tail := by
    unfold lead
    split
    · exact ⟨[], (List.append_nil _).symm⟩
    · exact ⟨['/'], rfl⟩
  have pieces : splitAll '/' m.text = l.under ++ splitAll '/' ('.' :: '/' :: cs) := by rw [h, splitAll_lead]
  obtain ⟨text⟩ := m
  obtain rfl : text = _ := h
  rcases l.parts_cases with ⟨rest, text, parts⟩ | ⟨text, parts⟩ | ⟨rest, text, parts⟩ | ⟨parts, slash, dot⟩
  · rw [parts, lead, text]
    rfl
  · rw [parts, show l.lead = ['.', '/'] by simp [Location.lead, text]]
    rfl
  · rw [parts, lead, text]
    rfl
  · rw [parts, parts_of_relative]
    · rw [lead, List.append_assoc, List.head?_append_of_ne_nil _ filled]
      exact slash
    · rw [pieces, List.head?_append_of_ne_nil _ (under_ne_nil filled), head?_under filled]
      exact dot

/-- What lies below a location is seen from it. -/
theorem within?_eq {base l : Location} (below : base.steps <+: l.steps) :
    within? base l = some ⟨joinPieces (trimPieces
      (dropSteps (base.steps.length - l.frontSteps.length) l.parts.2))⟩ := by
  have count : l.frontSteps.length = if l.parts.1 = [] then 0 else 1 := by
    unfold frontSteps
    split <;> rfl
  unfold within?
  simp only [List.isPrefixOf_iff_prefix.mpr below, if_true, count]

/-- What is left of pieces without idle ones at their end, when as many steps are dropped as come first. -/
theorem dropSteps_trimmed {pre directories pieces : List (List Char)}
    (solid : ∀ directory ∈ directories, isIdle directory = false)
    (form : pieces = trimPieces (pre ++ directories) ∨ trimPieces (pre ++ directories) = [] ∧ pieces = [[]]) :
    pieces.filter (!isIdle ·) = pre.filter (!isIdle ·) ++ directories ∧
      dropSteps (pre.filter (!isIdle ·)).length pieces = directories := by
  have kept : directories.filter (!isIdle ·) = directories :=
    List.filter_eq_self.mpr fun directory member => by simp [solid directory member]
  have whole := filter_trimPieces (pre ++ directories)
  rw [List.filter_append, kept] at whole
  have steps : pieces.filter (!isIdle ·) = pre.filter (!isIdle ·) ++ directories := by
    rcases form with rfl | ⟨none, rfl⟩
    · exact whole
    · rw [← whole, none]
      simp [isIdle]
  refine ⟨steps, ?_⟩
  rcases List.eq_nil_or_concat' directories with rfl | ⟨outer, last, rfl⟩
  · rw [List.append_nil] at steps
    exact dropSteps_eq_nil (Nat.le_of_eq (congrArg List.length steps))
  · have trimmed : trimPieces (pre ++ (outer ++ [last])) = pre ++ (outer ++ [last]) := by
      rw [← List.append_assoc]
      exact trimPieces_concat _ (solid last (by simp))
    rw [trimmed] at form
    rcases form with rfl | ⟨none, _⟩
    · exact dropSteps_append pre solid
    · simp at none

/-- The directory of a file below a location, as it is seen from there. -/
theorem within?_parent? {l m : Location} {directories : List (List Char)} {name : List Char}
    (h : m.text = l.lead ++ '.' :: '/' :: joinPieces (directories ++ [name]))
    (named : ∀ directory ∈ directories, IsName directory) (own : IsName name) :
    ∃ parent, m.parent? = some parent ∧ within? l parent = some ⟨joinPieces directories⟩ := by
  have solid : ∀ directory ∈ directories, isIdle directory = false := fun directory member =>
    (named directory member).not_isIdle
  have sound : ∀ piece ∈ directories ++ [name], IsName piece := by
    intro piece member
    rcases List.mem_append.mp member with inside | last
    · exact named piece inside
    · exact List.mem_singleton.mp last ▸ own
  have pieces : splitAll '/' m.text = (l.under ++ [['.']]) ++ (directories ++ [name]) := by
    rw [h, splitAll_lead, show splitAll '/' ('.' :: '/' :: joinPieces (directories ++ [name])) =
      ['.'] :: splitAll '/' (joinPieces (directories ++ [name])) from splitAll_append_cons '/' ['.'] _,
      splitAll_names (by simp) sound]
    simp
  obtain ⟨pre, parts, filtered⟩ := exists_parts_append pieces (by simp) (by simp)
  rw [← List.append_assoc] at parts
  refine ⟨_, parent?_of_parts parts own.not_isIdle, ?_⟩
  generalize shape : (⟨m.parts.1 ++ joinPieces (trimPieces (pre ++ directories))⟩ : Location) = parent
  have forms := parts_parent parts
  rw [shape] at forms
  have front : parent.parts.1 = m.parts.1 := by
    rcases forms with form | ⟨_, form⟩ <;> rw [form]
  have rest : parent.parts.2 = trimPieces (pre ++ directories) ∨
      trimPieces (pre ++ directories) = [] ∧ parent.parts.2 = [[]] :=
    forms.imp (fun form => by rw [form]) fun form => ⟨form.1, by rw [form.2]⟩
  obtain ⟨steps, left⟩ := dropSteps_trimmed solid rest
  have base : pre.filter (!isIdle ·) = l.parts.2.filter (!isIdle ·) := by
    rw [filtered, List.filter_append, filter_under, filter_parts]
    simp [isIdle]
  have below : l.steps <+: parent.steps ∧
      l.steps.length - parent.frontSteps.length = (pre.filter (!isIdle ·)).length := by
    rw [steps_eq, steps_eq, steps, base]
    by_cases filled : l.text = []
    · have bare : l.frontSteps = [] ∧ l.parts.2.filter (!isIdle ·) = [] := by
        obtain ⟨text⟩ := l
        subst filled
        exact ⟨rfl, rfl⟩
      rw [bare.1, bare.2]
      simp
    · have same : parent.frontSteps = l.frontSteps := by
        unfold frontSteps
        rw [front, front_of_text_eq h filled]
      rw [same, ← List.append_assoc, List.length_append, Nat.add_sub_cancel_left]
      exact ⟨List.prefix_append _ _, rfl⟩
  rw [within?_eq below.1, below.2, left, trimPieces_eq_self solid]

end Location

end HexAtlas
