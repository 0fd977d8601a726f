import HexAtlas.Line.Path

namespace HexAtlas

/-- Blanks that keep two parts of a line apart. -/
structure IsGap (gap : List Char) : Prop where
  nonempty : gap ≠ []
  blank : ∀ c ∈ gap, isBlank c = true

theorem isGap_of_all {gap : List Char} (h : (gap != [] && gap.all isBlank) = true) : IsGap gap := by
  simp only [Bool.and_eq_true, bne_iff_ne, List.all_eq_true] at h
  exact ⟨h.1, h.2⟩

/-- Characters without a blank, as a test. -/
theorem all_visible_iff {cs : List Char} : cs.all (!isBlank ·) = true ↔ ∀ c ∈ cs, isBlank c = false := by
  simp

/-- The text ends here, or goes on with a blank. -/
def EndsWord (cs : List Char) : Prop := ∀ c, cs.head? = some c → isBlank c = true

/-- The text ends here, or goes on with a blank or a dash. -/
def EndsSegment (cs : List Char) : Prop := ∀ c, cs.head? = some c → isSeparator c = true

theorem EndsWord.nil : EndsWord [] := by
  intro c h
  cases h

theorem EndsWord.endsSegment {cs : List Char} (h : EndsWord cs) : EndsSegment cs := by
  intro c atHead
  simp [isSeparator, h c atHead]

theorem IsGap.endsWord {gap : List Char} (h : IsGap gap) (rest : List Char) : EndsWord (gap ++ rest) := by
  intro c atHead
  cases gap with
  | nil => exact absurd rfl h.nonempty
  | cons d more =>
    exact h.blank c (Option.some.inj atHead ▸ List.mem_cons_self)

theorem dropWhile_eq_self {α : Type} {p : α → Bool} {cs : List α} (h : ∀ c, cs.head? = some c → p c = false) :
    cs.dropWhile p = cs := by
  cases cs with
  | nil => rfl
  | cons c rest => exact List.dropWhile_cons_of_neg (by simp [h c rfl])

/-- A run of members with a property ends where the property first fails. -/
theorem run_append {α : Type} {p : α → Bool} {cs rest : List α} (inside : ∀ c ∈ cs, p c = true)
    (outside : ∀ c, rest.head? = some c → p c = false) :
    (cs ++ rest).takeWhile p = cs ∧ (cs ++ rest).dropWhile p = rest := by
  have stop : rest.takeWhile p = [] := by
    cases rest with
    | nil => rfl
    | cons c more => exact List.takeWhile_cons_of_neg (by simp [outside c rfl])
  rw [List.takeWhile_append_of_pos inside, List.dropWhile_append_of_pos inside, stop, List.append_nil,
    dropWhile_eq_self outside]
  exact ⟨rfl, rfl⟩

theorem exists_run {α : Type} (p : α → Bool) (cs : List α) :
    ∃ run rest, cs = run ++ rest ∧ (∀ c ∈ run, p c = true) ∧
    ∀ c, rest.head? = some c → p c = false := by
  refine ⟨cs.takeWhile p, cs.dropWhile p, List.takeWhile_append_dropWhile.symm,
    fun c member => List.all_eq_true.mp List.all_takeWhile c member, fun c atHead => ?_⟩
  have stop := List.head?_dropWhile_not p cs
  rw [atHead] at stop
  exact stop

/-- A front part without a mark ends before the first one. -/
theorem exists_append_of_not_mem {α : Type} {x : α} {written tail rest : List α} (used : List α)
    (shape : written ++ x :: tail = used ++ rest) (free : x ∉ used) :
    ∃ inner, written = used ++ inner ∧ rest = inner ++ x :: tail := by
  rcases List.append_eq_append_iff.mp shape with ⟨further, rfl, behind⟩ | ⟨inner, rfl, rfl⟩
  · cases further with
    | nil => exact ⟨[], by simp, by simpa using behind.symm⟩
    | cons y further =>
      obtain ⟨rfl, _⟩ := List.cons.inj behind
      exact absurd (by simp) free
  · exact ⟨inner, rfl, rfl⟩

theorem trimStart_append {gap : List Char} (h : ∀ c ∈ gap, isBlank c = true) (cs : List Char) :
    trimStart (gap ++ cs) = trimStart cs :=
  List.dropWhile_append_of_pos h

/-- Nothing is trimmed off a text that starts with a visible character. -/
theorem trimStart_eq_self {cs : List Char} (h : ∀ c, cs.head? = some c → isBlank c = false) : trimStart cs = cs :=
  dropWhile_eq_self h

theorem trim_ne_nil {c : Char} (visible : isBlank c = false) (rest : List Char) : trim (c :: rest) ≠ [] := by
  rw [trim, trimStart_eq_self fun d atHead => by cases atHead; exact visible]
  intro empty
  have whole := List.takeWhile_append_dropWhile (p := isBlank) (l := (c :: rest).reverse)
  rw [List.reverse_eq_nil_iff.mp empty, List.append_nil] at whole
  have blank := List.all_eq_true.mp (List.all_takeWhile (p := isBlank) (l := (c :: rest).reverse)) c
    (whole.symm ▸ List.mem_reverse.mpr List.mem_cons_self)
  rw [visible] at blank
  cases blank

/-- A text that starts and ends with visible characters, or is empty, is trimmed already. -/
theorem trim_eq_self {cs : List Char} (first : cs.head?.all (!isBlank ·) = true)
    (last : cs.getLast?.all (!isBlank ·) = true) : trim cs = cs := by
  have start : trimStart cs = cs := trimStart_eq_self fun c atHead => by simpa [atHead] using first
  have stop : cs.reverse.dropWhile isBlank = cs.reverse := by
    refine dropWhile_eq_self fun c atHead => ?_
    rw [List.head?_reverse] at atHead
    simpa [atHead] using last
  rw [trim, start, trimEnd, stop, List.reverse_reverse]

/-- Trimming takes exactly the gap before a visible character. -/
theorem trimStart_gap {gap cs : List Char} (blank : ∀ c ∈ gap, isBlank c = true)
    (visible : ∀ c, cs.head? = some c → isBlank c = false) : trimStart (gap ++ cs) = cs := by
  rw [trimStart_append blank, trimStart_eq_self visible]

theorem not_isBlank_of_head?_trimStart {cs : List Char} {c : Char} (h : (trimStart cs).head? = some c) :
    isBlank c = false := by
  have visible := List.head?_dropWhile_not isBlank cs
  rw [show (cs.dropWhile isBlank).head? = some c from h] at visible
  exact visible

theorem word_append {cs rest : List Char} (visible : ∀ c ∈ cs, isBlank c = false) (ends : EndsWord rest) :
    word (cs ++ rest) = (cs, rest) := by
  obtain ⟨front, back⟩ := run_append (p := (!isBlank ·)) (fun c member => by simp [visible c member])
    (fun c atHead => by simp [ends c atHead])
  exact Prod.ext front back

theorem word_of_endsWord {cs : List Char} (ends : EndsWord cs) : word cs = ([], cs)  := by
  simpa using word_append (List.forall_mem_nil _) ends

/-- Visible characters in front only make the first word longer. -/
theorem word_fst_append {cs : List Char} (visible : ∀ c ∈ cs, isBlank c = false) (rest : List Char) :
    (word (cs ++ rest)).1 = cs ++ (word rest).1 :=
  List.takeWhile_append_of_pos fun c member => by simp [visible c member]

/-- The word behind a gap. -/
theorem cut_gap {gap token rest : List Char} (blank : IsGap gap) (visible : ∀ c ∈ token, isBlank c = false)
    (nonempty : token ≠ []) (ends : EndsWord rest) : word (trimStart (gap ++ (token ++ rest))) = (token, rest) := by
  rw [trimStart_gap blank.blank, word_append visible ends]
  intro c atHead
  cases token with
  | nil => exact absurd rfl nonempty
  | cons d more => exact visible c (Option.some.inj atHead ▸ List.mem_cons_self)

theorem words_nil : words [] = [] := by
  rw [words]
  rfl

/-- Blanks in front of the first word do not count. -/
theorem words_gap {gap : List Char} (blank : ∀ c ∈ gap, isBlank c = true) (rest : List Char) :
    words (gap ++ rest) = words rest := by
  have trimmed := trimStart_append blank rest
  conv => lhs; rw [words]
  conv => rhs; rw [words]
  split <;> split <;> simp_all

theorem isBlank_of_mem_words {cs token : List Char} (member : token ∈ words cs) :
    ∀ c ∈ token, isBlank c = false := by
  fun_induction words cs with
  | case1 => cases member
  | case2 cs c rest start ih =>
    rcases List.mem_cons.mp member with rfl | later
    · refine List.forall_mem_cons.mpr ⟨not_isBlank_of_head?_trimStart (by rw [start]; rfl), fun d inside => ?_⟩
      simpa using List.all_eq_true.mp List.all_takeWhile d inside
    · exact ih later

/-- The first word ends where the first blank is. -/
theorem words_append {token rest : List Char} (visible : ∀ c ∈ token, isBlank c = false) (nonempty : token ≠ [])
    (ends : EndsWord rest) : words (token ++ rest) = token :: words rest := by
  obtain ⟨d, more, rfl⟩ := List.exists_cons_of_ne_nil nonempty
  have trimmed : trimStart (d :: more ++ rest) = d :: (more ++ rest) :=
    trimStart_eq_self fun c atHead => by cases atHead; exact visible d List.mem_cons_self
  have cut := word_append (fun c member => visible c (List.mem_cons_of_mem d member)) ends
  rw [words]
  split
  · rename_i empty
    rw [trimmed] at empty
    cases empty
  · rename_i filled
    rw [trimmed] at filled
    cases filled
    rw [show (more ++ rest).takeWhile (!isBlank ·) = more from congrArg Prod.fst cut,
      show (more ++ rest).dropWhile (!isBlank ·) = rest from congrArg Prod.snd cut]

theorem segment_append {cs rest : List Char} (solid : ∀ c ∈ cs, isSeparator c = false) (ends : EndsSegment rest) :
    segment (cs ++ rest) = (cs, rest) := by
  obtain ⟨front, back⟩ := run_append (p := (!isSeparator ·)) (fun c member => by simp [solid c member])
    (fun c atHead => by simp [ends c atHead])
  exact Prod.ext front back

theorem cutAt?_append {c : Char} {before : List Char} (free : c ∉ before) (after : List Char) :
    cutAt? c (before ++ c :: after) = some (before, after) := by
  induction before with
  | nil => simp [cutAt?]
  | cons d more ih =>
    have other : d ≠ c := fun same => free (same ▸ List.mem_cons_self)
    have found := ih fun member => free (List.mem_cons_of_mem d member)
    simp only [List.cons_append, cutAt?, if_neg other, found, Option.map_some]

theorem cutAt?_eq_none {c : Char} {cs : List Char} (free : c ∉ cs) : cutAt? c cs = none := by
  induction cs with
  | nil => rfl
  | cons d rest ih =>
    have other : d ≠ c := fun same => free (same ▸ List.mem_cons_self)
    rw [cutAt?, if_neg other, ih fun member => free (List.mem_cons_of_mem d member), Option.map_none]

theorem cutAt?_eq_none_iff {c : Char} {cs : List Char} : cutAt? c cs = none ↔ c ∉ cs := by
  refine ⟨fun uncut member => ?_, cutAt?_eq_none⟩
  obtain ⟨front, back, rfl, free⟩ := List.eq_append_cons_of_mem member
  rw [cutAt?_append free] at uncut
  cases uncut

/-- A text is cut at its first mark and nowhere else. -/
theorem cutAt?_eq_some_iff {c : Char} {cs before after : List Char} :
    cutAt? c cs = some (before, after) ↔ cs = before ++ c :: after ∧ c ∉ before := by
  constructor
  · intro found
    have member : c ∈ cs := by
      rw [eq_append_of_cutAt? found]
      exact List.mem_append_right _ List.mem_cons_self
    obtain ⟨front, back, rfl, free⟩ := List.eq_append_cons_of_mem member
    rw [cutAt?_append free] at found
    cases found
    exact ⟨rfl, free⟩
  · rintro ⟨rfl, free⟩
    exact cutAt?_append free after

theorem afterStart?_append (start cs : List Char) : afterStart? start (start ++ cs) = some cs := by
  induction start with
  | nil => rfl
  | cons s more ih => rw [List.cons_append, afterStart?, if_pos rfl, ih]

theorem afterStart?_eq_none_iff {start cs : List Char} : afterStart? start cs = none ↔ ¬ start <+: cs := by
  constructor
  · rintro missing ⟨rest, rfl⟩
    rw [afterStart?_append] at missing
    cases missing
  · intro other
    cases found : afterStart? start cs with
    | none => rfl
    | some rest => exact absurd ⟨rest, (eq_append_of_afterStart? found).symm⟩ other

theorem isSome_afterStart?_iff {start cs : List Char} : (afterStart? start cs).isSome = true ↔ start <+: cs := by
  rw [← Option.ne_none_iff_isSome, ne_eq, afterStart?_eq_none_iff, Classical.not_not]

/-- A text is split whenever the part stands in it. -/
theorem splitAt?_eq_none_iff {part cs : List Char} : splitAt? part cs = none ↔ ¬ part <:+: cs := by
  induction cs with
  | nil => rw [splitAt?, Option.map_eq_none_iff, afterStart?_eq_none_iff, List.prefix_nil, List.infix_nil]
  | cons c rest ih =>
    rw [List.infix_cons_iff, not_or, ← afterStart?_eq_none_iff, ← ih, splitAt?]
    cases start : afterStart? part (c :: rest) <;> simp

theorem contains_iff {part cs : List Char} : contains part cs = true ↔ part <:+: cs := by
  rw [contains, ← Option.ne_none_iff_isSome, ne_eq, splitAt?_eq_none_iff, Classical.not_not]

/-- A text is split at the first place of a part, so none stands before it. -/
theorem not_infix_of_splitAt? {part cs before after : List Char} (nonempty : part ≠ [])
    (h : splitAt? part cs = some (before, after)) : ¬ part <:+: before := by
  induction cs generalizing before with
  | nil =>
    simp only [splitAt?, Option.map_eq_some_iff, Prod.mk.injEq] at h
    obtain ⟨_, _, rfl, _⟩ := h
    exact fun inside => nonempty (List.infix_nil.mp inside)
  | cons c rest ih =>
    unfold splitAt? at h
    split at h
    · cases h
      exact fun inside => nonempty (List.infix_nil.mp inside)
    · rename_i other
      obtain ⟨⟨front, tail⟩, found, same⟩ := Option.map_eq_some_iff.mp h
      cases same
      intro inside
      rcases List.infix_cons_iff.mp inside with start | later
      · have shape := eq_append_of_splitAt? found
        obtain ⟨more, start⟩ := start
        have front : c :: rest = part ++ (more ++ (part ++ after)) := by
          rw [shape, ← List.cons_append, ← List.cons_append, ← start]
          simp
        rw [front, afterStart?_append] at other
        cases other
      · exact ih found later

/-- Two characters side by side cannot overlap with themselves. -/
theorem splitAt?_append {a b : Char} (apart : a ≠ b) {before : List Char} (free : ¬ [a, b] <:+: before)
    (after : List Char) : splitAt? [a, b] (before ++ a :: b :: after) = some (before, after) := by
  induction before with
  | nil => simp [splitAt?, afterStart?]
  | cons c more ih =>
    have later := ih fun inside => free (inside.trans (List.suffix_cons c more).isInfix)
    have other : ¬ [a, b] <+: c :: (more ++ a :: b :: after) := by
      intro start
      obtain ⟨rfl, second⟩ := List.cons_prefix_cons.mp start
      cases more with
      | nil => exact apart (List.cons_prefix_cons.mp second).1.symm
      | cons d rest =>
        obtain ⟨rfl, -⟩ := List.cons_prefix_cons.mp second
        exact free ⟨[], rest, rfl⟩
    rw [List.cons_append, splitAt?, afterStart?_eq_none_iff.mpr other, later]
    rfl

/-- A line feed ends a line that does not end in a carriage return. -/
theorem lines_append {line : List Char} (free : '\n' ∉ line) (kept : line.getLast? ≠ some '\r') (rest : List Char) :
    lines (line ++ '\n' :: rest) = line :: lines rest := by
  have cut := cutAt?_append free rest
  rw [lines, if_neg (by simp)]
  split
  · rename_i uncut
    rw [cut] at uncut
    cases uncut
  · rename_i front back found
    rw [cut] at found
    cases found
    rw [if_neg kept]

theorem lines_flatMap {ls : List (List Char)} (free : ∀ line ∈ ls, '\n' ∉ line)
    (kept : ∀ line ∈ ls, line.getLast? ≠ some '\r') : lines (ls.flatMap (· ++ ['\n'])) = ls := by
  induction ls with
  | nil =>
    rw [List.flatMap_nil, lines]
    rfl
  | cons line rest ih =>
    have later := ih (fun other member => free other (List.mem_cons_of_mem line member))
      fun other member => kept other (List.mem_cons_of_mem line member)
    rw [List.flatMap_cons, List.append_assoc, List.singleton_append,
      lines_append (free line List.mem_cons_self) (kept line List.mem_cons_self), later]

end HexAtlas
