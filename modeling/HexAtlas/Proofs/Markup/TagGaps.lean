import HexAtlas.Proofs.Markup.JoinTags

namespace HexAtlas

/-- All the blanks between the end of one tag and the start of the next. The text is the three parts put
together. -/
structure IsTagGap (before gap after : List Char) : Prop extends IsGap gap where
  behind : before.getLast? = some '>'
  ahead : after.head? = some '<'

/-- The character at a place of a text belongs to a gap between two tags. -/
def InTagGap (cs : List Char) (i : Nat) : Prop :=
  ∃ before gap after, cs = before ++ (gap ++ after) ∧ IsTagGap before gap after ∧
    before.length ≤ i ∧ i < before.length + gap.length

theorem takeWhile_append_trimStart (cs : List Char) : cs.takeWhile isBlank ++ trimStart cs = cs :=
  List.takeWhile_append_dropWhile

theorem isBlank_of_mem_takeWhile {cs : List Char} {c : Char} (h : c ∈ cs.takeWhile isBlank) : isBlank c = true :=
  List.all_eq_true.mp List.all_takeWhile c h

theorem bracket_not_mem_takeWhile (cs : List Char) : '>' ∉ cs.takeWhile isBlank := by
  intro member
  cases isBlank_of_mem_takeWhile member

/-- The blanks that joining tags takes out are a gap if there are any. -/
theorem isTagGap_takeWhile {rest : List Char} (filled : rest.takeWhile isBlank ≠ [])
    (ahead : (trimStart rest).head? = some '<') : IsTagGap ['>'] (rest.takeWhile isBlank) (trimStart rest) :=
  ⟨⟨filled, fun _ member => isBlank_of_mem_takeWhile member⟩, rfl, ahead⟩

theorem IsTagGap.before_ne_nil {before gap after : List Char} (h : IsTagGap before gap after) : before ≠ [] := by
  rintro rfl
  cases h.behind

/-- The run of blanks ends where the next tag begins. -/
theorem IsTagGap.visible {before gap after : List Char} (h : IsTagGap before gap after) :
    ∀ c, after.head? = some c → isBlank c = false := by
  intro c atHead
  rw [h.ahead] at atHead
  cases atHead
  decide

/-- No gap begins at the front of a text. -/
theorem not_inTagGap_zero (cs : List Char) : ¬ InTagGap cs 0 := by
  rintro ⟨before, gap, after, -, found, start, -⟩
  exact found.before_ne_nil (List.length_eq_zero_iff.mp (Nat.le_zero.mp start))

/-- A gap behind the first character of a text begins right behind it or is one of the rest. -/
theorem isTagGap_cons {c : Char} {rest before gap after : List Char} (shape : c :: rest = before ++ (gap ++ after))
    (h : IsTagGap before gap after) :
    (before = [c] ∧ c = '>' ∧ rest = gap ++ after) ∨
      ∃ more, before = c :: more ∧ rest = more ++ (gap ++ after) ∧ IsTagGap more gap after := by
  obtain ⟨d, more, rfl⟩ := List.exists_cons_of_ne_nil h.before_ne_nil
  obtain ⟨rfl, behind⟩ := List.cons.inj shape
  cases more with
  | nil => exact Or.inl ⟨rfl, Option.some.inj h.behind, behind⟩
  | cons d others =>
    have last := h.behind
    rw [List.getLast?_cons_cons] at last
    exact Or.inr ⟨d :: others, rfl, behind, h.toIsGap, last, h.ahead⟩

theorem IsTagGap.trimStart_eq {before gap after : List Char} (h : IsTagGap before gap after) :
    trimStart (gap ++ after) = after :=
  trimStart_gap h.blank h.visible

theorem IsTagGap.cons {before gap after : List Char} (h : IsTagGap before gap after) (c : Char) :
    IsTagGap (c :: before) gap after := by
  obtain ⟨d, more, rfl⟩ := List.exists_cons_of_ne_nil h.before_ne_nil
  exact ⟨h.toIsGap, by rw [List.getLast?_cons_cons, h.behind], h.ahead⟩

/-- Behind its first character, a text is in a gap where its rest is, and in the blanks right there if these are
one. -/
theorem inTagGap_cons_succ (c : Char) (rest : List Char) (i : Nat) :
    InTagGap (c :: rest) (i + 1) ↔
      (c = '>' ∧ (trimStart rest).head? = some '<' ∧ i < (rest.takeWhile isBlank).length) ∨ InTagGap rest i := by
  constructor
  · rintro ⟨before, gap, after, shape, found, start, stop⟩
    rcases isTagGap_cons shape found with ⟨rfl, bracket, rfl⟩ | ⟨more, rfl, behind, found⟩
    · left
      rw [found.trimStart_eq, (run_append found.blank found.visible).1]
      rw [List.length_singleton] at stop
      exact ⟨bracket, found.ahead, by omega⟩
    · right
      rw [List.length_cons] at start stop
      exact ⟨more, gap, after, behind, found, by omega, by omega⟩
  · rintro (⟨rfl, ahead, inside⟩ | ⟨before, gap, after, rfl, found, start, stop⟩)
    · have filled : rest.takeWhile isBlank ≠ [] := List.length_pos_iff.mp (by omega)
      refine ⟨['>'], _, _, by rw [takeWhile_append_trimStart]; rfl, isTagGap_takeWhile filled ahead, ?_, ?_⟩
      · exact Nat.le_add_left 1 i
      · rw [List.length_singleton]
        omega
    · refine ⟨c :: before, gap, after, rfl, found.cons c, ?_, ?_⟩
      · rw [List.length_cons]
        omega
      · rw [List.length_cons]
        omega

/-- In front of a text, characters that end no tag only move its gaps. -/
theorem inTagGap_append {front : List Char} (free : '>' ∉ front) (cs : List Char) (i : Nat) :
    InTagGap (front ++ cs) i ↔ front.length ≤ i ∧ InTagGap cs (i - front.length) := by
  induction front generalizing i with
  | nil => simp
  | cons c more ih =>
    have other : c ≠ '>' := fun same => free (same ▸ List.mem_cons_self)
    cases i with
    | zero => simpa using not_inTagGap_zero (c :: more ++ cs)
    | succ i =>
      rw [List.cons_append, inTagGap_cons_succ, ih fun member => free (List.mem_cons_of_mem c member)]
      simp [other]

/-- The characters of a text that stand in no gap, in their order, with their places. -/
structure KeptAt (cs kept : List Char) (places : List Nat) : Prop where
  ascending : places.Pairwise (· < ·)
  mem_iff : ∀ i, i ∈ places ↔ i < cs.length ∧ ¬ InTagGap cs i
  characters : kept.map some = places.map (cs[·]?)

theorem keptAt_nil : KeptAt [] [] [] where
  ascending := .nil
  mem_iff := by simp
  characters := rfl

/-- The first character is kept. Right behind it, a run is left out if it is a gap. -/
theorem KeptAt.cons {c : Char} {cs kept : List Char} {places : List Nat} (h : KeptAt cs kept places)
    (run : List Char) (left : ∀ i, InTagGap (c :: (run ++ cs)) (i + 1) ↔
      i < run.length ∨ run.length ≤ i ∧ InTagGap cs (i - run.length)) :
    KeptAt (c :: (run ++ cs)) (c :: kept) (0 :: places.map (· + (run.length + 1))) where
  ascending := by
    refine List.pairwise_cons.mpr ⟨fun p member => ?_, List.pairwise_map.mpr (h.ascending.imp fun below => ?_)⟩
    · obtain ⟨q, -, rfl⟩ := List.mem_map.mp member
      omega
    · omega
  mem_iff := fun i => by
    cases i with
    | zero => simpa using not_inTagGap_zero (c :: (run ++ cs))
    | succ i =>
      have shifted : i + 1 ∈ places.map (· + (run.length + 1)) ↔ run.length ≤ i ∧ i - run.length ∈ places := by
        constructor
        · intro member
          obtain ⟨p, listed, same⟩ := List.mem_map.mp member
          have place : i - run.length = p := by omega
          exact ⟨by omega, place.symm ▸ listed⟩
        · rintro ⟨past, listed⟩
          exact List.mem_map.mpr ⟨_, listed, by omega⟩
      have later : i + 1 ∈ 0 :: places.map (· + (run.length + 1)) ↔ i + 1 ∈ places.map (· + (run.length + 1)) := by
        simp
      rw [later, shifted, h.mem_iff, left, List.length_cons, List.length_append]
      by_cases past : run.length ≤ i
      · have bound : i - run.length < cs.length ↔ i + 1 < run.length + cs.length + 1 := by omega
        simp only [past, Nat.not_lt.mpr past, true_and, false_or, bound]
      · simp only [past, Nat.lt_of_not_le past, false_and, true_or, not_true, and_false]
  characters := by
    have moved : ∀ p, (c :: (run ++ cs))[p + (run.length + 1)]? = cs[p]? := fun p => by
      rw [← Nat.add_assoc, List.getElem?_cons_succ, List.getElem?_append_right (Nat.le_add_left _ _),
        Nat.add_sub_cancel]
    rw [List.map_cons, List.map_cons, List.map_map, h.characters]
    exact congrArg (some c :: ·) (List.map_congr_left fun p _ => (moved p).symm)

theorem exists_keptAt_joinTags (cs : List Char) : ∃ places, KeptAt cs (joinTags cs) places := by
  induction cs using joinTags_induct with
  | nil =>
    rw [joinTags_nil]
    exact ⟨[], keptAt_nil⟩
  | join rest ahead ih =>
    obtain ⟨places, kept⟩ := ih
    have whole := takeWhile_append_trimStart rest
    rw [joinTags_close ahead]
    refine ⟨_, whole ▸ kept.cons (rest.takeWhile isBlank) fun i => ?_⟩
    rw [inTagGap_cons_succ, inTagGap_append (bracket_not_mem_takeWhile rest), whole]
    simp only [true_and, ahead]
  | keep c rest apart ih =>
    obtain ⟨places, kept⟩ := ih
    rw [joinTags_cons apart]
    refine ⟨_, kept.cons [] fun i => ?_⟩
    rw [List.nil_append, inTagGap_cons_succ, ← and_assoc]
    simp [apart]

/-- Joining tags further on does not change what the blanks at the front are followed by. -/
theorem head?_trimStart_joinTags (cs : List Char) : (trimStart (joinTags cs)).head? = (trimStart cs).head? := by
  have joined : joinTags cs = cs.takeWhile isBlank ++ joinTags (trimStart cs) := by
    conv => lhs; rw [← takeWhile_append_trimStart cs]
    exact joinTags_append_of_not_mem (bracket_not_mem_takeWhile cs) _
  have visible : ∀ c, (joinTags (trimStart cs)).head? = some c → isBlank c = false := fun c atHead =>
    not_isBlank_of_head?_trimStart (head?_joinTags (trimStart cs) ▸ atHead)
  rw [joined, trimStart_gap (fun _ member => isBlank_of_mem_takeWhile member) visible, head?_joinTags]

/-- No part of a text is a gap between two tags. -/
def GapFree (cs : List Char) : Prop :=
  ∀ before gap after, cs = before ++ (gap ++ after) → ¬ IsTagGap before gap after

theorem GapFree.tail {c : Char} {rest : List Char} (h : GapFree (c :: rest)) : GapFree rest :=
  fun before gap after shape found => h (c :: before) gap after (congrArg (c :: ·) shape) (found.cons c)

theorem gapFree_joinTags (cs : List Char) : GapFree (joinTags cs) := by
  induction cs using joinTags_induct with
  | nil =>
    intro before gap after shape found
    rw [joinTags_nil] at shape
    exact found.before_ne_nil (List.append_eq_nil_iff.mp shape.symm).1
  | join rest ahead ih =>
    intro before gap after shape found
    rw [joinTags_close ahead] at shape
    rcases isTagGap_cons shape found with ⟨-, -, behind⟩ | ⟨more, -, behind, later⟩
    · -- The next tag begins right here, so no blank does.
      obtain ⟨d, others, rfl⟩ := List.exists_cons_of_ne_nil found.nonempty
      rw [← head?_joinTags, behind] at ahead
      cases ahead
      cases found.blank '<' List.mem_cons_self
    · exact ih more gap after behind later
  | keep c rest apart ih =>
    intro before gap after shape found
    rw [joinTags_cons apart] at shape
    rcases isTagGap_cons shape found with ⟨-, bracket, behind⟩ | ⟨more, -, behind, later⟩
    · rw [← head?_trimStart_joinTags, behind, found.trimStart_eq] at apart
      exact apart ⟨bracket, found.ahead⟩
    · exact ih more gap after behind later

/-- A text without gaps is left as it is. -/
theorem GapFree.joinTags_eq {cs : List Char} (h : GapFree cs) : joinTags cs = cs := by
  induction cs using joinTags_induct with
  | nil => exact joinTags_nil
  | join rest ahead ih =>
    have whole := takeWhile_append_trimStart rest
    rw [joinTags_close ahead]
    by_cases none : rest.takeWhile isBlank = []
    · rw [none, List.nil_append] at whole
      rw [ih (whole.symm ▸ h.tail), whole]
    · exact absurd (isTagGap_takeWhile none ahead) (h ['>'] _ _ (congrArg ('>' :: ·) whole.symm))
  | keep c rest apart ih => rw [joinTags_cons apart, ih h.tail]

/-- Joining tags leaves out the gaps between them, each as a whole, and keeps every other character in its order. No
gap is left, so there is nothing to join again. -/
theorem exists_keptAt_gapFree_joinTags (cs : List Char) :
    (∃ places, KeptAt cs (joinTags cs) places) ∧ GapFree (joinTags cs) ∧ joinTags (joinTags cs) = joinTags cs :=
  ⟨exists_keptAt_joinTags cs, gapFree_joinTags cs, (gapFree_joinTags cs).joinTags_eq⟩

/-- Blanks at the end of a text, and those next to other text, are no gap. -/
example : joinTags "<a>> \n<b/> c > ".toList = "<a>><b/> c > ".toList := by
  decide +kernel

end HexAtlas
