import HexAtlas.Proofs.Yaml.Token

namespace HexAtlas.Yaml.Scanner

/-- A step that only adds items. Its candidates were there before or have a slot of their own. -/
structure Grows (s t : Scanner) : Prop where
  items : ∃ new, t.items = new ++ s.items
  slots : s.slots ≤ t.slots
  candidates : ∀ c, some c ∈ t.candidate :: t.around → some c ∈ s.candidate :: s.around ∨ s.slots ≤ c.slot

namespace Grows

variable {s t u : Scanner}

theorem trans (first : s.Grows t) (second : t.Grows u) : s.Grows u := by
  obtain ⟨new, items⟩ := first.items
  obtain ⟨newer, items'⟩ := second.items
  refine ⟨⟨newer ++ new, by rw [items', items, List.append_assoc]⟩, Nat.le_trans first.slots second.slots, ?_⟩
  intro c held
  rcases second.candidates c held with before | fresh
  · exact first.candidates c before
  · exact .inr (Nat.le_trans first.slots fresh)

/-- Candidates may be given up. -/
theorem of_subset (items : ∃ new, t.items = new ++ s.items) (slots : t.slots = s.slots)
    (kept : ∀ c, some c ∈ t.candidate :: t.around → some c ∈ s.candidate :: s.around) : s.Grows t :=
  ⟨items, Nat.le_of_eq slots.symm, fun c held => .inl (kept c held)⟩

/-- Where the scanner stands has no part in what it has put out. -/
theorem of_eq (items : t.items = s.items) (slots : t.slots = s.slots) (candidate : t.candidate = s.candidate)
    (around : t.around = s.around) : s.Grows t :=
  of_subset ⟨[], items⟩ slots (by rw [candidate, around]; exact fun _ => id)

theorem refl (s : Scanner) : s.Grows s := of_eq rfl rfl rfl rfl

theorem push (h : s.Grows t) (word : Token) : s.Grows (t.push word) :=
  h.trans (of_subset ⟨[.token word], rfl⟩ rfl fun _ => id)

theorem allowKey (h : s.Grows t) (allowed : Bool) : s.Grows (t.allowKey allowed) := h.trans (of_eq rfl rfl rfl rfl)

theorem moveTo (h : s.Grows t) (cursor : Cursor) : s.Grows { t with cursor } := h.trans (of_eq rfl rfl rfl rfl)

theorem mark (h : s.Grows t) (word : Token) (n : Nat) : s.Grows (t.mark word n) := (h.push word).moveTo _

theorem unroll (h : s.Grows t) (column : Int) : s.Grows (t.unroll column) := by
  have closed : ∀ items indent outer, ∃ new, (unroll.close column items indent outer).1 = new ++ items := by
    intro items indent outer
    induction outer generalizing items indent with
    | nil => exact ⟨[], rfl⟩
    | cons next rest ih =>
      rw [unroll.close]
      split
      · obtain ⟨new, grown⟩ := ih (.token .blockEnd :: items) next
        exact ⟨new ++ [.token .blockEnd], by simp [grown]⟩
      · exact ⟨[], rfl⟩
  refine h.trans ?_
  unfold Scanner.unroll
  split
  · exact refl t
  · exact of_subset (closed t.items t.indent t.outer) rfl fun _ => id

theorem roll (h : s.Grows t) (column : Nat) (word : Token) : s.Grows (t.roll column word) := by
  refine h.trans ?_
  unfold Scanner.roll
  split
  · exact refl t
  · exact of_subset ⟨[.token word], rfl⟩ rfl fun _ => id

theorem dropCandidate? (h : s.Grows t) (dropped : t.dropCandidate? = some u) : s.Grows u := by
  refine h.trans ?_
  unfold Scanner.dropCandidate? at dropped
  split at dropped
  · cases dropped
  · cases dropped
    refine of_subset ⟨[], rfl⟩ rfl fun c held => ?_
    rcases List.mem_cons.mp held with own | outer
    · cases own
    · exact List.mem_cons_of_mem _ outer

theorem saveCandidate? (h : s.Grows t) (saved : t.saveCandidate? = some u) : s.Grows u := by
  unfold Scanner.saveCandidate? at saved
  split at saved
  · obtain ⟨v, dropped, saved⟩ := Option.bind_eq_some_iff.mp saved
    cases saved
    refine (h.dropCandidate? dropped).trans ⟨⟨[.slot v.slots], rfl⟩, Nat.le_succ _, ?_⟩
    intro c held
    rcases List.mem_cons.mp held with own | outer
    · cases own
      exact .inr (Nat.le_refl _)
    · exact .inl (List.mem_cons_of_mem _ outer)
  · cases saved
    exact h

theorem dropStale? (h : s.Grows t) (dropped : t.dropStale? = some u) : s.Grows u := by
  refine h.trans ?_
  unfold Scanner.dropStale? at dropped
  dsimp only at dropped
  split at dropped
  · cases dropped
  · cases dropped
    refine of_subset ⟨[], rfl⟩ rfl fun c held => ?_
    have filtered : some c ∈ (t.candidate :: t.around).map (·.filter fun c => !t.isStale c) := held
    obtain ⟨before, member, kept⟩ := List.mem_map.mp filtered
    rw [← (Option.filter_eq_some_iff.mp kept).1]
    exact member

theorem toNext (h : s.Grows t) (fuel : Nat) : s.Grows (t.toNext fuel) := by
  induction fuel generalizing t with
  | zero => exact h
  | succ fuel ih =>
    rw [Scanner.toNext]
    split
    · exact ih (h.trans (of_eq rfl rfl rfl rfl))
    · exact h.moveTo _

theorem arrive? (h : s.Grows t) (arrives : t.arrive? = some u) : s.Grows u := by
  obtain ⟨v, dropped, rfl⟩ := Option.map_eq_some_iff.mp arrives
  exact ((h.toNext _).dropStale? dropped).unroll _

variable {word : Token} {rest : List Char}

theorem documentToken? (h : s.Grows t) (read : t.documentToken? word rest = some u) : s.Grows u := by
  obtain ⟨v, dropped, read⟩ := Option.bind_eq_some_iff.mp read
  cases read
  exact ((((h.unroll _).dropCandidate? dropped).allowKey _).push _).moveTo _

theorem openFlow? (h : s.Grows t) (read : t.openFlow? word = some u) : s.Grows u := by
  obtain ⟨v, saved, read⟩ := Option.bind_eq_some_iff.mp read
  cases read
  have grown := h.saveCandidate? saved
  have deeper : v.Grows { v with candidate := none, around := v.candidate :: v.around } :=
    of_subset ⟨[], rfl⟩ rfl fun c held => (List.mem_cons.mp held).resolve_left (Option.some_ne_none c)
  exact ((grown.trans deeper).allowKey true).mark word 1

theorem closeFlow? (h : s.Grows t) (read : t.closeFlow? word = some u) : s.Grows u := by
  obtain ⟨v, dropped, read⟩ := Option.bind_eq_some_iff.mp read
  cases read
  have grown := h.dropCandidate? dropped
  refine ((grown.trans ?_).allowKey false).mark word 1
  split
  · rename_i candidate around shape
    refine of_subset ⟨[], rfl⟩ rfl fun c held => List.mem_cons_of_mem _ ?_
    rw [shape]
    exact held
  · exact refl v

theorem flowEntry? (h : s.Grows t) (read : t.flowEntry? = some u) : s.Grows u := by
  obtain ⟨v, dropped, read⟩ := Option.bind_eq_some_iff.mp read
  cases read
  exact ((h.dropCandidate? dropped).allowKey true).mark _ 1

theorem blockEntry? (h : s.Grows t) (read : t.blockEntry? = some u) : s.Grows u := by
  unfold Scanner.blockEntry? at read
  split at read
  · cases read
  obtain ⟨v, dropped, read⟩ := Option.bind_eq_some_iff.mp read
  cases read
  exact (((h.roll _ _).dropCandidate? dropped).allowKey true).mark _ 1

theorem key? (h : s.Grows t) (read : t.key? = some u) : s.Grows u := by
  unfold Scanner.key? at read
  split at read
  · cases read
  obtain ⟨v, dropped, read⟩ := Option.bind_eq_some_iff.mp read
  cases read
  exact (((h.roll _ _).dropCandidate? dropped).allowKey _).mark _ 1

theorem word? (h : s.Grows t) (read : t.word? word rest = some u) : s.Grows u := by
  obtain ⟨v, saved, read⟩ := Option.bind_eq_some_iff.mp read
  cases read
  exact (((h.saveCandidate? saved).allowKey _).push _).moveTo _

theorem blockScalar? (h : s.Grows t) {literal : Bool} (read : t.blockScalar? literal = some u) : s.Grows u := by
  obtain ⟨v, dropped, read⟩ := Option.bind_eq_some_iff.mp read
  obtain ⟨⟨text, _, rest⟩, _, read⟩ := Option.bind_eq_some_iff.mp read
  cases read
  exact (((h.dropCandidate? dropped).allowKey _).push _).moveTo _

theorem plainScalar? (h : s.Grows t) (read : t.plainScalar? = some u) : s.Grows u := by
  obtain ⟨v, saved, read⟩ := Option.bind_eq_some_iff.mp read
  obtain ⟨⟨text, broken, rest⟩, _, read⟩ := Option.bind_eq_some_iff.mp read
  cases read
  exact (((h.saveCandidate? saved).allowKey _).push _).moveTo _

/-- A colon without a candidate stands behind an empty key. -/
theorem value? (h : s.Grows t) (free : t.candidate = none) (read : t.value? = some u) : s.Grows u := by
  simp only [Scanner.value?, free] at read
  split at read
  · cases read
  · cases read
    exact ((h.roll _ _).allowKey _).mark _ 1

end Grows

theorem eq_or_eq_of_ite {α : Type} {p : Prop} [Decidable p] {x y z : α} (h : (if p then x else y) = z) :
    x = z ∨ y = z := by
  split at h
  · exact .inl h
  · exact .inr h

/-- Every token but a colon only adds items. -/
theorem grows_of_token? {s t : Scanner} {c : Char} {rest : List Char} (read : s.token? c rest = some t) :
    s.Grows t ∨ s.value? = some t := by
  have same := Grows.refl s
  have named : ∀ {α : Type} (word : α → Token) {found : Option (α × List Char)},
      (do let (a, after) ← found; s.word? (word a) after) = some t → s.Grows t := by
    intro α word found read
    obtain ⟨⟨a, after⟩, _, read⟩ := Option.bind_eq_some_iff.mp read
    exact same.word? read
  unfold token? at read
  rcases eq_or_eq_of_ite read with directive | read
  · obtain ⟨⟨word, after⟩, _, read⟩ := Option.bind_eq_some_iff.mp directive
    exact .inl (same.documentToken? read)
  rcases eq_or_eq_of_ite read with document | read
  · exact .inl (same.documentToken? document)
  rcases eq_or_eq_of_ite read with opening | read
  · exact .inl (same.openFlow? opening)
  rcases eq_or_eq_of_ite read with opening | read
  · exact .inl (same.openFlow? opening)
  rcases eq_or_eq_of_ite read with closing | read
  · exact .inl (same.closeFlow? closing)
  rcases eq_or_eq_of_ite read with closing | read
  · exact .inl (same.closeFlow? closing)
  rcases eq_or_eq_of_ite read with comma | read
  · exact .inl (same.flowEntry? comma)
  rcases eq_or_eq_of_ite read with dash | read
  · exact .inl (same.blockEntry? dash)
  rcases eq_or_eq_of_ite read with key | read
  · exact .inl (same.key? key)
  rcases eq_or_eq_of_ite read with colon | read
  · exact .inr colon
  rcases eq_or_eq_of_ite read with reference | read
  · exact .inl (named .alias reference)
  rcases eq_or_eq_of_ite read with anchor | read
  · exact .inl (named .anchor anchor)
  rcases eq_or_eq_of_ite read with tag | read
  · exact .inl (named .tag tag)
  rcases eq_or_eq_of_ite read with block | read
  · exact .inl (same.blockScalar? block)
  rcases eq_or_eq_of_ite read with quoted | read
  · exact .inl (named (fun text => .scalar false (String.ofList text)) quoted)
  rcases eq_or_eq_of_ite read with plain | read
  · exact .inl (same.plainScalar? plain)
  · cases read

/-- What may stand before a word that started in a slot, the last item first. -/
def IsFilling (k : Nat) (filling : List Item) : Prop :=
  filling = [.slot k] ∨ filling = [.token .key] ∨ filling = [.token .key, .token .blockMapping]

/-- A word keeps its place behind the items before its slot: no candidate is left that stands before it. -/
structure Holds (s : Scanner) (k : Nat) (word : Token) (old : List Item) : Prop where
  items : ∃ later filling, s.items = later ++ .token word :: (filling ++ old) ∧ IsFilling k filling
  unused : ∀ n, .slot n ∈ old → n < k
  slots : k ≤ s.slots
  candidates : ∀ c, some c ∈ s.candidate :: s.around → k ≤ c.slot

namespace Holds

variable {s t : Scanner} {k : Nat} {word : Token} {old : List Item}

theorem grows (h : s.Holds k word old) (grown : s.Grows t) : t.Holds k word old := by
  obtain ⟨later, filling, shape, filled⟩ := h.items
  obtain ⟨new, items⟩ := grown.items
  refine ⟨⟨new ++ later, filling, by rw [items, shape, List.append_assoc], filled⟩, h.unused,
    Nat.le_trans h.slots grown.slots, fun c held => ?_⟩
  rcases grown.candidates c held with before | fresh
  · exact h.candidates c before
  · exact Nat.le_trans h.slots fresh

/-- A key goes into the slot of the word or behind it. -/
theorem value? (h : s.Holds k word old) (read : s.value? = some t) : t.Holds k word old := by
  cases held : s.candidate with
  | none => exact h.grows ((Grows.refl s).value? held read)
  | some c =>
    obtain ⟨later, filling, shape, filled⟩ := h.items
    have behind := h.candidates c (by simp [held])
    obtain ⟨new, isKey, items, slots, free, around⟩ : ∃ new : List Item,
        (new = [.token .key] ∨ new = [.token .key, .token .blockMapping]) ∧
        t.items = .token .value :: s.items.flatMap (fun i => if i = .slot c.slot then new else [i]) ∧
        t.slots = s.slots ∧ t.candidate = none ∧ t.around = s.around := by
      simp only [Scanner.value?, held] at read
      cases read
      by_cases opens : (!s.inFlow && s.indent < c.column) = true
      · simp [mark, push, skip, Scanner.allowKey, opens]
      · simp [mark, push, skip, Scanner.allowKey, opens]
    have unused : .slot c.slot ∉ old := fun member => absurd (h.unused _ member) (by omega)
    have kept := Item.flatMap_of_slot_not_mem unused new
    refine ⟨⟨.token .value :: later.flatMap (fun i => if i = .slot c.slot then new else [i]),
      filling.flatMap (fun i => if i = .slot c.slot then new else [i]), ?_, ?_⟩, h.unused, ?_, ?_⟩
    · simp [items, shape, kept]
    · rcases filled with rfl | rfl | rfl
      · by_cases own : k = c.slot
        · simpa [own, IsFilling] using .inr isKey
        · simp [own, IsFilling]
      · simp [IsFilling]
      · simp [IsFilling]
    · rw [slots]
      exact h.slots
    · rw [free, around]
      intro d outer
      have held := (List.mem_cons.mp outer).resolve_left (Option.some_ne_none d)
      exact h.candidates d (List.mem_cons_of_mem _ held)

theorem token? (h : s.Holds k word old) {c : Char} {rest : List Char} (read : s.token? c rest = some t) :
    t.Holds k word old := by
  rcases grows_of_token? read with grown | colon
  · exact h.grows grown
  · exact h.value? colon

theorem run? (h : s.Holds k word old) {fuel : Nat} (done : s.run? fuel = some t) : t.Holds k word old := by
  induction fuel generalizing s with
  | zero => cases done
  | succ fuel ih =>
    rw [run?_succ] at done
    obtain ⟨u, arrives, done⟩ := Option.bind_eq_some_iff.mp done
    have arrived := h.grows ((Grows.refl s).arrive? arrives)
    split at done
    · exact arrived.grows (((Grows.refl u).unroll _).dropCandidate? done)
    · obtain ⟨v, read, done⟩ := Option.bind_eq_some_iff.mp done
      exact ih (arrived.token? read) done

/-- The tokens of a held word: a key, or the start of a mapping, may have come in before it. -/
theorem exists_emitted (h : s.Holds k word old) :
    ∃ opening more, s.emitted = old.reverse.filterMap Item.token? ++ opening ++ word :: more ∧
      (opening = [] ∨ opening = [.key] ∨ opening = [.blockMapping, .key]) := by
  obtain ⟨later, filling, shape, rfl | rfl | rfl⟩ := h.items
  · exact ⟨[], later.reverse.filterMap Item.token?, by simp [emitted, shape, List.filterMap_cons], .inl rfl⟩
  · exact ⟨[.key], later.reverse.filterMap Item.token?, by simp [emitted, shape], .inr (.inl rfl)⟩
  · exact ⟨[.blockMapping, .key], later.reverse.filterMap Item.token?, by simp [emitted, shape], .inr (.inr rfl)⟩

end Holds

end HexAtlas.Yaml.Scanner
