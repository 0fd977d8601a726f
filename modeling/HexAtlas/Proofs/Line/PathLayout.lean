import HexAtlas.Proofs.Line.Segments

namespace HexAtlas

/-- A path line in its parts. A part after the kind comes with the blanks before it, a step of the body with the
blanks or the dash before it. -/
structure PathLayout where
  start : Hex
  chain : List Step
  kindGap : List Char
  kind : String
  label : Option (List Char × String)
  side : Option (List Char × Side)
  /-- The digits of the offset without the percent sign. -/
  offset : Option (List Char × List Char)
  body : List (List Char × Step)
  /-- What stands after the last step. -/
  trailing : List Char

namespace PathLayout

def chainText (steps : List Step) : List Char := steps.flatMap fun step => '-' :: step.text.toList

def labelText : Option (List Char × String) → List Char
  | some (gap, text) => gap ++ '"' :: (text.toList ++ ['"'])
  | none => []

def sideText : Option (List Char × Side) → List Char
  | some (gap, side) => gap ++ side.keyword.toList
  | none => []

def offsetText : Option (List Char × List Char) → List Char
  | some (gap, number) => gap ++ (number ++ ['%'])
  | none => []

def bodyText (body : List (List Char × Step)) : List Char :=
  body.flatMap fun (before, step) => before ++ step.text.toList

def bodyTail (l : PathLayout) : List Char := bodyText l.body ++ l.trailing

def offsetTail (l : PathLayout) : List Char := offsetText l.offset ++ l.bodyTail

def sideTail (l : PathLayout) : List Char := sideText l.side ++ l.offsetTail

def labelTail (l : PathLayout) : List Char := labelText l.label ++ l.sideTail

def print (l : PathLayout) : List Char :=
  l.start.text.toList ++ (chainText l.chain ++ (l.kindGap ++ (l.kind.toList ++ l.labelTail)))

def path (l : PathLayout) : PathLine where
  kind := l.kind
  label := l.label.map Prod.snd
  side := l.side.map Prod.snd
  labelStart := l.offset.map fun (_, number) => String.ofList (number ++ ['%'])
  start := l.start
  steps := l.chain ++ l.body.map Prod.snd

/-- What stands before a step of the body. -/
def IsJoint (before : List Char) : Prop := IsGap before ∨ before = ['-']

/-- The text behind the last step does not go on with a step. -/
def Ends (trailing : List Char) : Prop :=
  trailing = [] ∨ ∃ gap text, IsGap gap ∧ trailing = gap ++ text ∧ splitSegment? text = none

structure WellFormed (l : PathLayout) : Prop where
  start : l.start.OnGrid
  chain : ∀ step ∈ l.chain, step.Writable
  kindGap : IsGap l.kindGap
  kind_nonempty : l.kind.toList ≠ []
  kind_visible : ∀ c ∈ l.kind.toList, isBlank c = false
  kind_unquoted : l.kind.toList.head? ≠ some '"'
  label : ∀ gap text, l.label = some (gap, text) → IsGap gap ∧ text.toList ≠ [] ∧ '"' ∉ text.toList
  side : ∀ gap side, l.side = some (gap, side) → IsGap gap
  offset : ∀ gap number, l.offset = some (gap, number) → IsGap gap ∧ isNumeral number = true
  body : ∀ part ∈ l.body, part.2.Writable
  body_first : ∀ part, l.body.head? = some part → IsGap part.1
  body_later : ∀ part ∈ l.body.tail, IsJoint part.1
  /-- Text that is no step may follow steps only. -/
  trailing : l.trailing = [] ∨ l.body ≠ [] ∧ Ends l.trailing
  steps : l.chain ≠ [] ∨ l.body ≠ []

/-- The first word after blanks. -/
def frontWord (cs : List Char) : List Char := (word (trimStart cs)).1

theorem frontWord_nil : frontWord [] = [] := rfl

/-- A visible character that a trimmed text starts with is in its first word. -/
theorem mem_frontWord_of_head? {cs : List Char} {c : Char} (h : (trimStart cs).head? = some c)
    (visible : isBlank c = false) : c ∈ frontWord cs := by
  unfold frontWord
  cases trimmed : trimStart cs with
  | nil => rw [trimmed] at h; cases h
  | cons d rest =>
    rw [trimmed] at h
    cases h
    simp [word, visible]

theorem headLabel_of_not_mem {cs : List Char} (h : '"' ∉ frontWord cs) : headLabel cs = (none, cs) := by
  unfold headLabel
  split
  · rename_i quoted start
    exact absurd (mem_frontWord_of_head? (by rw [start]; rfl) (by decide)) h
  · rfl

theorem headSide_of_ne {cs : List Char} (h : ∀ side : Side, frontWord cs ≠ side.keyword.toList) :
    headSide cs = (none, cs) := by
  have unknown : Side.ofKeyword? (String.ofList (frontWord cs)) = none := by
    rw [Side.ofKeyword?, List.find?_eq_none]
    intro side _ same
    have word : side.keyword = String.ofList (frontWord cs) := of_decide_eq_true same
    exact h side (by rw [word, String.toList_ofList])
  simp only [headSide]
  rw [show (word (trimStart cs)).1 = frontWord cs from rfl, unknown]

theorem headOffset_of_not_mem {cs : List Char} (h : '%' ∉ frontWord cs) : headOffset cs = (none, cs) := by
  have plain : isPercentage (frontWord cs) = false := by
    have last : (frontWord cs).getLast? ≠ some '%' := fun atEnd => h (List.mem_of_getLast? atEnd)
    simp [isPercentage, last]
  simp only [headOffset]
  rw [show (word (trimStart cs)).1 = frontWord cs from rfl, plain]
  simp

/-- No keyword holds a digit, and none is empty. -/
theorem ne_keyword_of_digit {token : List Char} (h : token = [] ∨ ∃ c ∈ token, isDigit c = true) (side : Side) :
    token ≠ side.keyword.toList := by
  rintro rfl
  rcases h with empty | ⟨c, member, digit⟩
  · cases side <;> exact absurd empty (by decide)
  · have letters : side.keyword.toList.all (fun c => !isDigit c) = true := by cases side <;> decide
    have letter := List.all_eq_true.mp letters c member
    simp [digit] at letter

theorem bodyText_cons (before : List Char) (step : Step) (rest : List (List Char × Step)) (trailing : List Char) :
    bodyText ((before, step) :: rest) ++ trailing =
      before ++ (step.text.toList ++ (bodyText rest ++ trailing)) := by
  simp only [bodyText, List.flatMap_cons, List.append_assoc]

theorem Ends.endsWord {trailing : List Char} (h : Ends trailing) : EndsWord trailing := by
  rcases h with rfl | ⟨gap, text, blank, rfl, _⟩
  · exact .nil
  · exact blank.endsWord text

theorem Ends.splitSegment? {trailing : List Char} (h : Ends trailing) : splitSegment? trailing = none := by
  rcases h with rfl | ⟨gap, text, blank, rfl, stop⟩
  · rfl
  · rw [HexAtlas.splitSegment?, trimStart_append blank.blank]
    exact stop

theorem endsSegment_body {body : List (List Char × Step)} {trailing : List Char}
    (joints : ∀ part ∈ body, IsJoint part.1) (ends : Ends trailing) : EndsSegment (bodyText body ++ trailing) := by
  cases body with
  | nil => exact ends.endsWord.endsSegment
  | cons part rest =>
    rw [bodyText_cons]
    rcases joints part List.mem_cons_self with blank | dash
    · exact (blank.endsWord _).endsSegment
    · rw [dash]
      intro c atHead
      cases atHead
      decide

theorem head?_step {step : Step} (h : step.Writable) (rest : List Char) :
    ∃ c more, step.text.toList ++ rest = c :: more ∧ isStepChar c = true := by
  obtain ⟨d, member, _⟩ := Step.exists_digit_text h
  cases letters : step.text.toList with
  | nil => rw [letters] at member; cases member
  | cons c more => exact ⟨c, more ++ rest, rfl, Step.isStepChar_of_mem_text h (letters ▸ List.mem_cons_self)⟩

/-- A step is split off a text after blanks or a dash. -/
theorem splitSegment?_step {before rest : List Char} {step : Step} (joint : IsJoint before) (h : step.Writable)
    (ends : EndsSegment rest) : splitSegment? (before ++ (step.text.toList ++ rest)) = some (step, rest) := by
  have read := Step.parse?_text h
  have solid : ∀ c ∈ step.text.toList, isSeparator c = false := fun _ => Step.not_isSeparator_of_mem_text h
  rcases joint with blank | rfl
  · exact Step.IsCut.splitSegment? ⟨rfl, blank.blank, Or.inl rfl, read, solid, ends⟩
  · exact Step.IsCut.splitSegment? ⟨rfl, List.forall_mem_nil _, Or.inr rfl, read, solid, ends⟩

/-- The steps of the body are read one after another, and nothing after them is. -/
theorem segments_body {body : List (List Char × Step)} {trailing : List Char}
    (joints : ∀ part ∈ body, IsJoint part.1) (writable : ∀ part ∈ body, part.2.Writable) (ends : Ends trailing) :
    segments (bodyText body ++ trailing) = body.map Prod.snd := by
  induction body with
  | nil => exact segments_eq_nil ends.splitSegment?
  | cons part rest ih =>
    have later := fun other member => joints other (List.mem_cons_of_mem part member)
    have first := splitSegment?_step (joints part List.mem_cons_self) (writable part List.mem_cons_self)
      (endsSegment_body later ends)
    rw [bodyText_cons, segments_cons first,
      ih later fun other member => writable other (List.mem_cons_of_mem part member)]
    rfl

/-- Steps that dashes join to one word bring no quote and no percent sign into it. -/
theorem mem_word_body {body : List (List Char × Step)} {trailing : List Char}
    (joints : ∀ part ∈ body, IsJoint part.1) (writable : ∀ part ∈ body, part.2.Writable) (ends : EndsWord trailing)
    {c : Char} (member : c ∈ (word (bodyText body ++ trailing)).1) : isStepChar c = true ∨ c = '-' := by
  induction body with
  | nil =>
    rw [show bodyText [] ++ trailing = trailing from rfl, word_of_endsWord ends] at member
    cases member
  | cons part rest ih =>
    rw [bodyText_cons] at member
    rcases joints part List.mem_cons_self with blank | dash
    · rw [word_of_endsWord (blank.endsWord _)] at member
      cases member
    · have step := writable part List.mem_cons_self
      have visible : ∀ d ∈ '-' :: part.2.text.toList, isBlank d = false := by
        intro d inside
        rcases List.mem_cons.mp inside with rfl | letter
        · decide
        · exact not_isBlank_of_not_isSeparator (Step.not_isSeparator_of_mem_text step letter)
      rw [dash, ← List.append_assoc, show ['-'] ++ part.2.text.toList = '-' :: part.2.text.toList from rfl,
        word_fst_append visible, List.mem_append, List.mem_cons] at member
      rcases member with (rfl | letter) | later
      · exact Or.inr rfl
      · exact Or.inl (Step.isStepChar_of_mem_text step letter)
      · exact ih (fun other inside => joints other (List.mem_cons_of_mem part inside))
          (fun other inside => writable other (List.mem_cons_of_mem part inside)) later

/-- Blanks before a step are passed over, and the step begins the first word. -/
theorem frontWord_step {gap : List Char} {step : Step} (blank : IsGap gap) (h : step.Writable) (rest : List Char) :
    frontWord (gap ++ (step.text.toList ++ rest)) = step.text.toList ++ (word rest).1 := by
  have visible : ∀ c ∈ step.text.toList, isBlank c = false := fun _ member =>
    not_isBlank_of_isStepChar (Step.isStepChar_of_mem_text h member)
  obtain ⟨c, more, shape, stepChar⟩ := head?_step h rest
  rw [frontWord, trimStart_gap blank.blank, word_fst_append visible]
  intro d atHead
  rw [shape] at atHead
  cases atHead
  exact not_isBlank_of_isStepChar stepChar

theorem WellFormed.joints {l : PathLayout} (h : l.WellFormed) : ∀ part ∈ l.body, IsJoint part.1 := by
  intro part member
  cases shape : l.body with
  | nil => rw [shape] at member; cases member
  | cons first rest =>
    rw [shape] at member
    rcases List.mem_cons.mp member with rfl | later
    · exact Or.inl (h.body_first part (by rw [shape]; rfl))
    · exact h.body_later part (by rw [shape]; exact later)

theorem WellFormed.ends {l : PathLayout} (h : l.WellFormed) : Ends l.trailing := by
  rcases h.trailing with empty | ⟨_, stop⟩
  · exact Or.inl empty
  · exact stop

/-- A body starts with blanks, and without a body nothing is left. -/
theorem WellFormed.bodyTail_cases {l : PathLayout} (h : l.WellFormed) :
    l.bodyTail = [] ∨ ∃ (gap : List Char) (step : Step) (rest : List Char), IsGap gap ∧ step.Writable ∧
      l.bodyTail = gap ++ (step.text.toList ++ rest) ∧
      ∀ c ∈ (word rest).1, isStepChar c = true ∨ c = '-' := by
  unfold bodyTail
  cases shape : l.body with
  | nil =>
    rcases h.trailing with empty | ⟨filled, _⟩
    · exact Or.inl (by rw [empty]; rfl)
    · exact absurd shape filled
  | cons first rest =>
    have joints := h.joints
    have writable := h.body
    rw [shape] at joints writable
    refine Or.inr ⟨first.1, first.2, bodyText rest ++ l.trailing, h.body_first first (by rw [shape]; rfl),
      writable first List.mem_cons_self, bodyText_cons .., fun c member => ?_⟩
    exact mem_word_body (fun other inside => joints other (List.mem_cons_of_mem first inside))
      (fun other inside => writable other (List.mem_cons_of_mem first inside)) h.ends.endsWord member

theorem WellFormed.endsWord_bodyTail {l : PathLayout} (h : l.WellFormed) : EndsWord l.bodyTail := by
  rcases h.bodyTail_cases with empty | ⟨gap, step, rest, blank, _, shape, _⟩
  · rw [empty]
    exact .nil
  · rw [shape]
    exact blank.endsWord _

theorem WellFormed.mem_frontWord_bodyTail {l : PathLayout} (h : l.WellFormed) {c : Char}
    (member : c ∈ frontWord l.bodyTail) : isStepChar c = true ∨ c = '-' := by
  rcases h.bodyTail_cases with empty | ⟨gap, step, rest, blank, writable, shape, plain⟩
  · rw [empty] at member
    cases member
  · rw [shape, frontWord_step blank writable, List.mem_append] at member
    rcases member with letter | later
    · exact Or.inl (Step.isStepChar_of_mem_text writable letter)
    · exact plain c later

theorem WellFormed.digit_frontWord_bodyTail {l : PathLayout} (h : l.WellFormed) :
    frontWord l.bodyTail = [] ∨ ∃ c ∈ frontWord l.bodyTail, isDigit c = true := by
  rcases h.bodyTail_cases with empty | ⟨gap, step, rest, blank, writable, shape, _⟩
  · exact Or.inl (by rw [empty, frontWord_nil])
  · obtain ⟨c, member, digit⟩ := Step.exists_digit_text writable
    exact Or.inr ⟨c, by rw [shape, frontWord_step blank writable]; exact List.mem_append_left _ member, digit⟩

theorem visible_offset {number : List Char} (h : isNumeral number = true) :
    ∀ c ∈ number ++ ['%'], isBlank c = false := by
  intro c member
  rcases List.mem_append.mp member with digit | percent
  · exact not_isBlank_of_isDigit ((isNumeral_iff.mp h).2 c digit)
  · rw [List.mem_singleton.mp percent]
    decide

theorem digit_offset {number : List Char} (h : isNumeral number = true) :
    ∃ c ∈ number ++ ['%'], isDigit c = true := by
  obtain ⟨filled, all⟩ := isNumeral_iff.mp h
  obtain ⟨c, member⟩ := List.exists_mem_of_ne_nil _ filled
  exact ⟨c, List.mem_append_left _ member, all c member⟩

theorem WellFormed.headOffset {l : PathLayout} (h : l.WellFormed) :
    headOffset l.offsetTail = (l.offset.map fun (_, number) => number ++ ['%'], l.bodyTail) := by
  unfold offsetTail
  cases shape : l.offset with
  | none =>
    refine headOffset_of_not_mem fun member => ?_
    rcases h.mem_frontWord_bodyTail member with stepChar | dash
    · exact absurd stepChar (by decide)
    · exact absurd dash (by decide)
  | some part =>
    obtain ⟨gap, number⟩ := part
    obtain ⟨blank, numeral⟩ := h.offset gap number shape
    have cut := cut_gap blank (visible_offset numeral) (by simp) h.endsWord_bodyTail
    have percentage : isPercentage (number ++ ['%']) = true := by simp [isPercentage, numeral]
    simp only [HexAtlas.headOffset, offsetText, List.append_assoc] at cut ⊢
    rw [cut]
    simp [percentage]

theorem WellFormed.endsWord_offsetTail {l : PathLayout} (h : l.WellFormed) : EndsWord l.offsetTail := by
  unfold offsetTail
  cases shape : l.offset with
  | none => exact h.endsWord_bodyTail
  | some part =>
    rw [offsetText, List.append_assoc]
    exact (h.offset part.1 part.2 shape).1.endsWord _

/-- Neither an offset nor a step is a keyword. -/
theorem WellFormed.digit_frontWord_offsetTail {l : PathLayout} (h : l.WellFormed) :
    frontWord l.offsetTail = [] ∨ ∃ c ∈ frontWord l.offsetTail, isDigit c = true := by
  unfold offsetTail
  cases shape : l.offset with
  | none => exact h.digit_frontWord_bodyTail
  | some part =>
    obtain ⟨gap, number⟩ := part
    obtain ⟨blank, numeral⟩ := h.offset gap number shape
    right
    rw [offsetText, List.append_assoc, frontWord,
      cut_gap blank (visible_offset numeral) (by simp) h.endsWord_bodyTail]
    exact digit_offset numeral

/-- Neither an offset nor a step holds a quote. -/
theorem WellFormed.not_quote_frontWord_offsetTail {l : PathLayout} (h : l.WellFormed) :
    '"' ∉ frontWord l.offsetTail := by
  unfold offsetTail
  intro member
  cases shape : l.offset with
  | none =>
    rw [shape] at member
    rcases h.mem_frontWord_bodyTail member with stepChar | dash
    · exact absurd stepChar (by decide)
    · exact absurd dash (by decide)
  | some part =>
    obtain ⟨gap, number⟩ := part
    obtain ⟨blank, numeral⟩ := h.offset gap number shape
    rw [shape, offsetText, List.append_assoc, frontWord,
      cut_gap blank (visible_offset numeral) (by simp) h.endsWord_bodyTail] at member
    simp only [isNumeral, Bool.and_eq_true, List.all_eq_true] at numeral
    rcases List.mem_append.mp member with digit | percent
    · exact absurd (numeral.2 _ digit) (by decide)
    · exact absurd (List.mem_singleton.mp percent) (by decide)

theorem visible_keyword (side : Side) : ∀ c ∈ side.keyword.toList, isBlank c = false ∧ c ≠ '"' := by
  have all : side.keyword.toList.all (fun c => !isBlank c && c != '"') = true := by cases side <;> decide
  intro c member
  simpa using List.all_eq_true.mp all c member

theorem keyword_ne_nil (side : Side) : side.keyword.toList ≠ [] := by
  cases side <;> decide

theorem ofKeyword?_keyword (side : Side) : Side.ofKeyword? side.keyword = some side := by
  cases side <;> decide

theorem WellFormed.headSide {l : PathLayout} (h : l.WellFormed) :
    headSide l.sideTail = (l.side.map Prod.snd, l.offsetTail) := by
  unfold sideTail
  cases shape : l.side with
  | none => exact headSide_of_ne (ne_keyword_of_digit h.digit_frontWord_offsetTail)
  | some part =>
    have cut := cut_gap (h.side part.1 part.2 shape) (fun c member => (visible_keyword part.2 c member).1)
      (keyword_ne_nil part.2) h.endsWord_offsetTail
    simp only [HexAtlas.headSide, sideText, List.append_assoc] at cut ⊢
    rw [cut]
    simp [ofKeyword?_keyword]

theorem WellFormed.not_quote_frontWord_sideTail {l : PathLayout} (h : l.WellFormed) :
    '"' ∉ frontWord l.sideTail := by
  unfold sideTail
  cases shape : l.side with
  | none => exact h.not_quote_frontWord_offsetTail
  | some part =>
    rw [sideText, List.append_assoc, frontWord, cut_gap (h.side part.1 part.2 shape)
      (fun c member => (visible_keyword part.2 c member).1) (keyword_ne_nil part.2) h.endsWord_offsetTail]
    exact fun member => (visible_keyword part.2 _ member).2 rfl

theorem WellFormed.headLabel {l : PathLayout} (h : l.WellFormed) :
    headLabel l.labelTail = (l.label.map fun (_, text) => text.toList, l.sideTail) := by
  unfold labelTail
  cases shape : l.label with
  | none => exact headLabel_of_not_mem h.not_quote_frontWord_sideTail
  | some part =>
    obtain ⟨gap, text⟩ := part
    obtain ⟨blank, nonempty, unquoted⟩ := h.label gap text shape
    have start : trimStart (gap ++ '"' :: (text.toList ++ '"' :: l.sideTail)) =
        '"' :: (text.toList ++ '"' :: l.sideTail) := by
      refine trimStart_gap blank.blank fun c atHead => ?_
      cases atHead
      decide
    have cut := cutAt?_append unquoted l.sideTail
    simp only [labelText, List.append_assoc, List.cons_append, List.nil_append]
    rw [HexAtlas.headLabel, start]
    simp only [cut, nonempty, if_false, Option.map_some]

theorem WellFormed.endsWord_labelTail {l : PathLayout} (h : l.WellFormed) : EndsWord l.labelTail := by
  unfold labelTail
  cases label : l.label with
  | some part =>
    rw [labelText, List.append_assoc]
    exact (h.label part.1 part.2 label).1.endsWord _
  | none =>
    rw [labelText, List.nil_append, sideTail]
    cases side : l.side with
    | some part =>
      rw [sideText, List.append_assoc]
      exact (h.side part.1 part.2 side).endsWord _
    | none => exact h.endsWord_offsetTail

theorem chained?_of_endsWord {cs : List Char} (ends : EndsWord cs) : chained? cs = some ([], cs) := by
  unfold chained?
  split
  · exact absurd (ends '-' rfl) (by decide)
  · rfl

/-- Every dash of the chain is followed by its step, and the chain ends at a blank. -/
theorem chained?_chainText {steps : List Step} {rest : List Char} (writable : ∀ step ∈ steps, step.Writable)
    (ends : EndsWord rest) : chained? (chainText steps ++ rest) = some (steps, rest) := by
  induction steps with
  | nil => exact chained?_of_endsWord ends
  | cons step more ih =>
    have first := writable step List.mem_cons_self
    have later := ih fun other member => writable other (List.mem_cons_of_mem step member)
    have stop : EndsSegment (chainText more ++ rest) := by
      cases more with
      | nil => exact ends.endsSegment
      | cons next tail =>
        intro c atHead
        cases atHead
        decide
    have cut := segment_append (fun c member => Step.not_isSeparator_of_mem_text first member) stop
    have shape : chainText (step :: more) ++ rest = '-' :: (step.text.toList ++ (chainText more ++ rest)) := by
      simp only [chainText, List.flatMap_cons, List.cons_append, List.append_assoc]
    rw [shape, chained?]
    simp only [cut, Step.parse?_text first, later, Option.bind_eq_bind, Option.bind_some]

theorem WellFormed.read {l : PathLayout} (h : l.WellFormed) : PathLine.parse? l.print = some l.path := by
  have front : l.print.take 4 = l.start.text.toList := by
    rw [print, List.take_left' (Hex.length_text h.start)]
  have back : l.print.drop 4 = chainText l.chain ++ (l.kindGap ++ (l.kind.toList ++ l.labelTail)) := by
    rw [print, List.drop_left' (Hex.length_text h.start)]
  have chained := chained?_chainText h.chain (h.kindGap.endsWord (l.kind.toList ++ l.labelTail))
  have kind := cut_gap h.kindGap h.kind_visible h.kind_nonempty h.endsWord_labelTail
  have blank : startsBlank (l.kindGap ++ (l.kind.toList ++ l.labelTail)) = true := by
    cases gap : l.kindGap with
    | nil => exact absurd gap h.kindGap.nonempty
    | cons c more => exact h.kindGap.blank c (gap ▸ List.mem_cons_self)
  have body := segments_body h.joints h.body h.ends
  have steps : l.chain ++ l.body.map Prod.snd ≠ [] := by
    rcases h.steps with chain | body
    · exact fun empty => chain (List.append_eq_nil_iff.mp empty).1
    · exact fun empty => body (List.map_eq_nil_iff.mp (List.append_eq_nil_iff.mp empty).2)
  unfold PathLine.parse?
  -- A part of the header that is absent takes nothing, since the next word is no label, no side and no offset.
  simp only [front, Hex.parse?_text h.start, back, chained, kind, blank, h.kind_nonempty, h.kind_unquoted,
    h.headLabel, h.headSide, h.headOffset, bodyTail, body, steps, Option.bind_eq_bind, Option.bind_some]
  simp [path, Option.map_map, Function.comp_def]

/-- Every layout is read as the path that it writes, so two lines are read alike exactly if they write the same
path: it does not matter whether steps are chained to the start or follow the header, nor how the parts are set
apart. -/
theorem parse?_print {l : PathLayout} (h : l.WellFormed) :
    PathLine.parse? l.print = some l.path ∧
      ∀ other : PathLayout, other.WellFormed →
        (PathLine.parse? other.print = PathLine.parse? l.print ↔ other.path = l.path) := by
  refine ⟨h.read, fun other wellFormed => ?_⟩
  rw [h.read, wellFormed.read]
  exact Option.some_inj

/-- A river with a full header, a chained step, steps of the body joined in both ways, and a remark. -/
def silverRun : PathLayout where
  start := ⟨3, 5⟩
  chain := [.reach ⟨3, 6⟩]
  kindGap := [' ']
  kind := "river"
  label := some ([' '], "Silver Run")
  side := some ([' ', '\t'], .right)
  offset := some ([' '], ['3', '0'])
  body := [([' '], .toward .southEast 2), ([' ', ' '], .toward .south 4294967295), (['-'], .reach ⟨6, 8⟩)]
  trailing := " to the sea 0104".toList

/-- The same walk with every step behind the header. -/
def silverRunBody : PathLayout :=
  { silverRun with
    chain := []
    body := ([' '], .reach ⟨3, 6⟩) :: silverRun.body
    trailing := [] }

theorem silverRun_joints : ∀ part ∈ silverRun.body, IsJoint part.1 := by
  intro part member
  simp only [silverRun, List.mem_cons, List.not_mem_nil, or_false] at member
  rcases member with rfl | rfl | rfl
  · exact Or.inl (isGap_of_all (by decide))
  · exact Or.inl (isGap_of_all (by decide))
  · exact Or.inr rfl

theorem silverRun_wellFormed : silverRun.WellFormed where
  start := by constructor <;> decide
  chain := by
    intro step member
    rw [List.mem_singleton.mp member]
    constructor <;> decide
  kindGap := isGap_of_all (by decide)
  kind_nonempty := by decide
  kind_visible := by
    have visible : silverRun.kind.toList.all (!isBlank ·) = true := by decide +kernel
    simpa only [List.all_eq_true, Bool.not_eq_true'] using visible
  kind_unquoted := by decide
  label := by
    rintro gap text ⟨⟩
    exact ⟨isGap_of_all (by decide), by decide, by decide⟩
  side := by
    rintro gap side ⟨⟩
    exact isGap_of_all (by decide)
  offset := by
    rintro gap number ⟨⟩
    exact ⟨isGap_of_all (by decide), by decide⟩
  body := by
    intro part member
    simp only [silverRun, List.mem_cons, List.not_mem_nil, or_false] at member
    rcases member with rfl | rfl | rfl
    · show 2 < 4294967296
      decide
    · show 4294967295 < 4294967296
      decide
    · constructor <;> decide
  body_first := by
    rintro part ⟨⟩
    exact isGap_of_all (by decide)
  body_later := fun part member => silverRun_joints part (List.mem_of_mem_tail member)
  trailing := Or.inr ⟨by decide, Or.inr ⟨[' '], "to the sea 0104".toList, isGap_of_all (by decide), rfl, by decide⟩⟩
  steps := Or.inl (by decide)

theorem silverRunBody_wellFormed : silverRunBody.WellFormed where
  start := silverRun_wellFormed.start
  chain := List.forall_mem_nil _
  kindGap := silverRun_wellFormed.kindGap
  kind_nonempty := silverRun_wellFormed.kind_nonempty
  kind_visible := silverRun_wellFormed.kind_visible
  kind_unquoted := silverRun_wellFormed.kind_unquoted
  label := silverRun_wellFormed.label
  side := silverRun_wellFormed.side
  offset := silverRun_wellFormed.offset
  body := List.forall_mem_cons.mpr ⟨silverRun_wellFormed.chain _ List.mem_cons_self, silverRun_wellFormed.body⟩
  body_first := by
    rintro part ⟨⟩
    exact isGap_of_all (by decide)
  body_later := silverRun_joints
  trailing := Or.inl rfl
  steps := Or.inr (List.cons_ne_nil _ _)

/-- Both notations of the river, and what they are read as. -/
theorem parse?_print_silverRun :
    PathLine.parse? "0305-0306 river \"Silver Run\" \tright 30% se2  s4294967295-0608 to the sea 0104".toList =
      some {
      kind := "river"
      label := some "Silver Run"
      side := some .right
      labelStart := some "30%"
      start := ⟨3, 5⟩
      steps := [.reach ⟨3, 6⟩, .toward .southEast 2, .toward .south 4294967295, .reach ⟨6, 8⟩] } ∧
    PathLine.parse? silverRunBody.print = PathLine.parse? silverRun.print :=
  ⟨(parse?_print silverRun_wellFormed).1,
    ((parse?_print silverRun_wellFormed).2 _ silverRunBody_wellFormed).mpr rfl⟩

end PathLayout

end HexAtlas
