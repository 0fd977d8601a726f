import HexAtlas.Proofs.Line.Shapes
import Mathlib.Data.List.Chain
import Mathlib.Data.List.TakeWhile

namespace HexAtlas

/-- A part of a region line. A label comes with its size, if it has one, and the blanks before that. -/
inductive RegionItem where
  | tag (text : String)
  | label (text : String) (size : Option (List Char × String))

namespace RegionItem

def text : RegionItem → List Char
  | tag text => text.toList
  | label text none => '"' :: (text.toList ++ ['"'])
  | label text (some (gap, size)) => '"' :: (text.toList ++ '"' :: (gap ++ size.toList))

def tag? : RegionItem → Option String
  | tag text => some text
  | label .. => none

def label? : RegionItem → Option (String × Option String)
  | tag _ => none
  | label text size => some (text, size.map Prod.snd)

def WellFormed : RegionItem → Prop
  | tag text =>
    text.toList ≠ [] ∧ (∀ c ∈ text.toList, isBlank c = false) ∧ '"' ∉ text.toList ∧ Step.parse? text.toList = none
  | label text size =>
    text.toList ≠ [] ∧ '"' ∉ text.toList ∧
      ∀ gap token, size = some (gap, token) → (∀ c ∈ gap, isBlank c = true) ∧ isSize token.toList = true

/-- A tag right behind a label without a size does not look like a size. -/
def Apart : RegionItem → RegionItem → Prop
  | label _ none, tag text => isSize text.toList = false
  | _, _ => True

end RegionItem

/-- A region line in its parts, each item with the blanks before it. -/
structure RegionLayout where
  cell : Hex
  variant : Option String
  items : List (List Char × RegionItem)
  /-- Blanks after the last item. -/
  trailing : List Char

namespace RegionLayout

def itemsText (items : List (List Char × RegionItem)) : List Char :=
  items.flatMap fun (gap, item) => gap ++ item.text

def body (l : RegionLayout) : List Char := itemsText l.items ++ l.trailing

def print (l : RegionLayout) : List Char := l.cell.text.toList ++ ((l.variant.getD "").toList ++ l.body)

def tags (items : List (List Char × RegionItem)) : List String := items.filterMap fun (_, item) => item.tag?

def labels (items : List (List Char × RegionItem)) : List (String × Option String) :=
  items.filterMap fun (_, item) => item.label?

def region (l : RegionLayout) : Region where
  hex := l.cell
  variant := l.variant.getD Region.defaultVariant
  label := (labels l.items).getLast?.map Prod.fst
  size := (labels l.items).getLast?.bind Prod.snd
  types := tags l.items

/-- Items that can be told apart: a gap before each of them, and no tag that would be taken for a size. -/
structure Itemized (items : List (List Char × RegionItem)) : Prop where
  gap : ∀ part ∈ items, IsGap part.1
  item : ∀ part ∈ items, part.2.WellFormed
  apart : items.IsChain fun before after => before.2.Apart after.2

structure WellFormed (l : RegionLayout) : Prop where
  cell : l.cell.OnGrid
  variant : ∀ variant, l.variant = some variant →
    ∃ a b, variant.toList = [a, b] ∧ isDigit a = true ∧ isDigit b = true
  items : Itemized l.items
  trailing : ∀ c ∈ l.trailing, isBlank c = true

end RegionLayout

theorem isSize_head {token : List Char} (h : isSize token = true) :
    ∃ c rest, token = c :: rest ∧ isDigit c = true := by
  simp only [isSize, Bool.and_eq_true] at h
  obtain ⟨c, atHead, digit⟩ := (Option.any_eq_true ..).mp h.1.1
  cases token with
  | nil => cases atHead
  | cons d rest =>
    rw [List.takeWhile_cons] at atHead
    split at atHead
    · cases atHead
      exact ⟨_, rest, rfl, digit⟩
    · cases atHead

theorem isSize_of_not_digit {c : Char} {rest : List Char} (h : isDigit c = false) : isSize (c :: rest) = false := by
  by_cases point : c = '.'
  · simp [isSize, point, show isDigit '.' = false from rfl]
  · simp [isSize, h, point]

theorem not_isBlank_of_isAlpha {c : Char} (h : c.isAlpha = true) : isBlank c = false := by
  have letter :
    (decide (c.val ≥ 'A'.val ∧ c.val ≤ 'Z'.val) || (decide (c.val ≥ 'a'.val) && decide (c.val ≤ 'z'.val))) =
      true := h
  simp only [Bool.or_eq_true, Bool.and_eq_true, decide_eq_true_eq, ge_iff_le, UInt32.le_iff_toNat_le] at letter
  simp [isBlank]
  have code : c.val.toNat = c.toNat := rfl
  rcases letter with ⟨lower, upper⟩ | ⟨lower, upper⟩ <;> simp at lower upper <;> omega

theorem eq_of_mem_of_isSize {token : List Char} (h : isSize token = true) {c : Char} (member : c ∈ token) :
    isDigit c = true ∨ c = '.' ∨ c.isAlpha = true ∨ c = '%' := by
  simp only [isSize, Bool.and_eq_true, List.all_eq_true, Bool.or_eq_true, decide_eq_true_eq] at h
  rw [← List.takeWhile_append_dropWhile (p := fun c => isDigit c || decide (c = '.')) (l := token),
    List.mem_append] at member
  rcases member with number | unit
  · have plain := List.mem_takeWhile_imp number
    simp only [Bool.or_eq_true, decide_eq_true_eq] at plain
    exact plain.imp_right Or.inl
  · exact Or.inr (Or.inr (h.2 c unit))

theorem not_isBlank_of_isSize {token : List Char} (h : isSize token = true) : ∀ c ∈ token, isBlank c = false := by
  intro c member
  rcases eq_of_mem_of_isSize h member with digit | rfl | letter | rfl
  · exact not_isBlank_of_isDigit digit
  · decide
  · exact not_isBlank_of_isAlpha letter
  · decide

theorem quote_not_mem_of_isSize {token : List Char} (h : isSize token = true) : '"' ∉ token := by
  intro member
  rcases eq_of_mem_of_isSize h member with digit | point | letter | percent
  · exact absurd digit (by decide)
  · exact absurd point (by decide)
  · exact absurd letter (by decide)
  · exact absurd percent (by decide)

/-- The first quoted text that is not empty is a label, with the word behind it if that is a size. -/
theorem findLabel?_append {before text : List Char} (outside : '"' ∉ before) (inside : '"' ∉ text)
    (nonempty : text ≠ []) (after : List Char) :
    findLabel? (before ++ '"' :: (text ++ '"' :: after)) = some (
      if isSize (word (trimStart after)).1 then
        ⟨before, text, some (word (trimStart after)).1, (word (trimStart after)).2⟩
      else ⟨before, text, none, after⟩) := by
  have opened := cutAt?_append outside (text ++ '"' :: after)
  have closed := cutAt?_append inside after
  unfold findLabel?
  rw [opened]
  simp only
  split
  · rename_i unclosed
    rw [closed] at unclosed
    cases unclosed
  · rename_i empty
    rw [closed] at empty
    cases empty
    exact absurd rfl nonempty
  · rename_i found
    rw [closed] at found
    cases found
    split <;> rfl

theorem takeLabels_cons {cs : List Char} {found : LabelFound} (h : findLabel? cs = some found)
    (last : Option (List Char × Option (List Char))) :
    takeLabels last cs = takeLabels (some (found.text, found.size)) (found.before ++ ' ' :: found.after) := by
  rw [takeLabels]
  split
  · rename_i missing
    rw [h] at missing
    cases missing
  · rename_i other same
    rw [h] at same
    cases same
    rfl

namespace RegionLayout

theorem itemsText_cons (gap : List Char) (item : RegionItem) (rest : List (List Char × RegionItem))
    (trailing : List Char) :
    itemsText ((gap, item) :: rest) ++ trailing = gap ++ (item.text ++ (itemsText rest ++ trailing)) := by
  simp only [itemsText, List.flatMap_cons, List.append_assoc]

theorem Itemized.tail {part : List Char × RegionItem} {rest : List (List Char × RegionItem)}
    (h : Itemized (part :: rest)) : Itemized rest where
  gap := fun other member => h.gap other (List.mem_cons_of_mem part member)
  item := fun other member => h.item other (List.mem_cons_of_mem part member)
  apart := h.apart.tail

/-- What follows an item is blank at its front, or there is nothing. -/
theorem Itemized.endsWord {items : List (List Char × RegionItem)} {trailing : List Char} (h : Itemized items)
    (blank : ∀ c ∈ trailing, isBlank c = true) : EndsWord (itemsText items ++ trailing) := by
  cases items with
  | nil => exact fun c atHead => blank c (List.mem_of_mem_head? atHead)
  | cons part rest =>
    rw [itemsText_cons]
    exact (h.gap part List.mem_cons_self).endsWord _

/-- The word behind a label without a size is no size. -/
theorem Itemized.not_isSize {gap : List Char} {text : String} {rest : List (List Char × RegionItem)}
    {trailing : List Char}
    (h : Itemized ((gap, .label text none) :: rest)) (blank : ∀ c ∈ trailing, isBlank c = true) :
    isSize (word (trimStart (itemsText rest ++ trailing))).1 = false := by
  cases rest with
  | nil =>
    have trimmed : trimStart trailing = [] := List.dropWhile_eq_nil_iff.mpr blank
    rw [show itemsText [] ++ trailing = trailing from rfl, trimmed]
    rfl
  | cons part more =>
    obtain ⟨gap', item⟩ := part
    have later := h.tail
    have gapped := later.gap _ List.mem_cons_self
    have formed := later.item _ List.mem_cons_self
    rw [itemsText_cons]
    cases item with
    | tag tag =>
      obtain ⟨filled, visible, _⟩ := formed
      have cut := cut_gap gapped visible filled (later.tail.endsWord blank)
      rw [RegionItem.text, cut]
      exact h.apart.rel
    | label label size =>
      have start : ∃ more', (RegionItem.label label size).text = '"' :: more' := by
        cases size <;> exact ⟨_, rfl⟩
      obtain ⟨quoted, quote⟩ := start
      have visible : ∀ c, (RegionItem.text (.label label size) ++ (itemsText more ++ trailing)).head? = some c →
          isBlank c = false := by
        intro c atHead
        rw [quote] at atHead
        cases atHead
        decide
      rw [trimStart_gap gapped.blank visible, quote]
      exact isSize_of_not_digit (by decide)

/-- The items with a blank in the place of every label. -/
def openText (items : List (List Char × RegionItem)) : List Char :=
  items.flatMap fun (gap, item) => gap ++ ((item.tag?.map String.toList).getD [' '])

theorem openText_cons (gap : List Char) (item : RegionItem) (rest : List (List Char × RegionItem)) :
    openText ((gap, item) :: rest) = gap ++ ((item.tag?.map String.toList).getD [' '] ++ openText rest) := by
  simp only [openText, List.flatMap_cons, List.append_assoc]

/-- The last label of some items, if there is one, takes the place of an earlier one. -/
def lastLabel (last : Option (List Char × Option (List Char))) (items : List (List Char × RegionItem)) :
    Option (List Char × Option (List Char)) :=
  (labels items).foldl (fun _ label => some (label.1.toList, label.2.map String.toList)) last

theorem lastLabel_none (items : List (List Char × RegionItem)) :
    lastLabel none items = (labels items).getLast?.map
      fun label => (label.1.toList, label.2.map String.toList) := by
  rw [lastLabel]
  induction labels items using List.reverseRecOn with
  | nil => rfl
  | append_singleton front last _ => simp

theorem text_lastLabel (items : List (List Char × RegionItem)) :
    (lastLabel none items).map (fun (text, _) => String.ofList text) = (labels items).getLast?.map Prod.fst := by
  rw [lastLabel_none]
  simp [Function.comp_def]

theorem size_lastLabel (items : List (List Char × RegionItem)) :
    (lastLabel none items).bind (fun (_, size) => size.map String.ofList) =
      (labels items).getLast?.bind Prod.snd := by
  rw [lastLabel_none]
  cases (labels items).getLast? <;> simp [Function.comp_def]

/-- One label is taken out of the line. -/
theorem Itemized.takeLabels_label {gap : List Char} {text : String} {size : Option (List Char × String)}
    {rest : List (List Char × RegionItem)} {trailing : List Char} (h : Itemized ((gap, .label text size) :: rest))
    (blank : ∀ c ∈ trailing, isBlank c = true) {before : List Char} (outside : '"' ∉ before)
    (last : Option (List Char × Option (List Char))) :
    takeLabels last (before ++ ((RegionItem.label text size).text ++ (itemsText rest ++ trailing))) =
      takeLabels (some (text.toList, size.map fun (_, token) => token.toList))
        (before ++ ' ' :: (itemsText rest ++ trailing)) := by
  obtain ⟨filled, inside, sized⟩ := h.item _ List.mem_cons_self
  cases size with
  | none =>
    have found := findLabel?_append outside inside filled (itemsText rest ++ trailing)
    rw [h.not_isSize blank] at found
    simp only [RegionItem.text, List.cons_append, List.append_assoc, List.nil_append]
    exact takeLabels_cons found last
  | some part =>
    obtain ⟨spaces, token⟩ := part
    obtain ⟨spaced, size⟩ := sized spaces token rfl
    have cut : word (trimStart (spaces ++ (token.toList ++ (itemsText rest ++ trailing)))) =
        (token.toList, itemsText rest ++ trailing) := by
      rw [trimStart_gap spaced, word_append (not_isBlank_of_isSize size) (h.tail.endsWord blank)]
      obtain ⟨c, more, shape, digit⟩ := isSize_head size
      intro d atHead
      rw [shape] at atHead
      cases atHead
      exact not_isBlank_of_isDigit digit
    have found := findLabel?_append outside inside filled (spaces ++ (token.toList ++ (itemsText rest ++ trailing)))
    rw [cut, if_pos size] at found
    simp only [RegionItem.text, List.cons_append, List.append_assoc]
    exact takeLabels_cons found last

/-- All labels are taken out of the line one after another, and the last one is kept. -/
theorem Itemized.takeLabels {items : List (List Char × RegionItem)} {trailing : List Char} (h : Itemized items)
    (blank : ∀ c ∈ trailing, isBlank c = true) {before : List Char} (outside : '"' ∉ before)
    (last : Option (List Char × Option (List Char))) :
    takeLabels last (before ++ (itemsText items ++ trailing)) =
      (lastLabel last items, before ++ (openText items ++ trailing)) := by
  induction items generalizing before last with
  | nil =>
    refine takeLabels_of_not_mem (fun member => ?_) last
    rcases List.mem_append.mp member with front | back
    · exact outside front
    · exact absurd (blank _ back) (by decide)
  | cons part rest ih =>
    obtain ⟨gap, item⟩ := part
    have gapped := h.gap _ List.mem_cons_self
    have unquoted : '"' ∉ before ++ gap := by
      intro member
      rcases List.mem_append.mp member with front | back
      · exact outside front
      · exact absurd (gapped.blank _ back) (by decide)
    rw [itemsText_cons, openText_cons, ← List.append_assoc]
    cases item with
    | tag text =>
      obtain ⟨_, _, plain, _⟩ := h.item _ List.mem_cons_self
      have clean : '"' ∉ before ++ gap ++ text.toList := by
        intro member
        rcases List.mem_append.mp member with front | back
        · exact unquoted front
        · exact plain back
      have rest := ih h.tail clean last
      simpa [RegionItem.text, RegionItem.tag?, lastLabel, labels, RegionItem.label?] using rest
    | label text size =>
      have clean : '"' ∉ before ++ gap ++ [' '] := by
        intro member
        rcases List.mem_append.mp member with front | back
        · exact unquoted front
        · exact absurd back (by decide)
      have taken := h.takeLabels_label blank unquoted last
      have rest := ih h.tail clean (some (text.toList, size.map fun (_, token) => token.toList))
      rw [taken]
      simpa [RegionItem.tag?, lastLabel, labels, RegionItem.label?, Function.comp_def] using rest

theorem Itemized.endsWord_openText {items : List (List Char × RegionItem)} {trailing : List Char}
    (h : Itemized items) (blank : ∀ c ∈ trailing, isBlank c = true) : EndsWord (openText items ++ trailing) := by
  cases items with
  | nil => exact fun c atHead => blank c (List.mem_of_mem_head? atHead)
  | cons part rest =>
    rw [openText_cons, List.append_assoc]
    exact (h.gap part List.mem_cons_self).endsWord _

theorem Itemized.words_openText {items : List (List Char × RegionItem)} {trailing : List Char} (h : Itemized items)
    (blank : ∀ c ∈ trailing, isBlank c = true) :
    words (openText items ++ trailing) = (tags items).map String.toList := by
  induction items with
  | nil =>
    have empty := words_gap blank []
    rw [List.append_nil, words_nil] at empty
    exact empty
  | cons part rest ih =>
    obtain ⟨gap, item⟩ := part
    have later := ih h.tail
    rw [openText_cons, List.append_assoc, words_gap (h.gap _ List.mem_cons_self).blank, List.append_assoc]
    cases item with
    | tag text =>
      obtain ⟨filled, visible, _⟩ := h.item _ List.mem_cons_self
      have first := words_append visible filled (h.tail.endsWord_openText blank)
      simp only [RegionItem.tag?, Option.map_some, Option.getD_some, first, later]
      rfl
    | label text size =>
      have space : words ([' '] ++ (openText rest ++ trailing)) = words (openText rest ++ trailing) :=
        words_gap (List.all_eq_true.mp (by decide)) _
      simp only [RegionItem.tag?, Option.map_none, Option.getD_none, space, later]
      rfl

theorem Itemized.not_step {items : List (List Char × RegionItem)} (h : Itemized items) :
    ((tags items).map String.toList).any (fun tag => (Step.parse? tag).isSome) = false := by
  rw [List.any_eq_false]
  intro tag member
  obtain ⟨text, listed, rfl⟩ := List.mem_map.mp member
  obtain ⟨⟨gap, item⟩, inside, same⟩ := List.mem_filterMap.mp listed
  have formed := h.item _ inside
  cases item with
  | tag text' =>
    cases same
    simp [formed.2.2.2]
  | label => cases same

theorem startsBlank_of_endsWord {cs : List Char} (h : EndsWord cs) : (cs ≠ [] && !startsBlank cs) = false := by
  cases cs with
  | nil => rfl
  | cons c rest => simp [startsBlank, h c rfl]

theorem twoDigits?_of_endsWord {cs : List Char} (h : EndsWord cs) : twoDigits? cs = none := by
  cases cs with
  | nil => rfl
  | cons c rest => exact twoDigits?_eq_none rfl (not_isDigit_of_isBlank (h c rfl))

/-- The variant is there exactly if two more digits follow the cell. -/
theorem WellFormed.variant_cases {l : RegionLayout} (h : l.WellFormed) :
    (l.variant = none ∧ twoDigits? l.body = none) ∨
      ∃ variant n, l.variant = some variant ∧ twoDigits? (variant.toList ++ l.body) = some (n, l.body) ∧
        String.ofList ((variant.toList ++ l.body).take 2) = variant := by
  cases given : l.variant with
  | none => exact Or.inl ⟨rfl, twoDigits?_of_endsWord (h.items.endsWord h.trailing)⟩
  | some variant =>
    obtain ⟨a, b, shape, digitA, digitB⟩ := h.variant variant given
    refine Or.inr ⟨variant, _, rfl, twoDigits?_eq_some_iff.mpr ⟨a, b, ?_, digitA, digitB, rfl⟩, ?_⟩
    · rw [shape]
      rfl
    · rw [List.take_left' (by rw [shape]; rfl), String.ofList_toList]

/-- A layout is read as the region that it writes. -/
theorem parse?_print_eq_region {l : RegionLayout} (h : l.WellFormed) : Region.parse? l.print = some l.region := by
  obtain ⟨a, b, c, d, shape, ⟨digitA, digitB⟩, ⟨digitC, digitD⟩, x, y⟩ := Hex.text_eq h.cell
  have column : ∀ rest, twoDigits? (a :: b :: c :: d :: rest) = some (digitsValue [a, b], c :: d :: rest) :=
    fun rest => twoDigits?_eq_some_iff.mpr ⟨a, b, rfl, digitA, digitB, rfl⟩
  have row : ∀ rest, twoDigits? (c :: d :: rest) = some (digitsValue [c, d], rest) := fun rest =>
    twoDigits?_eq_some_iff.mpr ⟨c, d, rfl, digitC, digitD, rfl⟩
  have gap : (l.body ≠ [] && !startsBlank l.body) = false := startsBlank_of_endsWord (h.items.endsWord h.trailing)
  have taken : takeLabels none l.body = (lastLabel none l.items, openText l.items ++ l.trailing) :=
    h.items.takeLabels h.trailing List.not_mem_nil none
  have left := h.items.words_openText h.trailing
  have plain := h.items.not_step
  have texts : ((tags l.items).map String.toList).map String.ofList = tags l.items := by
    simp [List.map_map, Function.comp_def]
  have line : l.print = a :: b :: c :: d :: ((l.variant.getD "").toList ++ l.body) := by rw [print, shape]; rfl
  unfold Region.parse?
  simp only [line, column, row, Option.bind_eq_bind, Option.bind_some, x, y]
  rcases h.variant_cases with ⟨absent, missing⟩ | ⟨variant, n, given, digits, front⟩
  · simp only [absent, Option.getD_none, String.toList_empty, List.nil_append, missing, gap, taken, left, plain,
      texts, text_lastLabel, size_lastLabel, region, Bool.false_eq_true, if_false]
  · simp only [given, Option.getD_some, digits, front, gap, taken, left, plain, texts, text_lastLabel,
      size_lastLabel, region, Bool.false_eq_true, if_false]

/-- A peak with two labels, the last one without a size, and a number among its tags. -/
def oldPeak : RegionLayout where
  cell := ⟨2, 3⟩
  variant := some "07"
  items := [([' '], .tag "mountain"), ([' '], .label "Old Peak" (some ([' '], "20"))), ([' '], .tag "10"),
    ([' ', '\t'], .label "Route 0102" none), ([' '], .tag "snow")]
  trailing := [' ']

theorem oldPeak_itemized : Itemized oldPeak.items where
  gap := by
    have gaps : oldPeak.items.all (fun part => part.1 != [] && part.1.all isBlank) = true := by decide
    exact fun part member => isGap_of_all (List.all_eq_true.mp gaps part member)
  item := by
    have visible : ∀ {cs : List Char}, cs.all (!isBlank ·) = true → ∀ c ∈ cs, isBlank c = false := by simp
    intro part member
    simp only [oldPeak, List.mem_cons, List.not_mem_nil, or_false] at member
    rcases member with rfl | rfl | rfl | rfl | rfl
    · exact ⟨by decide, visible (by decide), by decide, by decide⟩
    · refine ⟨by decide, by decide, ?_⟩
      rintro gap token ⟨⟩
      exact ⟨List.all_eq_true.mp (by decide), by decide⟩
    · exact ⟨by decide, visible (by decide), by decide, by decide⟩
    · exact ⟨by decide, by decide, nofun⟩
    · exact ⟨by decide, visible (by decide), by decide, by decide⟩
  apart := by
    simp only [oldPeak, List.isChain_cons_cons, List.isChain_singleton, RegionItem.Apart, true_and, and_true]
    decide

theorem oldPeak_wellFormed : oldPeak.WellFormed where
  cell := by constructor <;> decide
  variant := by
    rintro variant ⟨⟩
    exact ⟨'0', '7', by decide, by decide, by decide⟩
  items := oldPeak_itemized
  trailing := List.all_eq_true.mp (by decide)

/-- The peak as a line, and what it is read as. -/
theorem parse?_print_eq_region_oldPeak :
    Region.parse? "020307 mountain \"Old Peak\" 20 10 \t\"Route 0102\" snow ".toList = some {
      hex := ⟨2, 3⟩
      variant := "07"
      label := some "Route 0102"
      size := none
      types := ["mountain", "10", "snow"] } :=
  parse?_print_eq_region oldPeak_wellFormed

end RegionLayout

end HexAtlas
