import HexAtlas.Proofs.Table
import HexAtlas.Proofs.Text.Cut

namespace HexAtlas.Attributes

/-- A pair whose key is one word and whose value can stand between quotes. -/
structure Writable (pair : String × String) : Prop where
  nonempty : pair.1.toList ≠ []
  visible : ∀ c ∈ pair.1.toList, isBlank c = false
  /-- No value begins inside the key. -/
  closed : ¬ ['=', '"'] <:+: pair.1.toList
  unquoted : '"' ∉ pair.2.toList

/-- What may stand before a key: nothing, or words and blanks that end with a blank. -/
structure IsLead (lead : List Char) : Prop where
  /-- No value begins inside a word. -/
  closed : ¬ ['=', '"'] <:+: lead
  apart : lead.getLast?.all isBlank = true

instance (pair : String × String) : Decidable (Writable pair) :=
  decidable_of_iff (pair.1.toList ≠ [] ∧ pair.1.toList.all (!isBlank ·) = true ∧
      splitAt? ['=', '"'] pair.1.toList = none ∧ '"' ∉ pair.2.toList)
    ⟨fun ⟨nonempty, visible, closed, unquoted⟩ =>
        ⟨nonempty, all_visible_iff.mp visible, splitAt?_eq_none_iff.mp closed, unquoted⟩,
      fun ⟨nonempty, visible, closed, unquoted⟩ =>
        ⟨nonempty, all_visible_iff.mpr visible, splitAt?_eq_none_iff.mpr closed, unquoted⟩⟩

instance (lead : List Char) : Decidable (IsLead lead) :=
  decidable_of_iff (splitAt? ['=', '"'] lead = none ∧ lead.getLast?.all isBlank = true)
    ⟨fun ⟨closed, apart⟩ => ⟨splitAt?_eq_none_iff.mp closed, apart⟩,
      fun ⟨closed, apart⟩ => ⟨splitAt?_eq_none_iff.mpr closed, apart⟩⟩

/-- Pairs, each with what stands before it. -/
def laid (parts : List (List Char × (String × String))) : List Char :=
  parts.flatMap fun (lead, pair) => lead ++ printPair pair

theorem attributePairs_eq_nil {cs : List Char} (free : ¬ ['=', '"'] <:+: cs) : attributePairs cs = [] := by
  rw [attributePairs]
  split
  · rfl
  · rename_i found
    rw [splitAt?_eq_none_iff.mpr free] at found
    cases found

theorem attributePairs_cons {cs before quoted value rest : List Char}
    (sign : splitAt? ['=', '"'] cs = some (before, quoted)) (quote : cutAt? '"' quoted = some (value, rest)) :
    attributePairs cs = (lastWord before, value) :: attributePairs rest := by
  rw [attributePairs]
  split
  · rename_i missing
    rw [sign] at missing
    cases missing
  · rename_i found
    rw [sign] at found
    cases found
    split
    · rename_i missing
      rw [quote] at missing
      cases missing
    · rename_i found
      rw [quote] at found
      cases found
      rfl

theorem lastWord_append {lead key : List Char} (apart : lead.getLast?.all isBlank = true)
    (visible : ∀ c ∈ key, isBlank c = false) : lastWord (lead ++ key) = key := by
  rw [← List.head?_reverse] at apart
  have word : ∀ c ∈ key.reverse, (!isBlank c) = true :=
    fun c member => by simp [visible c (List.mem_reverse.mp member)]
  have ends : ∀ c, lead.reverse.head? = some c → (!isBlank c) = false :=
    fun c atHead => by simpa [atHead] using apart
  have taken := (run_append (p := (!isBlank ·)) word ends).1
  rw [lastWord, List.reverse_append, taken, List.reverse_reverse]

/-- A value begins neither before a key nor inside it, and not across both as a blank stands between. -/
theorem IsLead.not_infix_append {lead key : List Char} (h : IsLead lead) (closed : ¬ ['=', '"'] <:+: key) :
    ¬ ['=', '"'] <:+: lead ++ key := by
  obtain ⟨before, apart⟩ := h
  induction lead with
  | nil => exact closed
  | cons c more ih =>
    intro inside
    rcases List.infix_cons_iff.mp inside with start | later
    · obtain ⟨rfl, quote⟩ := List.cons_prefix_cons.mp start
      cases more with
      | nil => cases apart
      | cons d rest =>
        obtain ⟨rfl, _⟩ := List.cons_prefix_cons.mp quote
        exact before ⟨[], rest, rfl⟩
    · refine ih (fun value => before (List.infix_cons value)) ?_ later
      cases more with
      | nil => rfl
      | cons d rest => rwa [List.getLast?_cons_cons] at apart

theorem attributePairs_append {lead : List Char} {pair : String × String} (before : IsLead lead)
    (own : Writable pair)
    (rest : List Char) : attributePairs (lead ++ printPair pair ++ rest) =
      (pair.1.toList, pair.2.toList) :: attributePairs rest := by
  have shape : lead ++ printPair pair ++ rest =
      (lead ++ pair.1.toList) ++ '=' :: '"' :: (pair.2.toList ++ '"' :: rest) := by simp [printPair]
  have sign := splitAt?_append (a := '=') (b := '"') (by decide) (before.not_infix_append own.closed)
    (pair.2.toList ++ '"' :: rest)
  rw [← shape] at sign
  rw [attributePairs_cons sign (cutAt?_append own.unquoted rest), lastWord_append before.apart own.visible]

theorem attributePairs_laid {parts : List (List Char × (String × String))}
    (sound : ∀ part ∈ parts, IsLead part.1 ∧ Writable part.2) {trailing : List Char}
    (last : ¬ ['=', '"'] <:+: trailing) :
    attributePairs (laid parts ++ trailing) = parts.map fun part => (part.2.1.toList, part.2.2.toList) := by
  induction parts with
  | nil => exact attributePairs_eq_nil last
  | cons part more ih =>
    obtain ⟨before, own⟩ := sound part List.mem_cons_self
    have later := ih fun other member => sound other (List.mem_cons_of_mem part member)
    have shape : laid (part :: more) ++ trailing = part.1 ++ printPair part.2 ++ (laid more ++ trailing) := by
      simp [laid]
    rw [shape, attributePairs_append before own, later, List.map_cons]

theorem parse_laid {parts : List (List Char × (String × String))}
    (sound : ∀ part ∈ parts, IsLead part.1 ∧ Writable part.2) {trailing : List Char}
    (last : ¬ ['=', '"'] <:+: trailing) :
    parse (laid parts ++ trailing) = Table.ofList (parts.map Prod.snd) := by
  have named : ∀ pair ∈ parts.map fun part => (part.2.1.toList, part.2.2.toList), decide (pair.1 ≠ []) = true := by
    intro pair member
    obtain ⟨part, listed, rfl⟩ := List.mem_map.mp member
    exact decide_eq_true (sound part listed).2.nonempty
  rw [parse, attributePairs_laid sound last, List.filter_eq_self.mpr named, List.map_map]
  congr 1
  exact List.map_congr_left fun part _ => by simp

theorem print_eq_laid (pair : String × String) (more : List (String × String)) :
    print (pair :: more) = laid (([], pair) :: more.map fun other => ([' '], other)) := by
  induction more generalizing pair with
  | nil => simp [print, laid]
  | cons next rest ih =>
    have later := ih next
    simp only [print, laid, List.map_cons, List.intercalate_cons_cons, List.flatMap_cons,
      List.nil_append] at later ⊢
    rw [later]
    simp

/-- A list as it is usually written, with a space between two pairs. -/
theorem parse_print {pairs : List (String × String)} (sound : ∀ pair ∈ pairs, Writable pair) :
    parse (print pairs) = Table.ofList pairs := by
  have free : ¬ ['=', '"'] <:+: ([] : List Char) := by simp
  cases pairs with
  | nil =>
    have none : ∀ part ∈ ([] : List (List Char × (String × String))), IsLead part.1 ∧ Writable part.2 := nofun
    exact parse_laid none free
  | cons pair more =>
    have spaced : ∀ part ∈ ([], pair) :: more.map fun other => ([' '], other), IsLead part.1 ∧ Writable part.2 := by
      intro part member
      rcases List.mem_cons.mp member with rfl | later
      · exact ⟨(by decide : IsLead []), sound pair List.mem_cons_self⟩
      · obtain ⟨other, listed, rfl⟩ := List.mem_map.mp later
        exact ⟨(by decide : IsLead [' ']), sound other (List.mem_cons_of_mem pair listed)⟩
    have read := parse_laid spaced free
    rw [List.append_nil, ← print_eq_laid] at read
    rw [read, List.map_cons, List.map_map]
    exact congrArg (fun others => Table.ofList (pair :: others)) (List.map_id more)

/-- The last word of a text without the start of a value. -/
theorem lastWord_spec {before : List Char} (free : ¬ ['=', '"'] <:+: before) :
    (∀ c ∈ lastWord before, isBlank c = false) ∧ ¬ ['=', '"'] <:+: lastWord before := by
  constructor
  · intro c member
    have taken := List.all_eq_true.mp List.all_takeWhile c (List.mem_reverse.mp member)
    simpa using taken
  · intro inside
    refine free (inside.trans ?_)
    have suffix := List.reverse_suffix.mpr (List.takeWhile_prefix (!isBlank ·) (l := before.reverse))
    rw [List.reverse_reverse] at suffix
    exact suffix.isInfix

theorem writable_of_mem_attributePairs {cs : List Char} {pair : List Char × List Char}
    (member : pair ∈ attributePairs cs) (named : pair.1 ≠ []) :
    Writable (String.ofList pair.1, String.ofList pair.2) := by
  fun_induction attributePairs cs with
  | case1 => cases member
  | case2 => cases member
  | case3 cs before quoted sign value rest quote ih =>
    rcases List.mem_cons.mp member with rfl | later
    · obtain ⟨visible, closed⟩ := lastWord_spec (not_infix_of_splitAt? (List.cons_ne_nil _ _) sign)
      have unquoted := (cutAt?_eq_some_iff.mp quote).2
      exact ⟨by simpa using named, by simpa using visible, by simpa using closed, by simpa using unquoted⟩
    · exact ih later

theorem writable_of_mem_parse {cs : List Char} {pair : String × String} (member : pair ∈ (parse cs).entries) :
    Writable pair := by
  obtain ⟨chars, listed, rfl⟩ := List.mem_map.mp (Table.mem_of_mem_ofList member)
  obtain ⟨inside, named⟩ := List.mem_filter.mp listed
  exact writable_of_mem_attributePairs inside (of_decide_eq_true named)

/-- Pairs that are written with blanks or words between them are read as if they were set in turn, and what is read
from any text is read again from its pairs. -/
theorem parse_written {parts : List (List Char × (String × String))}
    (sound : ∀ part ∈ parts, IsLead part.1 ∧ Writable part.2) {trailing : List Char}
    (last : ¬ ['=', '"'] <:+: trailing) (cs : List Char) :
    parse (laid parts ++ trailing) = Table.ofList (parts.map Prod.snd) ∧
      parse (print (parse cs).entries) = parse cs := by
  constructor
  · exact parse_laid sound last
  · rw [parse_print fun _ => writable_of_mem_parse]
    exact (distinct_parse cs).ofList_entries

/-- Words with signs of equality and quotes before a key, pairs side by side, signs of equality in a key and a
value, and a key that is set twice. -/
theorem parse_written_crowded :
    let parts := [("junk= ".toList, ("fill", "red")), ([], ("x=y", "a = b")), ([], ("\"r", "")),
      (" a=b \"on ".toList, ("fill", "blue"))]
    (∀ part ∈ parts, IsLead part.1 ∧ Writable part.2) ∧ ¬ ['=', '"'] <:+: " end=".toList ∧
      parse "junk= fill=\"red\"x=y=\"a = b\"\"r=\"\" a=b \"on fill=\"blue\" end=".toList =
        ⟨[("fill", "blue"), ("x=y", "a = b"), ("\"r", "")]⟩ := by
  intro parts
  have sound : ∀ part ∈ parts, IsLead part.1 ∧ Writable part.2 := by decide
  have last : ¬ ['=', '"'] <:+: " end=".toList := by decide
  exact ⟨sound, last, (parse_written sound last []).1⟩

end HexAtlas.Attributes
