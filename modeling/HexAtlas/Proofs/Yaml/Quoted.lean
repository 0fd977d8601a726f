import HexAtlas.Proofs.Yaml.Gap

namespace HexAtlas

/-- The answers for a list whose members all have one stand in the order of the members. -/
theorem exists_of_mapM_append_cons {α β : Type} {f : α → Option β} {xs more : List α} {x : α} {ys : List β}
    (h : (xs ++ x :: more).mapM f = some ys) :
    ∃ before y after, xs.mapM f = some before ∧ f x = some y ∧ ys = before ++ y :: after := by
  rw [List.mapM_append, List.mapM_cons] at h
  obtain ⟨before, first, h⟩ := Option.bind_eq_some_iff.mp h
  obtain ⟨found, last, h⟩ := Option.bind_eq_some_iff.mp h
  obtain ⟨y, own, last⟩ := Option.bind_eq_some_iff.mp last
  obtain ⟨after, _, last⟩ := Option.bind_eq_some_iff.mp last
  cases last
  cases h
  exact ⟨before, y, after, first, own, rfl⟩

namespace Yaml

section Escape

variable {c : Char} {cs rest : List Char}

theorem exists_append_of_takeBreak? (h : takeBreak? cs = some (c, rest)) :
    ∃ used, cs = used ++ rest ∧ used ≠ [] ∧ '"' ∉ used := by
  unfold takeBreak? at h
  split at h
  · cases h
    exact ⟨['\r', '\n'], rfl, List.cons_ne_nil _ _, by decide⟩
  · rename_i d more _
    split at h
    · rename_i line
      cases h
      refine ⟨[d], rfl, List.cons_ne_nil _ _, ?_⟩
      rintro member
      obtain rfl := List.mem_singleton.mp member
      cases line
    · cases h
  · cases h

theorem exists_append_of_codeEscape? {count : Nat} (h : codeEscape? count cs = some (c, rest)) :
    ∃ used, cs = used ++ rest ∧ '"' ∉ used := by
  obtain ⟨digits, read, h⟩ := Option.bind_eq_some_iff.mp h
  dsimp only at h
  split at h
  · cases h
    refine ⟨cs.take count, (List.take_append_drop count cs).symm, ?_⟩
    intro member
    obtain ⟨before, more, shape⟩ := List.append_of_mem member
    rw [shape] at read
    obtain ⟨_, _, _, _, digit, _⟩ := exists_of_mapM_append_cons read
    cases digit
  · cases h

/-- An escape of a quote takes the quote and nothing more. -/
theorem exists_append_of_readEscape? (h : readEscape? cs = some (c, rest)) :
    ∃ used, cs = used ++ rest ∧ used ≠ [] ∧ ('"' ∈ used → used = ['"'] ∧ c = '"') := by
  have coded : ∀ {count : Nat} {d : Char} {digits : List Char}, d ≠ '"' →
      codeEscape? count digits = some (c, rest) →
      ∃ used, d :: digits = used ++ rest ∧ used ≠ [] ∧ ('"' ∈ used → used = ['"'] ∧ c = '"') := by
    intro count d digits other read
    obtain ⟨used, rfl, plain⟩ := exists_append_of_codeEscape? read
    exact ⟨d :: used, rfl, List.cons_ne_nil _ _, fun member => absurd member (by simp [plain, other.symm])⟩
  unfold readEscape? at h
  split at h
  · exact coded (by decide) h
  · exact coded (by decide) h
  · exact coded (by decide) h
  · rename_i d more _ _ _
    obtain ⟨found, listed, h⟩ := Option.map_eq_some_iff.mp h
    cases h
    refine ⟨[d], rfl, List.cons_ne_nil _ _, ?_⟩
    intro member
    obtain rfl := List.mem_singleton.mp member
    cases listed
    exact ⟨rfl, rfl⟩
  · cases h

end Escape

/-- What is read between double quotes from a column on, and what follows the closing quote. -/
inductive Unquotes : (column : Nat) → (cs text after : List Char) → Prop where
  | close (column : Nat) (after : List Char) : Unquotes column ('"' :: after) [] after
  | blank {column column' : Nat} {c : Char} {cs rest text after : List Char} {gap : Gap} (space : isBlank c = true)
    (read : readGap? 0 .none column (c :: cs) = some (gap, column', rest))
      (later : Unquotes column' rest text after) :
    Unquotes column (c :: cs) (gap.text ++ text) after
  | fold {column column' : Nat} {c : Char} {cs rest inner text after : List Char} {gap : Gap}
    (line : takeBreak? cs = some (c, rest)) (read : readGap? 0 .escaped 0 rest = some (gap, column', inner))
    (later : Unquotes column' inner text after) : Unquotes column ('\\' :: cs) (gap.text ++ text) after
  | escape {column : Nat} {c : Char} {cs rest text after : List Char} (inline : takeBreak? cs = none)
    (read : readEscape? cs = some (c, rest)) (later : Unquotes (column + 2) rest text after) :
    Unquotes column ('\\' :: cs) (c :: text) after
  | plain {column : Nat} {c : Char} {cs text after : List Char} (visible : isBlank c = false) (quote : c ≠ '"')
    (escape : c ≠ '\\') (unmarked : column = 0 → isDocumentMark (c :: cs) = false)
    (later : Unquotes (column + 1) cs text after) : Unquotes column (c :: cs) (c :: text) after

section Unquotes

variable {fuel column column' : Nat} {cs text after : List Char}

theorem unquotes_of_quotedBody? (h : quotedBody? '"' fuel column cs = some (text, after)) :
    Unquotes column cs text after := by
  induction fuel generalizing column cs text after with
  | zero => cases h
  | succ fuel ih =>
    cases cs with
    | nil => simp [quotedBody?] at h
    | cons c rest =>
      rw [quotedBody?] at h
      by_cases mark : (decide (column = 0) && isDocumentMark (c :: rest)) = true
      · simp [mark] at h
      have unmarked : column = 0 → isDocumentMark (c :: rest) = false := by simpa using mark
      have single : ¬(decide (c = '\'') && decide ('"' = '\'') && decide (rest.head? = some '\'')) = true := by simp
      rw [if_neg mark, if_neg single] at h
      by_cases space : (isSpace c || isBreak c) = true
      · rw [if_pos space] at h
        obtain ⟨⟨gap, column', after'⟩, read, h⟩ := Option.bind_eq_some_iff.mp h
        obtain ⟨⟨more, after''⟩, later, h⟩ := Option.bind_eq_some_iff.mp h
        cases h
        exact .blank space read (ih later)
      rw [if_neg space] at h
      by_cases quote : c = '"'
      · subst quote
        cases h
        exact .close column _
      rw [if_neg quote] at h
      by_cases escape : c = '\\'
      · subst escape
        rw [if_pos (by rfl)] at h
        cases line : takeBreak? rest with
        | some found =>
          obtain ⟨c, inner⟩ := found
          simp only [line] at h
          obtain ⟨⟨gap, column', after'⟩, read, h⟩ := Option.bind_eq_some_iff.mp h
          obtain ⟨⟨more, after''⟩, later, h⟩ := Option.bind_eq_some_iff.mp h
          cases h
          exact .fold line read (ih later)
        | none =>
          simp only [line] at h
          obtain ⟨⟨d, inner⟩, read, h⟩ := Option.bind_eq_some_iff.mp h
          obtain ⟨⟨more, after'⟩, later, h⟩ := Option.map_eq_some_iff.mp h
          cases h
          exact .escape line read (ih later)
      · rw [if_neg (by simp [escape])] at h
        obtain ⟨⟨more, after'⟩, later, h⟩ := Option.map_eq_some_iff.mp h
        cases h
        exact .plain (by simpa [isBlank] using space) quote escape unmarked (ih later)

theorem isDocumentMark_eq_false {c : Char} (dash : c ≠ '-') (dot : c ≠ '.') (cs : List Char) :
    isDocumentMark (c :: cs) = false := by
  unfold isDocumentMark
  split <;> simp_all

theorem isDocumentMark_cons (a b c : Char) (rest : List Char) :
    isDocumentMark (a :: b :: c :: rest) =
      ((a = '-' && b = '-' && c = '-' || a = '.' && b = '.' && c = '.') && wordEnds rest) := by
  unfold isDocumentMark
  split
  · simp_all
  · simp_all
  · rename_i dashes dots
    have other : ¬((a = '-' ∧ b = '-') ∧ c = '-' ∨ (a = '.' ∧ b = '.') ∧ c = '.') := by
      rintro (⟨⟨rfl, rfl⟩, rfl⟩ | ⟨⟨rfl, rfl⟩, rfl⟩)
      · exact dashes rest rfl
      · exact dots rest rfl
    simpa using fun mark => absurd mark other

/-- No mark of a document reaches beyond a quote. -/
theorem isDocumentMark_quote {text : List Char} (after after' : List Char) :
    isDocumentMark (text ++ '"' :: after) = isDocumentMark (text ++ '"' :: after') := by
  match text with
  | [] => rfl
  | [_] => simp [isDocumentMark]
  | [_, _] => simp [isDocumentMark]
  | [a, b, c] => simp [isDocumentMark_cons, wordEnds]
  | a :: b :: c :: d :: more => simp [isDocumentMark_cons, wordEnds]

namespace Unquotes

/-- No text is longer than what it is read from, and an escape makes it shorter. -/
theorem length_lt (h : Unquotes column cs text after) : text.length + after.length < cs.length := by
  induction h with
  | close => simp
  | @blank column column' c cs rest text after gap space read later ih =>
    obtain ⟨run, rfl, _, _, short⟩ := exists_run_of_readGap?_cons space read
    simp only [List.length_cons, List.length_append] at short ⊢
    omega
  | @fold column column' c cs rest inner text after gap line read later ih =>
    obtain ⟨used, rfl, _, _⟩ := exists_append_of_takeBreak? line
    obtain ⟨run, rfl, _, _, short⟩ := exists_run_of_readGap? Gap.isOpen_escaped read
    simp [Gap.text, Gap.escaped] at short ⊢
    omega
  | escape inline read later ih =>
    obtain ⟨used, rfl, _, _⟩ := exists_append_of_readEscape? read
    simp
    omega
  | plain visible quote escape unmarked later ih =>
    simp only [List.length_cons]
    omega

/-- Some fuel is enough for every reading. -/
theorem quotedBody?_eq (h : Unquotes column cs text after) (enough : cs.length < fuel) :
    quotedBody? '"' fuel column cs = some (text, after) := by
  induction h generalizing fuel with
  | close column after =>
    obtain ⟨fuel, rfl⟩ : ∃ k, fuel = k + 1 := ⟨fuel - 1, by omega⟩
    simp [quotedBody?, isDocumentMark, isSpace, isBreak]
  | @blank column column' c cs rest text after gap space read later ih =>
    obtain ⟨fuel, rfl⟩ : ∃ k, fuel = k + 1 := ⟨fuel - 1, by omega⟩
    have unmarked : isDocumentMark (c :: cs) = false :=
      isDocumentMark_eq_false (by rintro rfl; cases space) (by rintro rfl; cases space) cs
    have blank : (isSpace c || isBreak c) = true := space
    rw [quotedBody?, unmarked, blank, read]
    obtain ⟨run, rfl, _, _, _⟩ := exists_run_of_readGap?_cons space read
    simp only [List.length_cons, List.length_append] at enough
    simp [ih (show rest.length < fuel by omega)]
  | @fold column column' c cs rest inner text after gap line read later ih =>
    obtain ⟨fuel, rfl⟩ : ∃ k, fuel = k + 1 := ⟨fuel - 1, by omega⟩
    obtain ⟨used, rfl, _, _⟩ := exists_append_of_takeBreak? line
    obtain ⟨run, rfl, _, _, _⟩ := exists_run_of_readGap? Gap.isOpen_escaped read
    simp only [List.length_cons, List.length_append] at enough
    rw [quotedBody?, isDocumentMark_eq_false (by decide) (by decide)]
    simp [isSpace, isBreak, line, read, ih (show inner.length < fuel by omega)]
  | @escape column c cs rest text after inline read later ih =>
    obtain ⟨fuel, rfl⟩ : ∃ k, fuel = k + 1 := ⟨fuel - 1, by omega⟩
    obtain ⟨used, rfl, _, _⟩ := exists_append_of_readEscape? read
    simp only [List.length_cons, List.length_append] at enough
    rw [quotedBody?, isDocumentMark_eq_false (by decide) (by decide)]
    simp [isSpace, isBreak, inline, read, ih (show rest.length < fuel by omega)]
  | @plain column c cs text after visible quote escape unmarked later ih =>
    obtain ⟨fuel, rfl⟩ : ∃ k, fuel = k + 1 := ⟨fuel - 1, by omega⟩
    have mark : (decide (column = 0) && isDocumentMark (c :: cs)) = false := by simpa using unmarked
    have space : (isSpace c || isBreak c) = false := visible
    rw [quotedBody?, mark, space]
    simp [quote, escape, ih (show cs.length < fuel by simpa using enough)]

/-- A text that is read as itself up to the quote behind it: nothing in it is folded or escaped. -/
theorem cases_of_self (h : Unquotes column (text ++ '"' :: after) text after) :
    text = [] ∨
    (∃ c more, text = c :: more ∧ isBlank c = false ∧ c ≠ '"' ∧ c ≠ '\\' ∧
      (column = 0 → isDocumentMark (text ++ '"' :: after) = false) ∧
      Unquotes (column + 1) (more ++ '"' :: after) more after) ∨
    ∃ c run more gap column' rest, text = c :: run ++ more ∧ (∀ d ∈ c :: run, isBlank d = true) ∧
      StartsSolid (more ++ '"' :: after) ∧ readGap? 0 .none column (c :: run) = some (gap, column', rest) ∧
      gap.text = c :: run ∧ Unquotes column' (more ++ '"' :: after) more after := by
  generalize shape : text ++ '"' :: after = cs at h
  have whole := congrArg List.length shape
  simp only [List.length_append, List.length_cons] at whole
  cases h with
  | close => exact .inl rfl
  | @blank _ column' c cs rest more _ gap space read later =>
    obtain ⟨run, rfl, blank, solid, short⟩ := exists_run_of_readGap?_cons space read
    have tail := later.length_lt
    simp only [List.length_append, List.length_cons] at whole short
    have split : gap.text ++ (more ++ '"' :: after) = (c :: run) ++ rest := by simpa using shape
    obtain ⟨own, rfl⟩ := List.append_inj split (by simp only [List.length_cons]; omega)
    rw [← List.cons_append, readGap?_run_append blank solid] at read
    obtain ⟨⟨_, _, unread⟩, alone, shape⟩ := Option.map_eq_some_iff.mp read
    cases shape
    exact .inr (.inr ⟨c, run, more, gap, column', unread, by rw [own], blank, solid, alone, own, later⟩)
  | @fold _ column' c cs rest inner more _ gap line read later =>
    obtain ⟨used, rfl, _, _⟩ := exists_append_of_takeBreak? line
    obtain ⟨run, rfl, _, _, short⟩ := exists_run_of_readGap? Gap.isOpen_escaped read
    have tail := later.length_lt
    simp [Gap.text, Gap.escaped] at whole short
    omega
  | escape inline read later =>
    obtain ⟨used, rfl, filled, _⟩ := exists_append_of_readEscape? read
    have tail := later.length_lt
    have consumed := List.length_pos_iff.mpr filled
    simp only [List.length_append, List.length_cons] at whole
    omega
  | @plain _ c cs more _ visible quote escape unmarked later =>
    obtain ⟨_, rfl⟩ := List.cons.inj shape
    exact .inr (.inl ⟨c, more, rfl, visible, quote, escape, unmarked, later⟩)

/-- Where a line does not start, a text that is read as itself is so whatever follows. -/
theorem of_self {after' : List Char} (h : Unquotes column (text ++ '"' :: after) text after)
    (same : column' = 0 ↔ column = 0) : Unquotes column' (text ++ '"' :: after') text after' := by
  induction size : text.length using Nat.strongRecOn generalizing text column column' with
  | ind n ih =>
    obtain rfl | ⟨c, more, rfl, visible, quote, escape, unmarked, later⟩ |
      ⟨c, run, more, gap, column'', unread, rfl, blank, solid, read, own, later⟩ := h.cases_of_self
    · exact .close column' after'
    · have shorter : more.length < n := by
        rw [← size, List.length_cons]
        exact Nat.lt_succ_self _
      refine .plain visible quote escape ?_ (ih more.length shorter later (by simp) rfl)
      intro first
      have mark := unmarked (same.mp first)
      rwa [isDocumentMark_quote after after'] at mark
    · have solid' : StartsSolid (more ++ '"' :: after') := by
        cases more with
        | nil => exact startsSolid_cons rfl rfl after'
        | cons d inner => exact startsSolid_cons (solid d rfl).1 (solid d rfl).2 _
      obtain ⟨column₃, read', same'⟩ := readGap?_column same read
      have whole : readGap? 0 .none column' (c :: run ++ (more ++ '"' :: after')) =
          some (gap, column₃, more ++ '"' :: after') := by
        rw [readGap?_run_append blank solid', read']
        rfl
      have shorter : more.length < n := by
        simp only [← size, List.length_append, List.length_cons]
        omega
      have others := ih more.length shorter later same' rfl
      have result := Unquotes.blank (blank c List.mem_cons_self) whole others
      rw [own] at result
      simpa using result

/-- Without separators no break and no escape is read as itself. -/
theorem quotable_of_self (feeds : ∀ c ∈ text, isSeparator c = false)
    (h : Unquotes column (text ++ '"' :: after) text after) :
    ∀ c ∈ text, isBreak c = false ∧ c ≠ '"' ∧ c ≠ '\\' := by
  induction size : text.length using Nat.strongRecOn generalizing text column with
  | ind n ih =>
    obtain rfl | ⟨c, more, rfl, visible, quote, escape, _, later⟩ |
      ⟨c, run, more, gap, column', unread, rfl, blank, solid, read, own, later⟩ := h.cases_of_self
    · nofun
    · have shorter : more.length < n := by
        rw [← size, List.length_cons]
        exact Nat.lt_succ_self _
      have others := ih more.length shorter (fun d member => feeds d (by simp [member])) later rfl
      intro d member
      rcases List.mem_cons.mp member with rfl | inside
      · exact ⟨(isBlank_eq_false.mp visible).2, quote, escape⟩
      · exact others d inside
    · have shorter : more.length < n := by
        simp only [← size, List.length_append, List.length_cons]
        omega
      have others := ih more.length shorter (fun d member => feeds d (by simp [member])) later rfl
      have inline :=
        isInline_of_readGap? (fun d member => feeds d (List.mem_append_left more member)) blank read own
      intro d member
      rcases List.mem_append.mp member with inside | later
      · have space := blank d inside
        exact ⟨inline d inside, (by rintro rfl; cases space), (by rintro rfl; cases space)⟩
      · exact others d later

/-- A reading of a text and a quote goes past the quote, and behind it comes to its end. -/
def GoesPast (written tail text after : List Char) : Prop :=
  written.getLast? = some '\\' ∧ ∃ column front more, text = front ++ more ∧ Unquotes (column + 1) tail more after

theorem GoesPast.append {written tail : List Char} (h : GoesPast written tail text after) (used piece : List Char) :
    GoesPast (used ++ written) tail (piece ++ text) after := by
  obtain ⟨last, column, front, more, rfl, later⟩ := h
  refine ⟨?_, column, piece ++ front, more, by simp, later⟩
  rw [List.getLast?_append, last]
  rfl

/-- Only an escape leads past the quote behind a text. -/
theorem append_or_goesPast {written tail : List Char} (h : Unquotes column (written ++ '"' :: tail) text after) :
    (∃ inner, after = inner ++ tail) ∨ GoesPast written tail text after := by
  generalize shape : written ++ '"' :: tail = cs at h
  induction h generalizing written with
  | @close column after =>
    cases written with
    | nil =>
      cases shape
      exact .inl ⟨[], rfl⟩
    | cons c more =>
      obtain ⟨_, rfl⟩ := List.cons.inj shape
      exact .inl ⟨more ++ ['"'], by simp⟩
  | @blank column column' c cs rest text after gap space read later ih =>
    obtain ⟨run, rfl, blank, _, _⟩ := exists_run_of_readGap?_cons space read
    have free : '"' ∉ c :: run := fun member => by cases blank _ member
    obtain ⟨inner, rfl, rfl⟩ := exists_append_of_not_mem (c :: run) shape free
    exact (ih rfl).imp_right fun past => past.append (c :: run) gap.text
  | @fold column column' c cs rest inner text after gap line read later ih =>
    obtain ⟨used, rfl, _, unquoted⟩ := exists_append_of_takeBreak? line
    obtain ⟨run, rfl, blank, _, _⟩ := exists_run_of_readGap? Gap.isOpen_escaped read
    have free : '"' ∉ '\\' :: (used ++ run) := by
      intro member
      rcases List.mem_append.mp (List.mem_of_ne_of_mem (by decide) member) with inBreak | inRun
      · exact unquoted inBreak
      · cases blank _ inRun
    obtain ⟨more, rfl, rfl⟩ := exists_append_of_not_mem _ (by simpa using shape) free
    exact (ih rfl).imp_right fun past => past.append ('\\' :: (used ++ run)) gap.text
  | @escape column c cs rest text after inline read later ih =>
    obtain ⟨used, rfl, filled, quote⟩ := exists_append_of_readEscape? read
    by_cases escaped : '"' ∈ used
    · obtain ⟨rfl, rfl⟩ := quote escaped
      obtain ⟨inner, rfl, behind⟩ := exists_append_of_not_mem ['\\'] shape (by decide)
      cases inner with
      | nil =>
        obtain ⟨_, rfl⟩ := List.cons.inj behind
        exact .inr ⟨rfl, column + 1, ['"'], text, rfl, later⟩
      | cons c more =>
        obtain ⟨rfl, rfl⟩ := List.cons.inj behind
        exact (ih rfl).imp_right fun past => past.append ['\\', '"'] ['"']
    · have free : '"' ∉ '\\' :: used := by simpa using escaped
      obtain ⟨inner, rfl, rfl⟩ := exists_append_of_not_mem _ (by simpa using shape) free
      exact (ih rfl).imp_right fun past => past.append ('\\' :: used) [c]
  | @plain column c cs text after visible quote escape unmarked later ih =>
    have free : '"' ∉ [c] := by simpa using quote.symm
    obtain ⟨inner, rfl, rfl⟩ := exists_append_of_not_mem [c] shape free
    exact (ih rfl).imp_right fun past => past.append [c] [c]

theorem quote_mem (h : Unquotes column cs text after) : '"' ∈ cs := by
  induction h with
  | close => exact List.mem_cons_self
  | blank space read later ih =>
    obtain ⟨run, rfl, _, _, _⟩ := exists_run_of_readGap?_cons space read
    exact List.mem_cons_of_mem _ (List.mem_append_right run ih)
  | fold line read later ih =>
    obtain ⟨used, rfl, _, _⟩ := exists_append_of_takeBreak? line
    obtain ⟨run, rfl, _, _, _⟩ := exists_run_of_readGap? Gap.isOpen_escaped read
    exact List.mem_cons_of_mem _ (List.mem_append_right used (List.mem_append_right run ih))
  | escape inline read later ih =>
    obtain ⟨used, rfl, _, _⟩ := exists_append_of_readEscape? read
    exact List.mem_cons_of_mem _ (List.mem_append_right used ih)
  | plain visible quote escape unmarked later ih => exact List.mem_cons_of_mem _ ih

end Unquotes

theorem quoted?_eq_iff : quoted? '"' column cs = some (text, after) ↔ Unquotes column cs text after :=
  ⟨unquotes_of_quotedBody?, fun h => h.quotedBody?_eq (Nat.lt_succ_self _)⟩

theorem Unquotes.unique {text' after' : List Char} (h : Unquotes column cs text after)
    (h' : Unquotes column cs text' after') : text = text' ∧ after = after' := by
  have same := (quoted?_eq_iff.mpr h).symm.trans (quoted?_eq_iff.mpr h')
  simpa using same

end Unquotes

/-- A text that is read as itself between double quotes. -/
def IsVerbatim (text : List Char) : Prop :=
  (∀ c ∈ text, isAllowed c = true) ∧ quoted? '"' 1 (text ++ ['"']) = some (text, [])

instance (text : List Char) : Decidable (IsVerbatim text) :=
  decidable_of_iff (text.all isAllowed ∧ quoted? '"' 1 (text ++ ['"']) = some (text, []))
    (by rw [List.all_eq_true, IsVerbatim])

section Verbatim

variable {text : List Char} {column : Nat}

theorem IsVerbatim.quoted?_append (h : IsVerbatim text) (inside : 0 < column) (rest : List Char) :
    quoted? '"' column (text ++ '"' :: rest) = some (text, rest) := by
  have own : Unquotes 1 (text ++ '"' :: []) text [] := quoted?_eq_iff.mp h.2
  exact quoted?_eq_iff.mpr (own.of_self (by omega))

/-- A text that is read as itself before some rest is read so before every rest. -/
theorem isVerbatim_of_quoted? {tail after : List Char} (allowed : ∀ c ∈ text, isAllowed c = true)
    (inside : 0 < column) (h : quoted? '"' column (text ++ '"' :: tail) = some (text, after))
    (within : ¬ Unquotes.GoesPast text tail text after) : IsVerbatim text := by
  have read := quoted?_eq_iff.mp h
  obtain ⟨inner, rfl⟩ := read.append_or_goesPast.resolve_right within
  have short := read.length_lt
  simp only [List.length_append, List.length_cons] at short
  obtain rfl : inner = [] := List.eq_nil_of_length_eq_zero (by omega)
  exact ⟨allowed, quoted?_eq_iff.mpr (read.of_self (by omega))⟩

theorem isVerbatim_of_quotable (quotable : ∀ c ∈ text, isQuotable c = true) : IsVerbatim text := by
  refine ⟨fun c member => ?_, HexAtlas.Yaml.quoted?_append quotable Nat.one_pos []⟩
  have own := quotable c member
  simp only [isQuotable, Bool.and_eq_true] at own
  exact own.1.1.1

/-- Without separators a text is read as itself only if each of its characters is. -/
theorem isVerbatim_iff (feeds : ∀ c ∈ text, isSeparator c = false) :
    IsVerbatim text ↔ ∀ c ∈ text, isQuotable c = true := by
  refine ⟨fun h c member => ?_, isVerbatim_of_quotable⟩
  have own : Unquotes 1 (text ++ '"' :: []) text [] := quoted?_eq_iff.mp h.2
  obtain ⟨inline, quote, escape⟩ := own.quotable_of_self feeds c member
  simp [isQuotable, h.1 c member, inline, quote, escape]

example : IsVerbatim "a\u2028b".toList ∧ ¬IsVerbatim "a\u2028 b".toList := by decide +kernel

end Verbatim
end Yaml
end HexAtlas
