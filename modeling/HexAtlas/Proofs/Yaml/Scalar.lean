import HexAtlas.Proofs.Text.Cut
import HexAtlas.Yaml.Scalar

namespace HexAtlas.Yaml

/-- The text ends, or goes on with something visible. -/
def StartsSolid (cs : List Char) : Prop := ∀ c, cs.head? = some c → isSpace c = false ∧ isBreak c = false

theorem StartsSolid.nil : StartsSolid [] := nofun

theorem startsSolid_cons {c : Char} (space : isSpace c = false) (line : isBreak c = false) (rest : List Char) :
    StartsSolid (c :: rest) := by
  intro d atHead
  cases atHead
  exact ⟨space, line⟩

theorem readGap?_of_startsSolid {cs : List Char} (solid : StartsSolid cs) (limit : Int) (g : Gap) (column : Nat) :
    readGap? limit g column cs = some (g, column, cs) := by
  cases cs with
  | nil => rfl
  | cons c rest =>
    obtain ⟨space, line⟩ := solid c rfl
    rw [readGap?.eq_3 limit g column c rest (by rintro _ rfl; cases line), space, line]
    rfl

/-- A run of spaces inside a line. -/
theorem readGap?_append {spaces rest : List Char} (blank : ∀ c ∈ spaces, isSpace c = true)
    (solid : StartsSolid rest) (limit : Int) (front : List Char) (column : Nat) :
    readGap? limit ⟨front, false, [], []⟩ column (spaces ++ rest) =
      some (⟨front ++ spaces, false, [], []⟩, column + spaces.length, rest) := by
  induction spaces generalizing front column with
  | nil => simp [readGap?_of_startsSolid solid]
  | cons c more ih =>
    have space : isSpace c = true := blank c List.mem_cons_self
    have later := ih (fun d member => blank d (List.mem_cons_of_mem c member)) (front ++ [c]) (column + 1)
    rw [List.cons_append, readGap?.eq_3 limit _ column c (more ++ rest) (by rintro _ rfl; cases space), space]
    simp only [if_true, Bool.false_eq_true, if_false]
    rw [later]
    simp [Nat.add_assoc, Nat.add_comm 1]

/-- The line feed after a word. -/
theorem readGap?_line {rest : List Char} (solid : StartsSolid rest) (limit : Int) (column : Nat) :
    readGap? limit .none column ('\n' :: rest) = some (⟨[], true, ['\n'], []⟩, 0, rest) := by
  rw [readGap?.eq_3 limit _ column '\n' rest (by rintro _ h; cases h), if_neg (by decide), if_pos (by decide)]
  exact readGap?_of_startsSolid solid limit _ 0

/-- A character of a plain scalar, wherever it stands in it. -/
def isPlainChar (c : Char) : Bool := isAllowed c && !isSpace c && !isBreak c && c ≠ ':'

theorem plainBody?_append {word : List Char} (solid : ∀ c ∈ word, isPlainChar c = true) (limit : Int)
    (fuel column : Nat) (rest : List Char) :
    plainBody? false limit (word.length + fuel) .none column (word ++ rest) =
      (plainBody? false limit fuel .none (column + word.length) rest).map
        fun (text, broken, after) => (word ++ text, broken, after) := by
  induction word generalizing column with
  | nil => simp
  | cons c more ih =>
    have plain := solid c List.mem_cons_self
    simp only [isPlainChar, Bool.and_eq_true, Bool.not_eq_true', decide_eq_true_eq] at plain
    obtain ⟨⟨⟨_, space⟩, line⟩, colon⟩ := plain
    have later := ih (fun d member => solid d (List.mem_cons_of_mem c member)) (column + 1)
    rw [show (c :: more).length + fuel = more.length + fuel + 1 by simp only [List.length_cons]; omega,
      List.cons_append, plainBody?]
    simp only [Gap.none, ne_eq, not_true_eq_false, decide_false, Bool.or_false, Bool.false_and, Bool.false_eq_true,
      if_false, space, line, colon, Bool.and_false]
    rw [show (⟨[], false, [], []⟩ : Gap) = .none from rfl, later,
      show column + 1 + more.length = column + (c :: more).length by simp only [List.length_cons]; omega]
    cases plainBody? false limit fuel .none (column + (c :: more).length) rest <;> rfl

/-- A word before a colon, as a key is written. -/
theorem plain?_key {word rest : List Char} (solid : ∀ c ∈ word, isPlainChar c = true) (ends : wordEnds rest = true)
    (limit : Int) (column : Nat) :
    plain? false limit column (word ++ ':' :: rest) = some (word, false, ':' :: rest) := by
  have stop : ∀ fuel column, plainBody? false limit (fuel + 1) .none column (':' :: rest) =
      some ([], false, ':' :: rest) := by
    intro fuel column
    rw [plainBody?]
    simp [Gap.none, isSpace, isBreak, ends]
  rw [plain?, show 2 * (word ++ ':' :: rest).length + 1 = word.length + (word.length + 2 * rest.length + 2 + 1) by
    simp only [List.length_append, List.length_cons]; omega, plainBody?_append solid, stop]
  simp

/-- A word at the end of a line, when the next line stands further left. -/
theorem plain?_line {word rest : List Char} (solid : ∀ c ∈ word, isPlainChar c = true) (next : StartsSolid rest)
    {limit : Int} (inner : 0 < limit) (column : Nat) :
    plain? false limit column (word ++ '\n' :: rest) = some (word, true, rest) := by
  have stop : ∀ fuel column,
      plainBody? false limit (fuel + 2) .none column ('\n' :: rest) = some ([], true, rest) := by
    intro fuel column
    rw [plainBody?, readGap?_line next]
    have left : plainBody? false limit (fuel + 1) ⟨[], true, ['\n'], []⟩ 0 rest = some ([], true, rest) := by
      rw [plainBody?.eq_def]
      simp [inner]
    simp [Gap.none, isSpace, isBreak, left]
  rw [plain?, show 2 * (word ++ '\n' :: rest).length + 1 = word.length + (word.length + 2 * rest.length + 1 + 2) by
    simp only [List.length_append, List.length_cons]; omega, plainBody?_append solid, stop]
  simp

/-- A character that stands for itself between double quotes. -/
def isQuotable (c : Char) : Bool := isAllowed c && !isBreak c && c ≠ '"' && c ≠ '\\'

theorem quotedBody?_append {text : List Char} (quotable : ∀ c ∈ text, isQuotable c = true) {fuel column : Nat}
    (enough : text.length < fuel) (inside : 0 < column) (rest : List Char) :
    quotedBody? '"' fuel column (text ++ '"' :: rest) = some (text, rest) := by
  induction fuel generalizing text column with
  | zero => omega
  | succ fuel ih =>
    have notFirst : column ≠ 0 := by omega
    cases text with
    | nil => simp [quotedBody?, notFirst, isSpace, isBreak]
    | cons c more =>
      have own := quotable c List.mem_cons_self
      simp only [isQuotable, Bool.and_eq_true, Bool.not_eq_true', decide_eq_true_eq] at own
      obtain ⟨⟨⟨_, line⟩, quote⟩, escape⟩ := own
      rw [List.cons_append, quotedBody?]
      simp only [notFirst, decide_false, Bool.false_and, Bool.false_eq_true, if_false, line, Bool.or_false]
      cases space : isSpace c with
      | false =>
        have later := ih (fun d member => quotable d (List.mem_cons_of_mem c member))
          (by simpa using enough) (Nat.succ_pos column)
        simp [quote, escape, later]
      | true =>
        -- the whole run of spaces is read at once
        obtain ⟨run, word, rfl, blank, ended⟩ := exists_run isSpace more
        have solid : StartsSolid (word ++ '"' :: rest) := by
          cases word with
          | nil => exact startsSolid_cons (by decide) (by decide) rest
          | cons d tail =>
            have visible := quotable d (by simp)
            simp only [isQuotable, Bool.and_eq_true, Bool.not_eq_true'] at visible
            exact startsSolid_cons (ended d rfl) visible.1.1.2 _
        have spaces : ∀ d ∈ c :: run, isSpace d = true := by simpa using ⟨space, blank⟩
        have gap := readGap?_append spaces solid 0 [] column
        rw [List.cons_append, ← List.append_assoc, List.nil_append] at gap
        have others : ∀ d ∈ word, isQuotable d = true := fun d member => quotable d (by simp [member])
        have later := ih others
          (by simp only [List.length_cons, List.length_append] at enough; omega)
          (Nat.lt_add_right (c :: run).length inside)
        simp only [if_true, Gap.none, gap]
        show (quotedBody? '"' fuel (column + (c :: run).length) (word ++ '"' :: rest)).bind _ = _
        rw [later]
        simp [Gap.text]

theorem quoted?_append {text : List Char} (quotable : ∀ c ∈ text, isQuotable c = true) {column : Nat}
    (inside : 0 < column) (rest : List Char) :
    quoted? '"' column (text ++ '"' :: rest) = some (text, rest) :=
  quotedBody?_append quotable (by simp only [List.length_append, List.length_cons]; omega) inside rest

end HexAtlas.Yaml
