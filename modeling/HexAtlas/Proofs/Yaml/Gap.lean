import HexAtlas.Proofs.Yaml.Scalar

namespace HexAtlas
namespace Yaml

/-- A character of a gap. -/
def isBlank (c : Char) : Bool := isSpace c || isBreak c

theorem isBlank_eq_false {c : Char} : isBlank c = false ↔ isSpace c = false ∧ isBreak c = false := by
  simp [isBlank]

/-- Before its first break a gap has no further ones. -/
def Gap.IsOpen (g : Gap) : Prop := g.broken = false → g.more = []

namespace Gap

variable {g : Gap}

theorem isOpen_none : none.IsOpen := fun _ => rfl

theorem isOpen_escaped : escaped.IsOpen := fun _ => rfl

theorem isOpen_addBreak (g : Gap) (c : Char) : (g.addBreak c).IsOpen := by
  unfold addBreak
  split
  · rename_i broken
    intro unbroken
    simp [broken] at unbroken
  · nofun

theorem IsOpen.length_text_addBreak (h : g.IsOpen) (c : Char) : (g.addBreak c).text.length ≤ g.text.length + 1 := by
  cases broken : g.broken with
  | false =>
    simp only [addBreak, text, broken, h broken]
    by_cases c = '\n' <;> simp_all
  | true =>
    simp only [addBreak, text, broken]
    by_cases feed : g.first = ['\n']
    · by_cases last : g.more = [] <;> simp [feed, last]
    · simp [feed]
      omega

end Gap

section Gap

variable {g g' : Gap} {column column' : Nat} {cs run rest : List Char}

/-- A gap ends before something visible, and it is read as no more than there is. -/
theorem exists_run_of_readGap? (open' : g.IsOpen) (h : readGap? 0 g column cs = some (g', column', rest)) :
    ∃ run, cs = run ++ rest ∧ (∀ c ∈ run, isBlank c = true) ∧ StartsSolid rest ∧
      g'.text.length ≤ g.text.length + run.length := by
  fun_induction readGap? 0 g column cs with
  | case1 g column =>
    cases h
    exact ⟨[], rfl, nofun, .nil, Nat.le_refl _⟩
  | case2 g column cs ih =>
    obtain ⟨run, rfl, blank, solid, short⟩ := ih (g.isOpen_addBreak _) h
    have one := open'.length_text_addBreak '\n'
    refine ⟨'\r' :: '\n' :: run, rfl, ?_, solid, ?_⟩
    · simpa [isBlank, isBreak] using blank
    · simp only [List.length_cons]
      omega
  | case3 => cases h
  | case4 g column c cs _ space broken _ ih =>
    obtain ⟨run, rfl, blank, solid, short⟩ := ih open' h
    refine ⟨c :: run, rfl, ?_, solid, ?_⟩
    · simpa [isBlank, space] using blank
    · simp only [List.length_cons]
      omega
  | case5 g column c cs _ space unbroken ih =>
    obtain ⟨run, rfl, blank, solid, short⟩ := ih open' h
    refine ⟨c :: run, rfl, ?_, solid, ?_⟩
    · simpa [isBlank, space] using blank
    · simp [Gap.text, unbroken] at short ⊢
      omega
  | case6 g column c cs _ _ line ih =>
    obtain ⟨run, rfl, blank, solid, short⟩ := ih (g.isOpen_addBreak _) h
    have one := open'.length_text_addBreak (readBreak c)
    refine ⟨c :: run, rfl, ?_, solid, ?_⟩
    · simpa [isBlank, line] using blank
    · simp only [List.length_cons]
      omega
  | case7 g column c cs _ space line =>
    cases h
    exact ⟨[], rfl, nofun, startsSolid_cons (by simpa using space) (by simpa using line) cs, Nat.le_refl _⟩

theorem exists_run_of_readGap?_cons {c : Char} (space : isBlank c = true)
    (h : readGap? 0 .none column (c :: cs) = some (g', column', rest)) :
    ∃ run, cs = run ++ rest ∧ (∀ d ∈ c :: run, isBlank d = true) ∧ StartsSolid rest ∧
      g'.text.length ≤ (c :: run).length := by
  obtain ⟨run, shape, blank, solid, short⟩ := exists_run_of_readGap? Gap.isOpen_none h
  cases run with
  | nil =>
    obtain ⟨visible, inline⟩ := solid c (by rw [← List.nil_append rest, ← shape]; rfl)
    simp [isBlank, visible, inline] at space
  | cons d run =>
    obtain ⟨rfl, rfl⟩ := List.cons.inj shape
    exact ⟨run, rfl, blank, solid, by simpa [Gap.text, Gap.none] using short⟩

/-- What follows a gap has no part in its reading. -/
theorem readGap?_run_append (blank : ∀ c ∈ run, isBlank c = true) (solid : StartsSolid rest) :
    readGap? 0 g column (run ++ rest) = (readGap? 0 g column run).map fun (g, column, _) => (g, column, rest) := by
  fun_induction readGap? 0 g column run with
  | case1 g column => exact readGap?_of_startsSolid solid 0 g column
  | case2 g column cs ih =>
    rw [List.cons_append, List.cons_append, readGap?]
    exact ih fun c member => blank c (by simp [member])
  | case3 g column c cs _ space broken tab =>
    rw [List.cons_append, readGap?.eq_3 _ _ _ _ _ (by rintro _ rfl; cases space), if_pos space, if_pos broken,
      if_pos tab]
    rfl
  | case4 g column c cs _ space broken tab ih =>
    rw [List.cons_append, readGap?.eq_3 _ _ _ _ _ (by rintro _ rfl; cases space), if_pos space, if_pos broken,
      if_neg tab]
    exact ih fun d member => blank d (by simp [member])
  | case5 g column c cs _ space unbroken ih =>
    rw [List.cons_append, readGap?.eq_3 _ _ _ _ _ (by rintro _ rfl; cases space), if_pos space, if_neg unbroken]
    exact ih fun d member => blank d (by simp [member])
  | case6 g column c cs single space line ih =>
    have alone : ∀ more, c = '\r' → cs ++ rest = '\n' :: more → False := by
      rintro more rfl feed
      cases cs with
      | nil =>
        have visible := (solid '\n' (by simpa using congrArg List.head? feed)).2
        cases visible
      | cons d inner =>
        obtain ⟨rfl, _⟩ := List.cons.inj feed
        exact single inner rfl rfl
    rw [List.cons_append, readGap?.eq_3 _ _ _ _ _ alone, if_neg space, if_pos line]
    exact ih fun d member => blank d (by simp [member])
  | case7 g column c cs _ space line =>
    have own := blank c List.mem_cons_self
    simp [isBlank, space, line] at own

/-- Columns only count where a line starts. -/
theorem readGap?_column {column₂ : Nat} (same : column₂ = 0 ↔ column = 0)
    (h : readGap? 0 g column cs = some (g', column', rest)) :
    ∃ column₂', readGap? 0 g column₂ cs = some (g', column₂', rest) ∧ (column₂' = 0 ↔ column' = 0) := by
  fun_induction readGap? 0 g column cs generalizing column₂ with
  | case1 g column =>
    cases h
    exact ⟨column₂, rfl, same⟩
  | case2 g column cs ih =>
    rw [readGap?]
    exact ih Iff.rfl h
  | case3 => cases h
  | case4 g column c cs single space broken tab ih =>
    have early : ¬(c = '\t' && decide ((column₂ : Int) < 0)) = true := by simp
    rw [readGap?.eq_3 _ _ _ _ _ single, if_pos space, if_pos broken, if_neg early]
    exact ih (by omega) h
  | case5 g column c cs single space unbroken ih =>
    rw [readGap?.eq_3 _ _ _ _ _ single, if_pos space, if_neg unbroken]
    exact ih (by omega) h
  | case6 g column c cs single space line ih =>
    rw [readGap?.eq_3 _ _ _ _ _ single, if_neg space, if_pos line]
    exact ih Iff.rfl h
  | case7 g column c cs single space line =>
    cases h
    rw [readGap?.eq_3 _ _ _ _ _ single, if_neg space, if_neg line]
    exact ⟨column₂, rfl, same⟩

/-- The breaks that a gap does not turn into line feeds. -/
def isSeparator (c : Char) : Bool := c = '\u2028' || c = '\u2029'

theorem readBreak_of_not_separator {c : Char} (h : isSeparator c = false) : readBreak c = '\n' :=
  if_neg (Bool.eq_false_iff.mp h)

/-- Behind the first line feed of a gap there is less to come than was read. -/
theorem readGap?_of_broken (feeds : ∀ c ∈ cs, isSeparator c = false) (broken : g.broken = true)
    (feed : g.first = ['\n']) (h : readGap? 0 g column cs = some (g', column', rest)) :
    g'.broken = true ∧ g'.first = ['\n'] ∧ g'.more.length ≤ g.more.length + cs.length := by
  fun_induction readGap? 0 g column cs with
  | case1 =>
    cases h
    exact ⟨broken, feed, Nat.le_refl _⟩
  | case2 g column cs ih =>
    obtain ⟨broken', feed', short⟩ :=
      ih (fun c member => feeds c (by simp [member])) (by simp [Gap.addBreak, broken])
      (by simp [Gap.addBreak, broken, feed]) h
    refine ⟨broken', feed', ?_⟩
    simp [Gap.addBreak, broken] at short ⊢
    omega
  | case3 => cases h
  | case4 g column c cs _ _ _ _ ih =>
    obtain ⟨broken', feed', short⟩ := ih (fun c member => feeds c (by simp [member])) broken feed h
    exact ⟨broken', feed', by simp only [List.length_cons]; omega⟩
  | case5 g column c cs _ _ unbroken ih => exact absurd broken unbroken
  | case6 g column c cs _ _ _ ih =>
    obtain ⟨broken', feed', short⟩ :=
      ih (fun c member => feeds c (by simp [member])) (by simp [Gap.addBreak, broken])
      (by simp [Gap.addBreak, broken, feed]) h
    refine ⟨broken', feed', ?_⟩
    simp [Gap.addBreak, broken] at short ⊢
    omega
  | case7 =>
    cases h
    exact ⟨broken, feed, Nat.le_add_right _ _⟩

theorem readGap?_of_isBreak (feeds : ∀ c ∈ cs, isSeparator c = false) (blank : ∀ c ∈ cs, isBlank c = true)
    (unbroken : g.broken = false) (alone : g.more = []) (line : ∃ c ∈ cs, isBreak c = true)
    (h : readGap? 0 g column cs = some (g', column', rest)) :
    g'.broken = true ∧ g'.first = ['\n'] ∧ g'.more.length < cs.length := by
  fun_induction readGap? 0 g column cs with
  | case1 => simp at line
  | case2 g column cs =>
    obtain ⟨broken, feed, short⟩ := readGap?_of_broken (fun c member => feeds c (by simp [member]))
      (by simp [Gap.addBreak, unbroken]) (by simp [Gap.addBreak, unbroken]) h
    refine ⟨broken, feed, ?_⟩
    simp [Gap.addBreak, unbroken, alone] at short ⊢
    omega
  | case3 _ _ _ _ _ _ broken => simp [unbroken] at broken
  | case4 _ _ _ _ _ _ broken => simp [unbroken] at broken
  | case5 g column c cs _ space _ ih =>
    have inline : isBreak c = false := by
      simp only [isSpace, Bool.or_eq_true, decide_eq_true_eq] at space
      rcases space with rfl | rfl <;> rfl
    obtain ⟨d, member, line⟩ := line
    rcases List.mem_cons.mp member with rfl | later
    · simp [inline] at line
    obtain ⟨broken, feed, short⟩ := ih (fun c member => feeds c (by simp [member]))
      (fun c member => blank c (by simp [member])) unbroken alone ⟨d, later, line⟩ h
    exact ⟨broken, feed, by simp only [List.length_cons]; omega⟩
  | case6 g column c cs =>
    have feed := readBreak_of_not_separator (feeds c List.mem_cons_self)
    obtain ⟨broken, feed, short⟩ := readGap?_of_broken (fun c member => feeds c (by simp [member]))
      (by simp [Gap.addBreak, unbroken]) (by simp [Gap.addBreak, unbroken, feed]) h
    refine ⟨broken, feed, ?_⟩
    simp [Gap.addBreak, unbroken, alone] at short ⊢
    omega
  | case7 g column c cs _ space visible =>
    have own := blank c List.mem_cons_self
    simp [isBlank, space, visible] at own

/-- A gap with a line break is not read as itself, unless by a separator. -/
theorem isInline_of_readGap? (feeds : ∀ c ∈ cs, isSeparator c = false) (blank : ∀ c ∈ cs, isBlank c = true)
    (h : readGap? 0 .none column cs = some (g', column', rest)) (same : g'.text = cs) :
    ∀ c ∈ cs, isBreak c = false := by
  intro c member
  rw [Bool.eq_false_iff]
  intro line
  obtain ⟨broken, feed, short⟩ := readGap?_of_isBreak feeds blank rfl rfl ⟨c, member, line⟩ h
  simp only [Gap.text, broken, feed, Bool.not_true, Bool.false_eq_true, if_false, if_true] at same
  split at same
  · subst same
    obtain rfl : c = ' ' := by simpa using member
    cases line
  · rw [same] at short
    omega

end Gap

end Yaml
end HexAtlas
