import HexAtlas.Command.Outcome
import HexAtlas.Proofs.Markup.Marking
import HexAtlas.Proofs.Text.Cut
import HexAtlas.Proofs.Text.Lowercase

namespace HexAtlas

theorem isLower_or_isDigit_toLower {c : Char} (h : c.isAlphanum = true) :
    c.toLower.isLower = true ∨ c.toLower.isDigit = true := by
  have kinds : ((c.isUpper || c.isLower) || c.isDigit) = true := h
  rw [Bool.or_eq_true, Bool.or_eq_true] at kinds
  rcases LetterCase.toLower_cases c with ⟨same, small⟩ | ⟨capital, moved⟩
  · rw [same]
    rcases kinds with (upper | lower) | digit
    · have capital := of_decide_eq_true upper
      exact absurd ⟨UInt32.le_iff_toNat_le.mp capital.1, UInt32.le_iff_toNat_le.mp capital.2⟩ small
    · exact Or.inl lower
    · exact Or.inr digit
  · exact Or.inl (isLower_iff.mpr (by omega))

theorem mem_of_mem_trimmed {p : Char → Bool} {c : Char} {cs : List Char}
    (h : c ∈ ((cs.dropWhile p).reverse.dropWhile p).reverse) : c ∈ cs := by
  have inner : c ∈ (cs.dropWhile p).reverse := List.dropWhile_subset p (List.mem_reverse.mp h)
  exact List.dropWhile_subset p (List.mem_reverse.mp inner)

/-- A token has small letters, digits and underscores only, at least one. -/
theorem isToken_instanceToken (name : String) : IsToken (instanceToken name) := by
  unfold instanceToken
  simp only
  split
  · exact isToken_of_all (by decide +kernel)
  · rename_i nonempty
    refine ⟨fun empty => nonempty ?_, fun c member => ?_⟩
    · rw [← String.toList_ofList (l := List.reverse _), empty]
      rfl
    · rw [String.toList_ofList] at member
      obtain ⟨original, _, rfl⟩ := List.mem_map.mp (mem_of_mem_trimmed member)
      by_cases plain : original.isAlphanum = true
      · rw [if_pos plain]
        exact (isLower_or_isDigit_toLower plain).imp_right Or.inl
      · rw [if_neg plain]
        exact Or.inr (Or.inr rfl)

theorem IsToken.dash_not_mem {token : String} (h : IsToken token) : '-' ∉ token.toList := by
  intro member
  rcases h.chars '-' member with lower | digit | underscore
  · exact absurd lower (by decide)
  · exact absurd digit (by decide)
  · exact absurd underscore (by decide)

/-- The token of a name is what stands after its last dash. -/
theorem IsToken.cutAt?_reverse_apply {token : String} (h : IsToken token) (name : String) :
    cutAt? '-' ((NameScope.ofInstance token false).apply name).toList.reverse =
      some (token.toList.reverse, name.toList.reverse) := by
  have free : '-' ∉ token.toList.reverse := fun member => h.dash_not_mem (List.mem_reverse.mp member)
  rw [NameScope.apply, String.toList_append, NameScope.ending_ofInstance h.nonempty, List.reverse_append,
    List.reverse_cons, List.append_assoc, List.singleton_append]
  exact cutAt?_append free name.toList.reverse

/-- A marked name has one reading as a name and a token. -/
theorem IsToken.eq_and_eq_of_apply_eq {token₁ token₂ : String} (h₁ : IsToken token₁) (h₂ : IsToken token₂)
    {name₁ name₂ : String}
    (same : (NameScope.ofInstance token₁ false).apply name₁ = (NameScope.ofInstance token₂ false).apply name₂) :
    token₁ = token₂ ∧ name₁ = name₂ := by
  have first := h₁.cutAt?_reverse_apply name₁
  rw [same, h₂.cutAt?_reverse_apply name₂] at first
  obtain ⟨tokens, names⟩ := Prod.mk.inj (Option.some.inj first)
  exact ⟨(String.toList_inj.mp (List.reverse_inj.mp tokens)).symm,
    (String.toList_inj.mp (List.reverse_inj.mp names)).symm⟩

/-- Maps with different tokens have no name in common. -/
theorem IsToken.eq_of_apply_eq {token₁ token₂ : String} (h₁ : IsToken token₁) (h₂ : IsToken token₂)
    {name₁ name₂ : String}
    (same : (NameScope.ofInstance token₁ false).apply name₁ = (NameScope.ofInstance token₂ false).apply name₂) :
    token₁ = token₂ :=
  (h₁.eq_and_eq_of_apply_eq h₂ same).1

/-- A token that starts and ends with a letter or a digit. -/
structure IsTrimmedToken (token : String) : Prop extends IsToken token where
  start : token.toList.head? ≠ some '_'
  stop : token.toList.getLast? ≠ some '_'

theorem ends_of_trimmed (p : Char → Bool) (cs : List Char) :
    (∀ c, (((cs.dropWhile p).reverse.dropWhile p).reverse).head? = some c → p c = false) ∧
      ∀ c, (((cs.dropWhile p).reverse.dropWhile p).reverse).getLast? = some c → p c = false := by
  have stops (ds : List Char) : ∀ c, (ds.dropWhile p).head? = some c → p c = false := by
    intro c atHead
    obtain ⟨_, rest, rfl, inside, outside⟩ := exists_run p ds
    rw [List.dropWhile_append_of_pos inside, dropWhile_eq_self outside] at atHead
    exact outside c atHead
  constructor
  · intro c atHead
    -- what is left after the second cut still starts where the first one stopped
    obtain ⟨gap, whole⟩ := List.reverse_prefix.mpr (List.dropWhile_suffix p (l := (cs.dropWhile p).reverse))
    rw [List.reverse_reverse] at whole
    refine stops cs c ?_
    rw [← whole, List.head?_append, atHead, Option.some_or]
  · intro c atEnd
    rw [List.getLast?_reverse] at atEnd
    exact stops _ c atEnd

theorem isTrimmedToken_instanceToken (name : String) : IsTrimmedToken (instanceToken name) := by
  have token := isToken_instanceToken name
  have filler : ∀ c, decide (c = '_') = false → c ≠ '_' := fun c plain => of_decide_eq_false plain
  suffices ends : (instanceToken name).toList.head? ≠ some '_' ∧
    (instanceToken name).toList.getLast? ≠ some '_' from
    ⟨token, ends.1, ends.2⟩
  unfold instanceToken
  simp only
  split
  · decide +kernel
  · obtain ⟨start, stop⟩ := ends_of_trimmed (fun c => decide (c = '_'))
      (name.toList.map fun c => if c.isAlphanum then c.toLower else '_')
    rw [String.toList_ofList]
    exact ⟨fun atHead => filler _ (start _ atHead) rfl, fun atEnd => filler _ (stop _ atEnd) rfl⟩

theorem toLower_of_isLower_or_isDigit {c : Char} (h : c.isLower = true ∨ c.isDigit = true) :
    c.isAlphanum = true ∧ c.toLower = c := by
  constructor
  · show ((c.isUpper || c.isLower) || c.isDigit) = true
    rcases h with lower | digit
    · rw [lower, Bool.or_true, Bool.true_or]
    · rw [digit, Bool.or_true]
  · refine LetterCase.toLower_of_not_capital fun ⟨low, high⟩ => ?_
    rcases h with lower | digit
    · have small := (isLower_iff.mp lower).1
      omega
    · simp only [Char.isDigit, Bool.and_eq_true, decide_eq_true_eq] at digit
      have numeral : c.toNat ≤ 57 := UInt32.le_iff_toNat_le.mp digit.2
      omega

/-- Nothing is left to change in such a token. -/
theorem IsTrimmedToken.instanceToken_eq {token : String} (h : IsTrimmedToken token) :
    instanceToken token = token := by
  have kept : (token.toList.map fun c => if c.isAlphanum then c.toLower else '_') = token.toList := by
    conv => rhs; rw [← List.map_id token.toList]
    refine List.map_congr_left fun c member => ?_
    rcases or_assoc.mpr (h.chars c member) with plain | rfl
    · obtain ⟨plain, same⟩ := toLower_of_isLower_or_isDigit plain
      rw [if_pos plain, same]
      rfl
    · rfl
  have start : token.toList.dropWhile (fun c => decide (c = '_')) = token.toList :=
    dropWhile_eq_self fun c atHead => decide_eq_false fun filler => h.start (filler ▸ atHead)
  have stop : token.toList.reverse.dropWhile (fun c => decide (c = '_')) = token.toList.reverse :=
    dropWhile_eq_self fun c atEnd => decide_eq_false fun filler =>
      h.stop (filler ▸ (List.head?_reverse ▸ atEnd))
  have filled : token.toList ≠ [] := fun empty => h.nonempty (String.toList_eq_nil_iff.mp empty)
  simp only [instanceToken, kept, start, stop, List.reverse_reverse, if_neg filled, String.ofList_toList]

/-- Tokens start and end with a letter or a digit and are their own tokens, and a name that is marked with the token
of a map tells the name from the token, whatever dashes it has. -/
theorem NameScope.apply_instanceToken_eq_iff (map₁ map₂ name₁ name₂ : String) :
    IsTrimmedToken (instanceToken map₁) ∧ instanceToken (instanceToken map₁) = instanceToken map₁ ∧
      ((ofInstance (instanceToken map₁) false).apply name₁ = (ofInstance (instanceToken map₂) false).apply name₂ ↔
        instanceToken map₁ = instanceToken map₂ ∧ name₁ = name₂) := by
  have trimmed := isTrimmedToken_instanceToken map₁
  refine ⟨trimmed, trimmed.instanceToken_eq, fun same => ?_, fun ⟨tokens, names⟩ => by rw [tokens, names]⟩
  exact trimmed.eq_and_eq_of_apply_eq (isToken_instanceToken map₂) same

/-- A dash in a name does not pass for the one before the token. -/
example : (NameScope.ofInstance (instanceToken "small a") false).apply "sun" = "sun-small_a" ∧
    (NameScope.ofInstance (instanceToken "a") false).apply "sun-small" = "sun-small-a" := by decide +kernel

end HexAtlas
