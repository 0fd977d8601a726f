import HexAtlas.Proofs.Text.Cut
import HexAtlas.Text.Lowercase

namespace HexAtlas
namespace LetterCase

theorem toNat_ofNat {n : Nat} (valid : n.isValidChar) : (Char.ofNat n).toNat = n := by
  unfold Char.ofNat
  rw [dif_pos valid]
  rfl

theorem ofNat_eq_zero {n : Nat} (invalid : ¬ n.isValidChar) : Char.ofNat n = '\x00' := by
  unfold Char.ofNat
  rw [dif_neg invalid]
  rfl

/-- A small letter is the character itself, or it is as far from it as a row of the table says. -/
theorem lowerChar_cases (c : Char) : lowerChar c = c ∨
    ∃ row ∈ lowerRanges, (row.1 ≤ c.toNat ∧ c.toNat ≤ row.2.1) ∧
      (lowerChar c = '\x00' ∨ ((lowerChar c).toNat : Int) = c.toNat + row.2.2.2) := by
  unfold lowerChar
  simp only
  split
  · rename_i first last step distance found
    have within := List.find?_some found
    simp only [Bool.and_eq_true, decide_eq_true_eq] at within
    refine Or.inr ⟨_, List.mem_of_find?_eq_some found, within.1, ?_⟩
    by_cases valid : (c.toNat + distance).toNat.isValidChar
    · by_cases positive : 0 < (c.toNat + distance : Int)
      · rw [toNat_ofNat valid]
        exact Or.inr (Int.toNat_of_nonneg (Int.le_of_lt positive))
      · have none : (c.toNat + distance : Int).toNat = 0 := by omega
        rw [none]
        exact Or.inl rfl
    · exact Or.inl (ofNat_eq_zero valid)
  · exact Or.inl rfl

/-- Letters of the alphabet have their small letters in it. No other character has, but for the kelvin sign. -/
theorem alphabet_of_mem_lowerRanges : ∀ row ∈ lowerRanges, row.1 = 65 ∧ row.2.1 = 90 ∨
    128 ≤ row.1 ∧ (128 ≤ row.1 + row.2.2.2 ∨ row.1 + row.2.2.2 = 107 ∧ row.2.1 + row.2.2.2 = 107) := by
  decide +kernel

theorem isAscii_of_lowerChar {c : Char} (ascii : (lowerChar c).toNat < 128) (some : lowerChar c ≠ '\x00')
    (other : lowerChar c ≠ 'k') : c.toNat < 128 := by
  rcases lowerChar_cases c with same | ⟨row, listed, ⟨first, last⟩, none | value⟩
  · rwa [same] at ascii
  · exact absurd none some
  · rcases alphabet_of_mem_lowerRanges row listed with basic | ⟨-, beyond | kelvin⟩
    · omega
    · omega
    · have letter : lowerChar c = Char.ofNat 107 := by
        rw [← Char.ofNat_toNat (lowerChar c)]
        congr 1
        omega
      exact absurd letter other

/-- The blank characters, in ranges. -/
def blankRanges : List (Nat × Nat) := [(0x09, 0x0d), (0x20, 0x20), (0x85, 0x85), (0xa0, 0xa0), (0x1680, 0x1680),
  (0x2000, 0x200a), (0x2028, 0x2029), (0x202f, 0x202f), (0x205f, 0x205f), (0x3000, 0x3000)]

theorem isBlank_iff (c : Char) :
    isBlank c = true ↔ ∃ range ∈ blankRanges, range.1 ≤ c.toNat ∧ c.toNat ≤ range.2 := by
  simp [isBlank, blankRanges]
  omega

theorem blankRanges_apart : ∀ row ∈ lowerRanges, ∀ range ∈ blankRanges,
    row.2.1 + row.2.2.2 < range.1 ∨ range.2 < row.1 + row.2.2.2 := by
  decide +kernel

theorem isBlank_lowerChar {c : Char} (visible : isBlank c = false) : isBlank (lowerChar c) = false := by
  rcases lowerChar_cases c with same | ⟨row, listed, ⟨first, last⟩, none | value⟩
  · rwa [same]
  · rw [none]
    rfl
  · rw [Bool.eq_false_iff, ne_eq, isBlank_iff]
    rintro ⟨range, blank, lower, upper⟩
    have apart := blankRanges_apart row listed range blank
    omega

/-- The small forms of a character. Which one of a sigma is taken depends on what stands around it. -/
inductive SmallForm : Char → List Char → Prop
  | sigma : SmallForm 'Σ' ['σ']
  | finalSigma : SmallForm 'Σ' ['ς']
  | dotted : SmallForm 'İ' ['i', '\u0307']
  | other (c : Char) : SmallForm c [lowerChar c]

theorem exists_lowerAfter_cons (before : List Char) (c : Char) (rest : List Char) :
    ∃ piece, SmallForm c piece ∧ lowerAfter before (c :: rest) = piece ++ lowerAfter (c :: before) rest := by
  refine ⟨_, ?_, rfl⟩
  split
  · rename_i sigma
    subst sigma
    split
    · exact .finalSigma
    · exact .sigma
  · split
    · rename_i dotted
      subst dotted
      exact .dotted
    · exact .other c

theorem isBlank_of_mem_smallForm {c d : Char} {piece : List Char} (form : SmallForm c piece)
    (visible : isBlank c = false) (member : d ∈ piece) : isBlank d = false := by
  cases form with
  | other => exact List.mem_singleton.mp member ▸ isBlank_lowerChar visible
  | _ => exact all_visible_iff.mp (by decide) d member

theorem isBlank_of_mem_lowerAfter {before cs : List Char} (visible : ∀ c ∈ cs, isBlank c = false) :
    ∀ d ∈ lowerAfter before cs, isBlank d = false := by
  induction cs generalizing before with
  | nil => nofun
  | cons c rest ih =>
    obtain ⟨here, later⟩ := List.forall_mem_cons.mp visible
    obtain ⟨piece, form, whole⟩ := exists_lowerAfter_cons before c rest
    rw [whole]
    exact List.forall_mem_append.mpr ⟨fun d => isBlank_of_mem_smallForm form here, ih later⟩

/-- An ASCII character that is the small form of ASCII characters only: the kelvin sign has a `k`. -/
def IsBasic (c : Char) : Prop := c.toNat < 128 ∧ c ≠ '\x00' ∧ c ≠ 'k'

instance (c : Char) : Decidable (IsBasic c) := inferInstanceAs (Decidable (_ ∧ _))

theorem isAscii_of_smallForm {c : Char} {piece : List Char} (form : SmallForm c piece)
    (basic : ∀ d ∈ piece, IsBasic d) : c.toNat < 128 := by
  cases form with
  | other =>
    obtain ⟨ascii, some, other⟩ := basic _ List.mem_cons_self
    exact isAscii_of_lowerChar ascii some other
  | dotted => exact absurd (basic '\u0307' (List.mem_cons_of_mem _ List.mem_cons_self)) (by decide)
  | _ => exact absurd (basic _ List.mem_cons_self) (by decide)

theorem isAscii_of_lowerAfter {before cs : List Char} (basic : ∀ d ∈ lowerAfter before cs, IsBasic d) :
    ∀ c ∈ cs, c.toNat < 128 := by
  induction cs generalizing before with
  | nil => nofun
  | cons c rest ih =>
    obtain ⟨piece, form, whole⟩ := exists_lowerAfter_cons before c rest
    rw [whole] at basic
    obtain ⟨here, later⟩ := List.forall_mem_append.mp basic
    exact List.forall_mem_cons.mpr ⟨isAscii_of_smallForm form here, ih later⟩

/-- A capital of the alphabet has its small letter 32 places behind it, and any other character is kept. -/
theorem toLower_cases (c : Char) : (c.toLower = c ∧ ¬ (65 ≤ c.toNat ∧ c.toNat ≤ 90)) ∨
    (65 ≤ c.toNat ∧ c.toNat ≤ 90) ∧ c.toLower.toNat = c.toNat + 32 := by
  unfold Char.toLower
  split
  · rename_i capital
    have low : 65 ≤ c.val.toNat := UInt32.le_iff_toNat_le.mp capital.1
    have high : c.val.toNat ≤ 90 := UInt32.le_iff_toNat_le.mp capital.2
    have moved : (c.val + ('a'.val - 'A'.val)).toNat = c.val.toNat + 32 := by
      have step : ('a'.val - 'A'.val).toNat = 32 := rfl
      rw [UInt32.toNat_add, step]
      omega
    exact Or.inr ⟨⟨low, high⟩, moved⟩
  · rename_i small
    refine Or.inl ⟨rfl, fun capital => small ?_⟩
    exact ⟨UInt32.le_iff_toNat_le.mpr capital.1, UInt32.le_iff_toNat_le.mpr capital.2⟩

theorem toLower_of_not_capital {c : Char} (small : ¬ (65 ≤ c.toNat ∧ c.toNat ≤ 90)) : c.toLower = c :=
  ((toLower_cases c).resolve_right fun capital => small capital.1).1

theorem lowerChar_of_isAscii {c : Char} (ascii : c.toNat < 128) : lowerChar c = c.toLower := by
  by_cases capital : 65 ≤ c.toNat ∧ c.toNat ≤ 90
  · have all : ∀ n : Fin 26, lowerChar (Char.ofNat (65 + n)) = (Char.ofNat (65 + n)).toLower := by decide +kernel
    obtain ⟨n, letter⟩ : ∃ n : Fin 26, c.toNat = 65 + n := ⟨⟨c.toNat - 65, by omega⟩, by simp only; omega⟩
    have here := all n
    rwa [← letter, Char.ofNat_toNat] at here
  · have kept : lowerChar c = c := by
      rcases lowerChar_cases c with same | ⟨row, listed, within, -⟩
      · exact same
      · rcases alphabet_of_mem_lowerRanges row listed with basic | beyond <;> omega
    rw [kept, toLower_of_not_capital capital]

theorem smallForm_of_isAscii {c : Char} {piece : List Char} (form : SmallForm c piece) (ascii : c.toNat < 128) :
    piece = [c.toLower] := by
  cases form with
  | other => rw [lowerChar_of_isAscii ascii]
  | _ => revert ascii; decide

theorem lowerAfter_of_isAscii {before cs : List Char} (ascii : ∀ c ∈ cs, c.toNat < 128) :
    lowerAfter before cs = cs.map Char.toLower := by
  induction cs generalizing before with
  | nil => rfl
  | cons c rest ih =>
    obtain ⟨here, later⟩ := List.forall_mem_cons.mp ascii
    obtain ⟨piece, form, whole⟩ := exists_lowerAfter_cons before c rest
    rw [whole, smallForm_of_isAscii form here, ih later]
    rfl

theorem isBasic_of_toLower {c : Char} (basic : IsBasic c.toLower) : IsBasic c := by
  rcases toLower_cases c with ⟨same, -⟩ | ⟨capital, -⟩
  · rwa [same] at basic
  · refine ⟨by omega, ?_, ?_⟩
    · rintro rfl
      exact absurd capital (by decide)
    · rintro rfl
      exact absurd capital (by decide)

theorem toLower_toLower (c : Char) : c.toLower.toLower = c.toLower := by
  refine toLower_of_not_capital fun capital => ?_
  rcases toLower_cases c with ⟨same, small⟩ | ⟨range, moved⟩
  · exact small (same ▸ capital)
  · omega

end LetterCase

open LetterCase

/-- In the alphabet there are no letters but its own. -/
theorem lowercase_of_isAscii {cs : List Char} (ascii : ∀ c ∈ cs, c.toNat < 128) :
    lowercase cs = cs.map Char.toLower :=
  lowerAfter_of_isAscii ascii

theorem isBlank_of_mem_lowercase {cs : List Char} (visible : ∀ c ∈ cs, isBlank c = false) :
    ∀ d ∈ lowercase cs, isBlank d = false :=
  isBlank_of_mem_lowerAfter visible

/-- No other letters than those of the alphabet make a word of it when they are made small. -/
theorem lowercase_eq_iff {cs word : List Char} (basic : ∀ d ∈ word, IsBasic d) :
    lowercase cs = word ↔ cs.map Char.toLower = word := by
  constructor
  · rintro rfl
    exact (lowercase_of_isAscii (isAscii_of_lowerAfter basic)).symm
  · rintro rfl
    refine lowercase_of_isAscii fun c member => ?_
    exact (isBasic_of_toLower (basic _ (List.mem_map_of_mem member))).1

/-- It makes no difference if the letters are small already. -/
theorem map_toLower_lowercase_eq_iff {cs word : List Char} (basic : ∀ d ∈ word, IsBasic d) :
    (lowercase cs).map Char.toLower = word ↔ cs.map Char.toLower = word := by
  have twice : (cs.map Char.toLower).map Char.toLower = cs.map Char.toLower := by
    rw [List.map_map]
    exact List.map_congr_left fun c _ => toLower_toLower c
  constructor
  · rintro rfl
    have basic : ∀ d ∈ lowercase cs, IsBasic d := fun d member =>
      isBasic_of_toLower (basic _ (List.mem_map_of_mem member))
    rw [← (lowercase_eq_iff basic).mp rfl, twice]
  · intro same
    rw [(lowercase_eq_iff basic).mpr same]
    rw [← same, twice]

end HexAtlas
