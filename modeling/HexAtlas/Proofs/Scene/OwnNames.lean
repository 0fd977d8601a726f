import HexAtlas.Proofs.Chart.Content
import HexAtlas.Proofs.Text.Cut
import HexAtlas.Proofs.Text.Numeral
import HexAtlas.Scene
import Mathlib.Data.List.Nodup

namespace HexAtlas

theorem NameScope.apply_injective (s : NameScope) : Function.Injective s.apply := fun _ _ same =>
  (String.append_left_inj _).mp same

theorem NameScope.href_injective (s : NameScope) : Function.Injective s.href := fun _ _ same =>
  s.apply_injective ((String.append_right_inj _).mp same)

theorem toList_toString (n : Nat) : (toString n).toList = digits n := by
  rw [Nat.toString_eq_ofList_toDigits, String.toList_ofList, digits]

theorem toString_injective : Function.Injective fun n : Nat => toString n := by
  intro first second same
  have characters := congrArg String.toList same
  simp only [toList_toString] at characters
  rw [← digitsValue_digits first, characters, digitsValue_digits]

theorem toList_toString_int (i : Int) : (toString i).toList = intDigits i := by
  cases i with
  | ofNat n => exact toList_toString n
  | negSucc n =>
    have spelled : toString (Int.negSucc n) = "-" ++ toString (n + 1) := rfl
    rw [spelled, String.toList_append, toList_toString, intDigits, if_pos (Int.negSucc_lt_zero n)]
    rfl

theorem dash_not_mem_digits (n : Nat) : '-' ∉ digits n := fun member =>
  absurd (isDigit_of_mem_digits member) (by decide)

theorem intDigits_injective : Function.Injective intDigits := by
  intro first second same
  have sized : first.natAbs = second.natAbs ∧ (first < 0 ↔ second < 0) := by
    unfold intDigits at same
    split at same <;> rename_i sign <;> split at same <;> rename_i otherSign
    · exact ⟨by rw [← digitsValue_digits first.natAbs, List.tail_eq_of_cons_eq same, digitsValue_digits],
        iff_of_true sign otherSign⟩
    · exact absurd (same ▸ List.mem_cons_self) (dash_not_mem_digits second.natAbs)
    · exact absurd (same.symm ▸ List.mem_cons_self) (dash_not_mem_digits first.natAbs)
    · exact ⟨by rw [← digitsValue_digits first.natAbs, same, digitsValue_digits], iff_of_false sign otherSign⟩
  omega

theorem dot_not_mem_intDigits (i : Int) : '.' ∉ intDigits i := by
  have free : '.' ∉ digits i.natAbs := fun member => absurd (isDigit_of_mem_digits member) (by decide)
  unfold intDigits
  split
  · exact List.not_mem_cons_of_ne_of_not_mem (by decide) free
  · exact free

theorem Region.toList_id (r : Region) :
    r.id.toList = "hex.".toList ++ (intDigits r.hex.x ++ '.' :: intDigits r.hex.y) := by
  rw [id, String.toList_append, String.toList_append, String.toList_append, toList_toString_int,
    toList_toString_int, List.append_assoc, List.append_assoc]
  rfl

/-- The name of a cell stands for its column and row. -/
theorem Region.id_eq_iff {r s : Region} : r.id = s.id ↔ r.hex = s.hex := by
  constructor
  · intro same
    have characters := congrArg String.toList same
    rw [toList_id, toList_id, List.append_cancel_left_eq] at characters
    have column := cutAt?_append (dot_not_mem_intDigits r.hex.x) (intDigits r.hex.y)
    rw [characters, cutAt?_append (dot_not_mem_intDigits s.hex.x), Option.some.injEq, Prod.mk.injEq] at column
    have x : r.hex.x = s.hex.x := intDigits_injective column.1.symm
    have y : r.hex.y = s.hex.y := intDigits_injective column.2.symm
    show (⟨r.hex.x, r.hex.y⟩ : Hex) = ⟨s.hex.x, s.hex.y⟩
    rw [x, y]
  · intro same
    rw [id, id, same]

/-- The name of the path of a number. -/
def pathName (n : Nat) : String := "path-" ++ toString n

theorem pathName_injective : Function.Injective pathName := fun _ _ same =>
  toString_injective ((String.append_right_inj _).mp same)

/-- The numbers of paths go up by one from line to line. -/
theorem NameScope.ids_numbered (s : NameScope) (count : Nat) (lines : List PathLine) :
    (s.numbered count lines).map Path.id = (List.range' (count + 1) lines.length).map
      fun n => s.apply (pathName n) := by
  induction lines generalizing count with
  | nil => rfl
  | cons path rest ih =>
    rw [numbered, List.map_cons, ih, List.length_cons, List.range'_succ, List.map_cons]
    rfl

theorem Chart.ids_compile (instanceName : String) (source : List (List Char)) :
    (compile instanceName source).paths.map Path.id =
      (List.range' 1 (compile instanceName source).paths.length).map fun n =>
        (compile instanceName source).scope.apply (pathName n) := by
  have count : (compile instanceName source).paths.length = ((content source).filterMap Line.path?).length := by
    rw [paths_compile, ← List.length_map Path.toPathLine, NameScope.map_numbered]
  rw [count, paths_compile, NameScope.ids_numbered]

/-- No two paths of a map have one name. -/
theorem Chart.nodup_ids_compile (instanceName : String) (source : List (List Char)) :
    ((compile instanceName source).paths.map Path.id).Nodup := by
  rw [ids_compile]
  exact List.Nodup.map (fun _ _ same => pathName_injective (NameScope.apply_injective _ same)) List.nodup_range'

theorem Chart.exists_pathName {instanceName : String} {source : List (List Char)} {path : Path}
    (member : path ∈ (compile instanceName source).paths) :
    ∃ n, path.id = (compile instanceName source).scope.apply (pathName n) := by
  have listed : path.id ∈ (compile instanceName source).paths.map Path.id := List.mem_map_of_mem member
  rw [ids_compile] at listed
  obtain ⟨n, _, same⟩ := List.mem_map.mp listed
  exact ⟨n, same.symm⟩

theorem nodup_layerNames : (Chart.Layer.all.map Chart.Layer.name).Nodup := by
  decide

theorem layerName_ne_id (l : Chart.Layer) (r : Region) : l.name ≠ r.id := by
  intro same
  have start : l.name.toList.head? = some 'h' := by
    rw [same, Region.toList_id]
    rfl
  cases l <;> exact absurd start (by decide)

theorem id_ne_pathName (r : Region) (n : Nat) : r.id ≠ pathName n := by
  intro same
  have start : (pathName n).toList.head? = some 'h' := by
    rw [← same, Region.toList_id]
    rfl
  rw [pathName, String.toList_append] at start
  cases start

/-- In the name of a path a number stands behind the dash, which no layer has there. -/
theorem layerName_ne_pathName (l : Chart.Layer) (n : Nat) : l.name ≠ pathName n := by
  intro same
  obtain ⟨c, rest, number⟩ := List.exists_cons_of_ne_nil (digits_ne_nil n)
  have digit : isDigit c = true := isDigit_of_mem_digits (number ▸ List.mem_cons_self)
  have behind : l.name.toList[5]? = some c := by
    rw [same, pathName, String.toList_append, toList_toString, number]
    rfl
  have digitBehind : l.name.toList[5]?.any isDigit = true := by
    rw [behind]
    exact digit
  cases l <;> exact absurd digitBehind (by decide)

end HexAtlas
