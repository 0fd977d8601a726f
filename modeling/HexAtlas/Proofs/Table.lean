import HexAtlas.Attributes

namespace HexAtlas
namespace Table

variable {α : Type}

theorem lookup_cons (key k : String) (v : α) (rest : List (String × α)) :
    ((k, v) :: rest).lookup key = if key = k then some v else rest.lookup key := by
  by_cases same : key = k
  · subst same
    simp
  · rw [List.lookup_cons, beq_false_of_ne same, if_neg same]

theorem lookup_setIn (key : String) (value : α) (entries : List (String × α)) (k : String) :
    (setIn key value entries).lookup k = if k = key then some value else entries.lookup k := by
  induction entries with
  | nil => rw [setIn, lookup_cons]
  | cons entry rest ih =>
    obtain ⟨name, v⟩ := entry
    by_cases same : name = key
    · subst same
      rw [setIn, if_pos rfl, lookup_cons, lookup_cons]
      split <;> rfl
    · rw [setIn, if_neg same, lookup_cons, lookup_cons, ih]
      by_cases here : k = name
      · rw [if_pos here, if_pos here, if_neg (here ▸ same)]
      · rw [if_neg here, if_neg here]

theorem get?_set (t : Table α) (key : String) (value : α) (k : String) :
    (t.set key value).get? k = if k = key then some value else t.get? k :=
  lookup_setIn key value t.entries k

/-- No key stands in the table twice. -/
def Distinct (t : Table α) : Prop := t.keys.Nodup

theorem distinct_empty : (empty : Table α).Distinct := List.nodup_nil

theorem mem_keys_setIn {key : String} {value : α} {entries : List (String × α)} {k : String} :
    k ∈ (setIn key value entries).map Prod.fst ↔ k = key ∨ k ∈ entries.map Prod.fst := by
  induction entries with
  | nil => simp [setIn]
  | cons entry rest ih =>
    obtain ⟨name, v⟩ := entry
    rw [setIn]
    split
    · rename_i same
      simp [same]
    · rw [List.map_cons, List.map_cons, List.mem_cons, List.mem_cons, ih, or_left_comm]

theorem mem_keys_set {t : Table α} {key : String} {value : α} {k : String} :
    k ∈ (t.set key value).keys ↔ k = key ∨ k ∈ t.keys :=
  mem_keys_setIn

theorem mem_keys_setAll {pairs : List (String × α)} {t : Table α} {k : String} :
    k ∈ (t.setAll pairs).keys ↔ k ∈ pairs.map Prod.fst ∨ k ∈ t.keys := by
  induction pairs generalizing t with
  | nil => simp [setAll]
  | cons pair rest ih =>
    have later : k ∈ (t.setAll (pair :: rest)).keys ↔ k ∈ rest.map Prod.fst ∨ k ∈ (t.set pair.1 pair.2).keys := ih
    rw [later, mem_keys_set, List.map_cons, List.mem_cons, or_left_comm, or_assoc]

theorem nodup_keys_setIn {entries : List (String × α)} (h : (entries.map Prod.fst).Nodup) (key : String)
    (value : α) : ((setIn key value entries).map Prod.fst).Nodup := by
  induction entries with
  | nil => exact List.nodup_cons.mpr ⟨List.not_mem_nil, List.nodup_nil⟩
  | cons entry rest ih =>
    obtain ⟨name, v⟩ := entry
    obtain ⟨fresh, others⟩ := List.nodup_cons.mp h
    rw [setIn]
    split
    · exact h
    · rename_i other
      refine List.nodup_cons.mpr ⟨fun member => ?_, ih others⟩
      rcases mem_keys_setIn.mp member with same | old
      · exact other same
      · exact fresh old

theorem Distinct.set {t : Table α} (h : t.Distinct) (key : String) (value : α) : (t.set key value).Distinct :=
  nodup_keys_setIn h key value

theorem Distinct.setAll {t : Table α} (h : t.Distinct) (pairs : List (String × α)) : (t.setAll pairs).Distinct := by
  induction pairs generalizing t with
  | nil => exact h
  | cons pair rest ih => exact ih (h.set pair.1 pair.2)

theorem distinct_ofList (pairs : List (String × α)) : (ofList pairs).Distinct := distinct_empty.setAll pairs

theorem lookup_eq_none {entries : List (String × α)} {key : String} (h : key ∉ entries.map Prod.fst) :
    entries.lookup key = none :=
  List.lookup_eq_none_iff.mpr fun _ member => bne_iff_ne.mpr fun same => h (same ▸ List.mem_map_of_mem member)

/-- In a table without repeated keys, the value of a key stands in its only entry. -/
theorem Distinct.mem_entries_iff {t : Table α} (h : t.Distinct) {key : String} {value : α} :
    (key, value) ∈ t.entries ↔ t.get? key = some value := by
  obtain ⟨entries⟩ := t
  simp only [Distinct, keys, get?] at h ⊢
  induction entries with
  | nil => simp
  | cons entry rest ih =>
    obtain ⟨name, v⟩ := entry
    obtain ⟨fresh, others⟩ := List.nodup_cons.mp h
    rw [lookup_cons, List.mem_cons, Prod.mk.injEq]
    by_cases same : key = name
    · subst same
      have absent : (key, value) ∉ rest := fun member => fresh (List.mem_map.mpr ⟨_, member, rfl⟩)
      simp [absent, eq_comm]
    · simp [same, ih others]

theorem get?_setAll {pairs : List (String × α)} (h : (pairs.map Prod.fst).Nodup) (t : Table α) (key : String) :
    (t.setAll pairs).get? key = (pairs.lookup key).or (t.get? key) := by
  induction pairs generalizing t with
  | nil => rfl
  | cons pair rest ih =>
    obtain ⟨name, v⟩ := pair
    obtain ⟨fresh, others⟩ := List.nodup_cons.mp h
    show ((t.set name v).setAll rest).get? key = _
    rw [ih others, get?_set, lookup_cons]
    by_cases same : key = name
    · rw [if_pos same, if_pos same, lookup_eq_none (same ▸ fresh)]
      rfl
    · rw [if_neg same, if_neg same]

/-- The entries of the extension come first. -/
theorem get?_extend {other : Table α} (h : other.Distinct) (t : Table α) (key : String) :
    (t.extend other).get? key = (other.get? key).or (t.get? key) :=
  get?_setAll h t key

theorem mem_of_mem_setIn {key : String} {value : α} {entries : List (String × α)} {entry : String × α}
    (h : entry ∈ setIn key value entries) : entry = (key, value) ∨ entry ∈ entries := by
  induction entries with
  | nil => exact Or.inl (List.mem_singleton.mp h)
  | cons first rest ih =>
    obtain ⟨name, v⟩ := first
    rw [setIn] at h
    split at h
    · rename_i same
      rcases List.mem_cons.mp h with here | later
      · exact Or.inl (by rw [here, same])
      · exact Or.inr (List.mem_cons_of_mem _ later)
    · rcases List.mem_cons.mp h with here | later
      · exact Or.inr (here ▸ List.mem_cons_self)
      · exact (ih later).imp_right (List.mem_cons_of_mem _)

theorem mem_of_mem_setAll {pairs : List (String × α)} {t : Table α} {entry : String × α}
    (h : entry ∈ (t.setAll pairs).entries) : entry ∈ pairs ∨ entry ∈ t.entries := by
  induction pairs generalizing t with
  | nil => exact Or.inr h
  | cons pair rest ih =>
    rcases ih (t := t.set pair.1 pair.2) h with later | before
    · exact Or.inl (List.mem_cons_of_mem pair later)
    · rcases mem_of_mem_setIn before with rfl | old
      · exact Or.inl List.mem_cons_self
      · exact Or.inr old

/-- A table holds only pairs that were set. -/
theorem mem_of_mem_ofList {pairs : List (String × α)} {entry : String × α} (h : entry ∈ (ofList pairs).entries) :
    entry ∈ pairs :=
  (mem_of_mem_setAll h).resolve_right List.not_mem_nil

/-- A new key comes last. -/
theorem setIn_of_not_mem {key : String} {entries : List (String × α)} (fresh : key ∉ entries.map Prod.fst)
    (value : α) :
    setIn key value entries = entries ++ [(key, value)] := by
  induction entries with
  | nil => rfl
  | cons first rest ih =>
    obtain ⟨name, v⟩ := first
    rw [List.map_cons, List.mem_cons, not_or] at fresh
    rw [setIn, if_neg (Ne.symm fresh.1), ih fresh.2, List.cons_append]

theorem entries_setAll {pairs : List (String × α)} {t : Table α}
    (h : ((t.entries ++ pairs).map Prod.fst).Nodup) : (t.setAll pairs).entries = t.entries ++ pairs := by
  induction pairs generalizing t with
  | nil => rw [List.append_nil, setAll, List.foldl_nil]
  | cons pair rest ih =>
    have fresh : pair.1 ∉ t.entries.map Prod.fst := by
      intro member
      rw [List.map_append, List.map_cons] at h
      exact (List.nodup_append.mp h).2.2 _ member _ List.mem_cons_self rfl
    have added : (t.set pair.1 pair.2).entries = t.entries ++ [pair] := setIn_of_not_mem fresh pair.2
    have whole : (t.set pair.1 pair.2).entries ++ rest = t.entries ++ pair :: rest := by
      rw [added, List.append_assoc, List.singleton_append]
    have later := ih (t := t.set pair.1 pair.2) (by rwa [whole])
    rw [whole] at later
    exact later

/-- Setting the entries of a table in turn gives the table again. -/
theorem Distinct.ofList_entries {t : Table α} (h : t.Distinct) : ofList t.entries = t := by
  obtain ⟨entries⟩ := t
  exact congrArg mk (entries_setAll (t := empty) h)

end Table

theorem Attributes.distinct_parse (cs : List Char) : (Attributes.parse cs).Distinct := Table.distinct_ofList _

end HexAtlas
