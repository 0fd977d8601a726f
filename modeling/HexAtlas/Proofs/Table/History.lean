import HexAtlas.Proofs.Table
import Mathlib.Data.List.Basic
import Mathlib.Data.List.Induction

namespace HexAtlas
namespace Table

variable {α : Type}

/-- What was done to a table since it was new. A key may be set in place or on a copy, and a list of pairs takes the
place of all that was there. -/
inductive History (α : Type) where
  | new
  | set (before : History α) (key : String) (value : α)
  | extend (before other : History α)
  | collect (before : History α) (pairs : List (String × α))

namespace History

def table : History α → Table α
  | new => .empty
  | set before key value => before.table.set key value
  | extend before other => before.table.extend other.table
  | collect _ pairs => .ofList pairs

/-- The pairs that were set since the table was last put together from a list, in turn. -/
def settings : History α → List (String × α)
  | new => []
  | set before key value => before.settings ++ [(key, value)]
  | extend before other => before.settings ++ other.table.entries
  | collect _ pairs => pairs

end History

theorem setIn_of_mem {key : String} {entries : List (String × α)} (there : key ∈ entries.map Prod.fst)
    (distinct : (entries.map Prod.fst).Nodup) (value : α) :
    setIn key value entries = entries.map fun entry => (entry.1, if entry.1 = key then value else entry.2) := by
  induction entries with
  | nil => cases there
  | cons first rest ih =>
    obtain ⟨name, old⟩ := first
    obtain ⟨fresh, others⟩ := List.nodup_cons.mp distinct
    rw [setIn, List.map_cons]
    by_cases same : name = key
    · subst same
      -- the key stands nowhere behind its only place
      have kept : rest.map (fun entry => (entry.1, if entry.1 = name then value else entry.2)) = rest := by
        conv => rhs; rw [← List.map_id rest]
        refine List.map_congr_left fun entry member => ?_
        have other : entry.1 ≠ name := fun same => fresh (List.mem_map.mpr ⟨entry, member, same⟩)
        rw [if_neg other]
        rfl
      rw [if_pos rfl, kept, if_pos rfl]
    · rw [if_neg same, if_neg same, ih ((List.mem_cons.mp there).resolve_left (Ne.symm same)) others]

theorem map_fst_setIn (key : String) (value : α) (entries : List (String × α)) :
    (setIn key value entries).map Prod.fst =
      if key ∈ entries.map Prod.fst then entries.map Prod.fst else entries.map Prod.fst ++ [key] := by
  induction entries with
  | nil => rfl
  | cons first rest ih =>
    obtain ⟨name, old⟩ := first
    rw [setIn]
    by_cases same : name = key
    · simp [same]
    · rw [if_neg same, List.map_cons, ih]
      simp only [List.map_cons, List.mem_cons, Ne.symm same, false_or]
      split <;> rfl

theorem keys_set (t : Table α) (key : String) (value : α) :
    (t.set key value).keys = if key ∈ t.keys then t.keys else t.keys ++ [key] :=
  map_fst_setIn key value t.entries

/-- New keys come behind the old ones, in the order of their first settings. -/
theorem keys_setAll (pairs : List (String × α)) (t : Table α) :
    (t.setAll pairs).keys = t.keys ++ ((pairs.map Prod.fst).removeAll t.keys).eraseDups := by
  induction pairs generalizing t with
  | nil => simp [setAll, List.removeAll]
  | cons pair rest ih =>
    have later : (t.setAll (pair :: rest)).keys = ((t.set pair.1 pair.2).setAll rest).keys := rfl
    rw [later, ih, keys_set]
    by_cases there : pair.1 ∈ t.keys
    · simp [there, List.removeAll]
    · have others : (rest.map Prod.fst).removeAll (t.keys ++ [pair.1]) =
          ((rest.map Prod.fst).removeAll t.keys).filter (!· == pair.1) := by
        rw [List.removeAll, List.removeAll, List.filter_filter]
        refine List.filter_congr fun key _ => ?_
        simp [← Bool.not_or, Bool.or_comm, beq_eq_decide]
      have cut :
        ((pair :: rest).map Prod.fst).removeAll t.keys = pair.1 :: (rest.map Prod.fst).removeAll t.keys := by
        simp [List.removeAll, there]
      rw [if_neg there, others, cut, List.eraseDups_cons, List.append_assoc, List.singleton_append]

/-- Such a table is determined by its keys in their order and by the value of each. -/
theorem Distinct.entries_eq {t : Table α} (h : t.Distinct) :
    t.entries = t.keys.filterMap fun key => (t.get? key).map (key, ·) := by
  rw [keys, List.filterMap_map]
  conv => lhs; rw [← List.filterMap_some (l := t.entries)]
  refine List.filterMap_congr fun entry member => ?_
  rw [Function.comp_apply, h.mem_entries_iff.mp member]
  rfl

theorem Distinct.ext {t u : Table α} (ht : t.Distinct) (hu : u.Distinct) (keys : t.keys = u.keys)
    (values : ∀ key, t.get? key = u.get? key) : t = u := by
  obtain ⟨entries⟩ := t
  obtain ⟨others⟩ := u
  have same := ht.entries_eq
  rw [keys, funext fun key => congrArg (Option.map (key, ·)) (values key), ← hu.entries_eq] at same
  exact congrArg mk same

theorem Distinct.extend {t : Table α} (h : t.Distinct) (other : Table α) : (t.extend other).Distinct :=
  h.setAll other.entries

theorem setAll_append (t : Table α) (first second : List (String × α)) :
    t.setAll (first ++ second) = (t.setAll first).setAll second :=
  List.foldl_append

/-- A table that is extended by a changed table changes in the same way. -/
theorem extend_set {t u : Table α} (ht : t.Distinct) (hu : u.Distinct) (key : String) (value : α) :
    t.extend (u.set key value) = (t.extend u).set key value := by
  by_cases there : key ∈ u.keys
  · have kept : (u.set key value).keys = u.keys := by rw [keys_set, if_pos there]
    have keys : (t.extend (u.set key value)).keys = (t.extend u).keys := by
      simp only [extend, keys_setAll]
      rw [show (u.set key value).entries.map Prod.fst = u.entries.map Prod.fst from kept]
    have inside : key ∈ (t.extend u).keys := mem_keys_setAll.mpr (Or.inl there)
    refine (ht.extend _).ext ((ht.extend u).set key value) ?_ fun k => ?_
    · rw [keys, keys_set, if_pos inside]
    · rw [get?_extend (hu.set key value), get?_set, get?_set, get?_extend hu]
      by_cases same : k = key
      · rw [if_pos same, if_pos same, Option.some_or]
      · rw [if_neg same, if_neg same]
  · have added : (u.set key value).entries = u.entries ++ [(key, value)] := setIn_of_not_mem there value
    rw [extend, added, setAll_append]
    rfl

theorem extend_setAll {t u : Table α} (ht : t.Distinct) (hu : u.Distinct) (pairs : List (String × α)) :
    t.extend (u.setAll pairs) = (t.extend u).setAll pairs := by
  induction pairs generalizing u with
  | nil => rfl
  | cons pair rest ih =>
    have later := ih (hu.set pair.1 pair.2)
    rw [extend_set ht hu] at later
    exact later

theorem extend_assoc {t u : Table α} (ht : t.Distinct) (hu : u.Distinct) (other : Table α) :
    (t.extend u).extend other = t.extend (u.extend other) :=
  (extend_setAll ht hu other.entries).symm

theorem extend_self {t : Table α} (h : t.Distinct) : t.extend t = t := by
  refine (h.extend t).ext h ?_ fun key => ?_
  · have known : (t.entries.map Prod.fst).removeAll t.keys = [] := by simp [List.removeAll, keys]
    rw [extend, keys_setAll, known, List.eraseDups_nil, List.append_nil]
  · rw [get?_extend h, Option.or_self]

/-- The value of a key is the one that was set last. -/
theorem get?_ofList (pairs : List (String × α)) (key : String) :
    (ofList pairs).get? key = pairs.reverse.lookup key := by
  induction pairs using List.reverseRecOn with
  | nil => rfl
  | append_singleton pairs pair ih =>
    have last : ofList (pairs ++ [pair]) = (ofList pairs).set pair.1 pair.2 := setAll_append .empty pairs [pair]
    rw [last, get?_set, ih, List.reverse_append, List.reverse_singleton, List.singleton_append, lookup_cons]

theorem keys_ofList (pairs : List (String × α)) : (ofList pairs).keys = (pairs.map Prod.fst).eraseDups := by
  have all : (pairs.map Prod.fst).removeAll (empty : Table α).keys = pairs.map Prod.fst := by
    simp [List.removeAll, keys, empty]
  rw [ofList, keys_setAll, all]
  rfl

namespace History

/-- All that is left of a history are its settings. -/
theorem table_eq (h : History α) : h.table = .ofList h.settings := by
  induction h with
  | new => rfl
  | set before key value ih =>
    rw [table, settings, ofList, setAll_append, ih]
    rfl
  | extend before other ih _ =>
    rw [table, settings, ofList, setAll_append, ih]
    rfl
  | collect => rfl

theorem distinct_table (h : History α) : h.table.Distinct := h.table_eq ▸ distinct_ofList h.settings

end History

/-- What a table holds after the pairs `settings` were set in turn, and what one more setting does to it. -/
structure Records (t : Table α) (settings : List (String × α)) : Prop where
  distinct : t.Distinct
  /-- A key that was never set has no value. -/
  latest : ∀ key, t.get? key = settings.reverse.lookup key
  ordered : t.keys = (settings.map Prod.fst).eraseDups
  /-- A key that is there keeps its place, and all other entries stay as they are. -/
  overwritten : ∀ key ∈ t.keys, ∀ value, (t.set key value).entries =
    t.entries.map fun entry => (entry.1, if entry.1 = key then value else entry.2)
  /-- A new key comes last. -/
  appended : ∀ key ∉ t.keys, ∀ value, (t.set key value).entries = t.entries ++ [(key, value)]

theorem records_ofList (pairs : List (String × α)) : (ofList pairs).Records pairs where
  distinct := distinct_ofList pairs
  latest := get?_ofList pairs
  ordered := keys_ofList pairs
  overwritten _ there value := setIn_of_mem there (distinct_ofList pairs) value
  appended _ fresh value := setIn_of_not_mem fresh value

/-- Whatever was done to three tables: each holds what was set in it, and extensions set the entries of the other
table in turn, have no effect the second time and may be grouped in any way. -/
theorem History.records_table (first second third : History α) :
    first.table.Records first.settings ∧
      first.table.extend second.table =
        second.table.entries.foldl (fun t entry => t.set entry.1 entry.2) first.table ∧
      (first.table.extend second.table).extend second.table = first.table.extend second.table ∧
      (first.table.extend second.table).extend third.table =
        first.table.extend (second.table.extend third.table) := by
  have distinct := first.distinct_table
  have distinct' := second.distinct_table
  refine ⟨?_, rfl, ?_, extend_assoc distinct distinct' _⟩
  · rw [first.table_eq]
    exact records_ofList first.settings
  · rw [extend_assoc distinct distinct', extend_self distinct']

/-- The first setting of a key decides its place and the last one its value. -/
example : (((History.new.set "fill" "red").set "stroke" "black").extend (History.new.set "fill" "blue")).table =
    ⟨[("fill", "blue"), ("stroke", "black")]⟩ := by decide

end Table
end HexAtlas
