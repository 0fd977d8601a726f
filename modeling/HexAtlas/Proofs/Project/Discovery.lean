import HexAtlas.Project.Discovery
import HexAtlas.Proofs.Project.FileSystem
import Mathlib.Data.List.Pairwise
import Mathlib.Data.List.Nodup

namespace HexAtlas

namespace SourceFiles

theorem all_merge_perm (s t : SourceFiles) : (s.merge t).all.Perm (s.all ++ t.all) := by
  simp only [merge, all, List.append_assoc]
  refine List.Perm.append_left _ ?_
  rw [← List.append_assoc, ← List.append_assoc]
  exact List.Perm.append_right _ List.perm_append_comm

theorem all_addAs_perm (s : SourceFiles) (kind : SourceKind) (l : Location) :
    (s.addAs kind l).all.Perm (s.all ++ [l]) := by
  cases kind with
  | map =>
    simp only [addAs, all, List.append_assoc]
    exact List.Perm.append_left _ List.perm_append_comm
  | markdown => simp [addAs, all]

end SourceFiles

namespace FileSystem

/-- Every entry stands once, under names that lead to it. -/
structure IsTree (fs : FileSystem) : Prop where
  distinct : (fs.entries.map Prod.fst).Nodup
  inside : ∀ entry ∈ fs.entries, entry.1 ≠ []
  named : ∀ entry ∈ fs.entries, ∀ name ∈ entry.1, Location.IsName name

/-- The places of the files. -/
def files (fs : FileSystem) : List Place := (fs.entries.filter fun (_, e) => e ≠ .directory).map Prod.fst

/-- The name at a place tells what kind of maps may be there. -/
def isSource (q : Place) : Bool := (SourceKind.ofLocation? ⟨'/' :: Location.joinPieces q⟩).isSome

/-- The places of the files that may hold maps. -/
def sources (fs : FileSystem) : List Place := fs.files.filter isSource

theorem mem_files {fs : FileSystem} {q : Place} : q ∈ fs.files ↔ ∃ content, (q, .file content) ∈ fs.entries := by
  simp only [files, List.mem_map, List.mem_filter, decide_eq_true_eq]
  constructor
  · rintro ⟨⟨q, e⟩, ⟨member, file⟩, rfl⟩
    cases e with
    | file content => exact ⟨content, member⟩
    | directory => exact absurd rfl file
  · rintro ⟨content, member⟩
    exact ⟨(q, .file content), ⟨member, nofun⟩, rfl⟩

namespace IsTree

variable {fs : FileSystem}

theorem get?_of_mem (tree : fs.IsTree) {q : Place} {e : Entry} (member : (q, e) ∈ fs.entries) :
    fs.get? q = some e := by
  have lookup : ∀ entries : List (Place × Entry), (entries.map Prod.fst).Nodup → (q, e) ∈ entries →
      entries.lookup q = some e := by
    intro entries
    induction entries with
    | nil => exact fun _ h => absurd h List.not_mem_nil
    | cons entry rest ih =>
      intro distinct h
      obtain ⟨fresh, others⟩ := List.nodup_cons.mp distinct
      obtain ⟨place, other⟩ := entry
      rcases List.mem_cons.mp h with same | later
      · cases same
        simp
      · have apart : q ≠ place := by
          rintro rfl
          exact fresh (List.mem_map.mpr ⟨_, later, rfl⟩)
        rw [List.lookup_cons, beq_false_of_ne apart]
        exact ih others later
  rw [get?, if_neg (tree.inside _ member)]
  exact lookup _ tree.distinct member

theorem isName_of_get? (tree : fs.IsTree) {p : Place} {e : Entry} (there : fs.get? p = some e) :
    ∀ name ∈ p, Location.IsName name := by
  rw [get?] at there
  split at there
  · rename_i root
    subst root
    exact List.forall_mem_nil _
  · obtain ⟨before, after, shape, _⟩ := List.lookup_eq_some_iff.mp there
    exact tree.named (p, e) (by rw [shape]; exact List.mem_append_right _ List.mem_cons_self)

/-- The names from a directory to a file under it. -/
theorem exists_names (tree : fs.IsTree) {p q : Place} (there : fs.get? p = some .directory) (file : q ∈ fs.files)
    (below : p <+: q) : ∃ names, q = p ++ names ∧ names ≠ [] ∧ ∀ name ∈ names, Location.IsName name := by
  obtain ⟨content, member⟩ := mem_files.mp file
  obtain ⟨names, rfl⟩ := below
  refine ⟨names, rfl, ?_, fun name h => tree.named _ member name (List.mem_append_right p h)⟩
  rintro rfl
  rw [List.append_nil] at member
  cases there.symm.trans (tree.get?_of_mem member)

theorem remove (tree : fs.IsTree) (p : Place) : (fs.remove p).IsTree where
  distinct := tree.distinct.sublist (List.filter_sublist.map _)
  inside entry member := tree.inside entry (List.mem_of_mem_filter member)
  named entry member := tree.named entry (List.mem_of_mem_filter member)

theorem put (tree : fs.IsTree) {p : Place} (inside : p ≠ []) (named : ∀ name ∈ p, Location.IsName name)
    (e : Entry) : (fs.put p e).IsTree where
  distinct := by
    refine List.nodup_cons.mpr ⟨?_, (tree.remove p).distinct⟩
    simp
  inside := List.forall_mem_cons.mpr ⟨inside, (tree.remove p).inside⟩
  named := List.forall_mem_cons.mpr ⟨named, (tree.remove p).named⟩

theorem nodup_sources (tree : fs.IsTree) : fs.sources.Nodup :=
  (tree.distinct.sublist (List.filter_sublist.map _)).filter _

end IsTree

/-- What is removed from a place that holds no maps. -/
theorem sources_remove (fs : FileSystem) {p : Place} (other : isSource p = false) :
    (fs.remove p).sources = fs.sources := by
  unfold sources files
  rw [List.filter_map, List.filter_filter, List.filter_map, List.filter_filter, remove, List.filter_filter]
  congr 1
  refine List.filter_congr fun entry _ => ?_
  cases source : isSource entry.1 with
  | false => simp [source]
  | true =>
    have apart : entry.1 ≠ p := fun same => by
      rw [same, other] at source
      cases source
    simp [source, apart]

/-- A change of a place that holds no maps. -/
theorem sources_put (fs : FileSystem) {p : Place} (other : isSource p = false) (e : Entry) :
    (fs.put p e).sources = fs.sources := by
  rw [← fs.sources_remove other]
  unfold sources files
  rw [List.filter_map, List.filter_filter, List.filter_map, List.filter_filter, put_entries,
    List.filter_cons_of_neg (by simp [other])]

/-- The files under a directory, in the order of the names that lead to them. -/
theorem filesUnder_eq {fs : FileSystem} {l : Location} {p : Place} (found : fs.find? l = some (p, .directory)) :
    fs.filesUnder l =
      (((fs.files.filter p.isPrefixOf).map (·.drop p.length)).mergeSort fun a b => !decide (b < a)).map
      fun names => l.join ⟨Location.joinPieces names⟩ := by
  have below : ∀ entries : List (Place × Entry),
      (entries.filterMap fun (q, e) =>
        if e ≠ .directory && p.isPrefixOf q then some (q.drop p.length) else none) =
      (((entries.filter fun (_, e) => e ≠ .directory).map Prod.fst).filter p.isPrefixOf).map (·.drop p.length) := by
    intro entries
    induction entries with
    | nil => rfl
    | cons entry rest ih =>
      obtain ⟨q, e⟩ := entry
      rw [List.filterMap_cons, ih]
      cases e with
      | directory => simp
      | file content => cases listed : p.isPrefixOf q <;> simp [listed]
  unfold filesUnder
  rw [found]
  simp only [below]
  rfl

theorem filesUnder_perm {fs : FileSystem} {l : Location} {p : Place} (found : fs.find? l = some (p, .directory)) :
    (fs.filesUnder l).Perm
      ((fs.files.filter p.isPrefixOf).map fun q => l.join ⟨Location.joinPieces (q.drop p.length)⟩) := by
  have sorted :=
    List.mergeSort_perm ((fs.files.filter p.isPrefixOf).map (·.drop p.length)) fun a b => !decide (b < a)
  have joined := sorted.map fun names => l.join ⟨Location.joinPieces names⟩
  rw [List.map_map] at joined
  rw [filesUnder_eq found]
  exact joined

/-- A tree that lists its files in order is scanned in that order. -/
theorem scan_of_sorted {fs : FileSystem} {l : Location} {p : Place} (excludes : List String)
    (found : fs.find? l = some (p, .directory))
    (sorted : ((fs.files.filter p.isPrefixOf).map (·.drop p.length)).Pairwise fun a b => (!decide (b < a)) = true) :
    fs.scan excludes l = (((fs.files.filter p.isPrefixOf).map fun q =>
      l.join ⟨Location.joinPieces (q.drop p.length)⟩).filter fun file => !isExcluded excludes file).foldl
        (fun found file => (found.add? file).getD found) .empty := by
  rw [scan, filesUnder_eq found, List.mergeSort_of_pairwise sorted, List.map_map]
  rfl

def isSourceFile (l : Location) : Bool := (SourceKind.ofLocation? l).isSome

theorem all_scan_perm_filter (fs : FileSystem) (l : Location) :
    (fs.scan [] l).all.Perm ((fs.filesUnder l).filter isSourceFile) := by
  have run : ∀ (files : List Location) (found : SourceFiles),
      (files.foldl (fun found file => (found.add? file).getD found) found).all.Perm
        (found.all ++ files.filter isSourceFile) := by
    intro files
    induction files with
    | nil => intro found; simp
    | cons file rest ih =>
      intro found
      rw [List.foldl_cons]
      refine (ih _).trans ?_
      cases kind : SourceKind.ofLocation? file with
      | none =>
        have skipped : found.add? file = none := by rw [SourceFiles.add?, kind]; rfl
        rw [skipped, Option.getD_none, List.filter_cons_of_neg (by simp [isSourceFile, kind])]
      | some k =>
        have added : found.add? file = some (found.addAs k file) := by rw [SourceFiles.add?, kind]; rfl
        rw [added, Option.getD_some, List.filter_cons_of_pos (by simp [isSourceFile, kind])]
        have moved := (found.all_addAs_perm k file).append_right (rest.filter isSourceFile)
        simpa using moved
  have all : (fs.filesUnder l).filter (fun file => !isExcluded [] file) = fs.filesUnder l :=
    List.filter_eq_self.mpr fun _ _ => rfl
  rw [scan, all]
  exact run _ _

/-- The kind of a file is told by its place. -/
theorem isSourceFile_join {l : Location} (filled : l.text ≠ []) {p : Place} {names : List (List Char)}
    (below : names ≠ []) (named : ∀ name ∈ p ++ names, Location.IsName name) :
    isSourceFile (l.join ⟨Location.joinPieces names⟩) = isSource (p ++ names) := by
  have inner : ∀ name ∈ names, Location.IsName name :=
    fun name member => named name (List.mem_append_right p member)
  have seen := l.splitAll_join_names below inner
  have placed : splitAll '/' ('/' :: Location.joinPieces (p ++ names)) = [[]] ++ (p ++ names) := by
    rw [splitAll, if_pos rfl, Location.splitAll_names (by simp [below]) named]
    rfl
  obtain ⟨directories, name, rfl⟩ := (List.eq_nil_or_concat' names).resolve_left below
  have own := inner name (by simp)
  rw [← List.append_assoc] at seen
  rw [← List.append_assoc, ← List.append_assoc] at placed
  unfold isSourceFile isSource
  have front := Location.under_ne_nil filled
  rw [Location.ofLocation?_congr ((Location.fileName?_of_splitAll own (by simp [front]) seen).trans
    (Location.fileName?_of_splitAll (l := ⟨_⟩) own (by simp) placed).symm), ← List.append_assoc]

/-- A scan finds the sources under its directory. -/
theorem all_scan_perm {fs : FileSystem} (tree : fs.IsTree) {l : Location} {p : Place}
    (found : fs.find? l = some (p, .directory)) : (fs.scan [] l).all.Perm
      ((fs.sources.filter p.isPrefixOf).map fun q => l.join ⟨Location.joinPieces (q.drop p.length)⟩) := by
  obtain ⟨named, there⟩ := find?_eq_some.mp found
  have kept : ((fs.files.filter p.isPrefixOf).map fun q => l.join ⟨Location.joinPieces (q.drop p.length)⟩).filter
      isSourceFile =
      (fs.sources.filter p.isPrefixOf).map fun q => l.join ⟨Location.joinPieces (q.drop p.length)⟩ := by
    rw [List.filter_map, sources, List.filter_comm p.isPrefixOf isSource]
    congr 1
    refine List.filter_congr fun q member => ?_
    obtain ⟨file, below⟩ := List.mem_filter.mp member
    obtain ⟨names, rfl, filled, sound⟩ := tree.exists_names there file (List.isPrefixOf_iff_prefix.mp below)
    rw [Function.comp_apply, List.drop_left]
    refine isSourceFile_join (place_eq_ok.mp named).1 filled fun name inside => ?_
    rcases List.mem_append.mp inside with above | under
    · exact tree.isName_of_get? there name above
    · exact sound name under
  rw [← kept]
  exact (all_scan_perm_filter fs l).trans ((filesUnder_perm found).filter _)

theorem all_scanAll_perm (fs : FileSystem) (ls : List Location) :
    (fs.scanAll [] ls).all.Perm (ls.flatMap fun l => (fs.scan [] l).all) := by
  have run : ∀ (ls : List Location) (found : SourceFiles),
      (ls.foldl (fun found l => found.merge (fs.scan [] l)) found).all.Perm
        (found.all ++ ls.flatMap fun l => (fs.scan [] l).all) := by
    intro ls
    induction ls with
    | nil => intro found; simp
    | cons l rest ih =>
      intro found
      rw [List.foldl_cons, List.flatMap_cons, ← List.append_assoc]
      exact (ih _).trans ((SourceFiles.all_merge_perm _ _).append_right _)
  exact run ls .empty

/-- Names that lead to a file which a scan of a directory finds lead to it from the directory. -/
theorem follow_of_place_join {fs : FileSystem} {l : Location} {p q : Place} (named : fs.place l = .ok p)
    {names : List (List Char)} (filled : names ≠ []) (sound : ∀ name ∈ names, Location.IsName name)
    (reached : fs.place (l.join ⟨Location.joinPieces names⟩) = .ok q) : fs.follow p names = .ok q := by
  obtain ⟨_, _, _, followed⟩ := place_eq_ok.mp reached
  rw [l.splitAll_join_names filled sound, start_join fs l (Location.isAbsolute_joinPieces sound)] at followed
  obtain ⟨mid, toMid, last⟩ := follow_append_eq_ok.mp followed
  rw [follow_under named] at toMid
  cases toMid
  exact last

/-- Every source lies under the directory that it lies in. -/
theorem mem_flatMap_filter {sources directories : List Place}
    (above : ∀ d, d ∈ directories ↔ ∃ q ∈ sources, q.dropLast = d) {q : Place} :
    q ∈ (directories.flatMap fun d => sources.filter d.isPrefixOf) ↔ q ∈ sources := by
  simp only [List.mem_flatMap, List.mem_filter, List.isPrefixOf_iff_prefix]
  constructor
  · rintro ⟨_, _, atQ, _⟩
    exact atQ
  · exact fun atQ => ⟨q.dropLast, (above _).mpr ⟨q, atQ, rfl⟩, atQ, List.dropLast_prefix q⟩

/-- Sources are found once under the directories that they lie in, if none of these directories lies in another. -/
theorem flatMap_filter_perm_iff {sources directories : List Place} (once : sources.Nodup) (each : directories.Nodup)
    (above : ∀ d, d ∈ directories ↔ ∃ q ∈ sources, q.dropLast = d) (inside : ∀ q ∈ sources, q ≠ [])
    (leaf : ∀ p ∈ sources, ∀ q ∈ sources, p.dropLast ≠ q) :
    (directories.flatMap fun d => sources.filter d.isPrefixOf).Perm sources ↔
      ∀ p ∈ sources, ∀ q ∈ sources, p.dropLast <+: q.dropLast → p.dropLast = q.dropLast := by
  constructor
  · intro perm p atP q atQ nested
    have apart := (List.nodup_flatMap.mp (perm.nodup_iff.mpr once)).2
    by_contra other
    have : Std.Symm (Function.onFun List.Disjoint fun d : Place => sources.filter d.isPrefixOf) :=
      ⟨fun _ _ disjoint q left right => disjoint right left⟩
    have disjoint := apart.forall ((above _).mpr ⟨p, atP, rfl⟩) ((above _).mpr ⟨q, atQ, rfl⟩) other
    have below : p.dropLast <+: q := nested.trans (List.dropLast_prefix q)
    exact disjoint (List.mem_filter.mpr ⟨atQ, List.isPrefixOf_iff_prefix.mpr below⟩)
      (List.mem_filter.mpr ⟨atQ, List.isPrefixOf_iff_prefix.mpr (List.dropLast_prefix q)⟩)
  · intro flat
    -- a directory that a source lies under is the one that it lies in
    have own : ∀ d ∈ directories, ∀ q ∈ sources, d <+: q → d = q.dropLast := by
      intro d listed q atQ below
      obtain ⟨p, atP, rfl⟩ := (above d).mp listed
      have shape := List.dropLast_concat_getLast (inside q atQ)
      rw [← shape] at below
      rcases List.prefix_concat_iff.mp below with same | nested
      · exact absurd (same.trans shape) (leaf p atP q atQ)
      · exact flat p atP q atQ nested
    have distinct : (directories.flatMap fun d => sources.filter d.isPrefixOf).Nodup := by
      refine List.nodup_flatMap.mpr ⟨fun d _ => once.filter _, ?_⟩
      refine each.pairwise_of_forall_ne fun d listed d' listed' other => ?_
      intro q atD atD'
      obtain ⟨atQ, below⟩ := List.mem_filter.mp atD
      obtain ⟨_, below'⟩ := List.mem_filter.mp atD'
      rw [List.isPrefixOf_iff_prefix] at below below'
      exact other ((own d listed q atQ below).trans (own d' listed' q atQ below').symm)
    exact (List.perm_ext_iff_of_nodup distinct once).mpr fun q => mem_flatMap_filter above

/-- The places of the files that are there. -/
def places (fs : FileSystem) (files : List Location) : List Place :=
  files.filterMap fun file => (fs.find? file).map Prod.fst

theorem places_map {fs : FileSystem} {places : List Place} {file : Place → Location}
    (reached : ∀ q ∈ places, ∃ e, fs.find? (file q) = some (q, e)) : fs.places (places.map file) = places := by
  have found : ∀ q ∈ places, (fs.find? (file q)).map Prod.fst = some q := by
    intro q member
    obtain ⟨e, entry⟩ := reached q member
    rw [entry]
    rfl
  rw [FileSystem.places, List.filterMap_map]
  exact (List.filterMap_congr found).trans List.filterMap_some

end FileSystem

end HexAtlas
