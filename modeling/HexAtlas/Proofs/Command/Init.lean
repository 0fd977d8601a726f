import HexAtlas.Command.Init
import HexAtlas.Proofs.Chart.SortedSet
import HexAtlas.Proofs.Project.Discovery
import HexAtlas.Proofs.Project.Manifest
import Mathlib.Data.List.Dedup
import Mathlib.Data.List.Perm.Basic

namespace HexAtlas

/-- The root of a project names a directory, and so does the dot that stands for it in a manifest. -/
structure FileSystem.IsRoot (fs : FileSystem) (root : Location) (base : Place) : Prop where
  under : fs.follow (fs.start root) root.under = .ok base
  there : fs.get? base = some .directory
  here : fs.place (root.join (.ofString ".")) = .ok base

theorem FileSystem.IsRoot.keeps {fs after : FileSystem} {root : Location} {base : Place}
    (opens : fs.IsRoot root base) (keeps : fs.Keeps after) : after.IsRoot root base where
  under := by
    rw [start, keeps.current]
    exact keeps.follow opens.under
  there := keeps.directory base opens.there
  here := keeps.place opens.here

namespace InitRequest

/-- A directory by the names that lead to it, as a manifest writes it. -/
def written (names : List (List Char)) : String :=
  if names = [] then "." else String.ofList (Location.joinPieces names ++ ['/'])

theorem written_injective {names other : List (List Char)} (named : ∀ name ∈ names, Location.IsName name)
    (named' : ∀ name ∈ other, Location.IsName name) (same : written names = written other) : names = other := by
  have dot : ∀ pieces : List (List Char), "." ≠ String.ofList (Location.joinPieces pieces ++ ['/']) := by
    intro pieces same
    have last := congrArg (fun s : String => s.toList.getLast?) same
    simp at last
  unfold written at same
  split at same <;> split at same
  · rename_i none none'
    rw [none, none']
  · exact absurd same (dot other)
  · exact absurd same.symm (dot names)
  · rename_i filled filled'
    have pieces := List.append_cancel_right (String.ofList_inj.mp same)
    exact Location.joinPieces_injective filled filled' named named' pieces

theorem text_written {names : List (List Char)} (filled : names ≠ []) :
    (Location.ofString (written names)).text = Location.joinPieces names ++ ['/'] := by
  simp [written, filled, Location.ofString]

theorem isAbsolute_written {names : List (List Char)} (named : ∀ name ∈ names, Location.IsName name) :
    (Location.ofString (written names)).isAbsolute = false := by
  cases names with
  | nil => rfl
  | cons first rest =>
    have relative := Location.isAbsolute_names (named first List.mem_cons_self) rest ['/']
    rwa [← text_written (List.cons_ne_nil first rest)] at relative

theorem splitAll_written {names : List (List Char)} (filled : names ≠ [])
    (named : ∀ name ∈ names, Location.IsName name) :
    splitAll '/' (Location.ofString (written names)).text = names ++ [[]] := by
  rw [text_written filled, splitAll_append_cons, Location.splitAll_names filled named]
  rfl

/-- The directory of a file that was found from the root. -/
theorem directoryName?_of_text {root file : Location} {directories : List (List Char)} {name : List Char}
    (text : file.text = root.lead ++ '.' :: '/' :: Location.joinPieces (directories ++ [name]))
    (named : ∀ directory ∈ directories, Location.IsName directory) (own : Location.IsName name) :
    directoryName? root file = some (written directories) := by
  obtain ⟨parent, above, inside⟩ := Location.within?_parent? text named own
  unfold directoryName? written
  rw [above, Option.map_some, inside, Option.getD_some]
  by_cases none : directories = []
  · simp [none, Location.joinPieces]
  · have some : Location.joinPieces directories ≠ [] := by
      intro empty
      have pieces := Location.splitAll_names none named
      rw [empty, show splitAll '/' [] = [[]] from rfl] at pieces
      exact (named [] (pieces ▸ List.mem_singleton_self [])).filled rfl
    simp [none, some, Location.toString, String.ofList_append]

theorem lead_here (root : Location) : (root.join (.ofString ".")).lead = root.lead ++ ['.', '/'] := by
  have text : (root.join (.ofString ".")).text = root.lead ++ ['.'] := root.text_join rfl
  rw [Location.lead, text]
  simp

theorem text_join_here (root : Location) {names : List (List Char)} (named : ∀ name ∈ names, Location.IsName name) :
    ((root.join (.ofString ".")).join ⟨Location.joinPieces names⟩).text =
      root.lead ++ '.' :: '/' :: Location.joinPieces names := by
  rw [Location.text_join _ (Location.isAbsolute_joinPieces named), lead_here, List.append_assoc]
  rfl

variable {fs : FileSystem} {root : Location} {base : Place}

def manifestPlace (base : Place) : Place := base ++ [Manifest.fileName.toList]

theorem isName_manifest : Location.IsName Manifest.fileName.toList := by decide

/-- Where a manifest can stand, a project can be. -/
theorem exists_isRoot {q : Place} (named : fs.place (root.join (.ofString Manifest.fileName)) = .ok q) :
    ∃ base, fs.IsRoot root base ∧ q = manifestPlace base := by
  obtain ⟨base, under, there, rfl⟩ := FileSystem.exists_base_of_place_join isName_manifest named
  refine ⟨base, ⟨under, there, ?_⟩, rfl⟩
  have dot : (root.join (.ofString ".")).text = root.lead ++ ['.'] := root.text_join rfl
  have file : (root.join (.ofString Manifest.fileName)).text = root.lead ++ Manifest.fileName.toList :=
    root.text_join rfl
  refine FileSystem.place_of_sublist ?_ (by simp [dot]) named ?_
  · rw [dot, file]
    exact List.Sublist.append_left (by decide) _
  · rw [fs.start_join root rfl, root.splitAll_join rfl]
    exact FileSystem.follow_append_eq_ok.mpr ⟨base, under, FileSystem.follow_idle there rfl []⟩

section Written

variable {names rest : List (List Char)} {q : Place} (opens : fs.IsRoot root base) (filled : rest ≠ [])
  (named : ∀ name ∈ names ++ rest, Location.IsName name)
  (reached : fs.place ((root.join (.ofString ".")).join ⟨Location.joinPieces (names ++ rest)⟩) = .ok q)
include opens filled named reached

/-- A file that is found from the root lies behind the directories above it. -/
theorem follow_of_place_join_here : fs.follow base names = .ok (base ++ names) ∧
    fs.get? (base ++ names) = some .directory ∧ fs.follow (base ++ names) rest = .ok q := by
  have followed := FileSystem.follow_of_place_join opens.here (by simp [filled]) named reached
  obtain ⟨mid, toMid, last⟩ := FileSystem.follow_append_eq_ok.mp followed
  obtain rfl := FileSystem.follow_names (fun name member => named name (List.mem_append_left rest member)) toMid
  obtain ⟨first, more, rfl⟩ := List.exists_cons_of_ne_nil filled
  exact ⟨toMid, FileSystem.get?_of_follow_cons last, last⟩

/-- A directory above such a file is there by its written name. -/
theorem place_written : fs.place (root.join (.ofString (written names))) = .ok (base ++ names) := by
  obtain ⟨toMid, there, _⟩ := follow_of_place_join_here opens filled named reached
  by_cases bare : names = []
  · subst bare
    rw [List.append_nil]
    exact opens.here
  have outer : ∀ name ∈ names, Location.IsName name :=
    fun name member => named name (List.mem_append_left rest member)
  have relative := isAbsolute_written outer
  -- the name of the directory is written within the location of the file, so it is not too long either
  refine FileSystem.place_of_sublist ?_ ?_ reached ?_
  · rw [root.text_join relative, text_written bare, text_join_here root named,
      Location.joinPieces_append bare filled]
    refine List.Sublist.append_left (.cons _ (.cons _ (List.Sublist.append_left ?_ _))) _
    exact .cons_cons _ (List.nil_sublist _)
  · rw [root.text_join relative, text_written bare]
    simp
  · rw [fs.start_join root relative, root.splitAll_join relative, splitAll_written bare outer]
    exact FileSystem.follow_append_eq_ok.mpr ⟨base, opens.under,
      FileSystem.follow_append_eq_ok.mpr ⟨_, toMid, FileSystem.follow_idle there rfl []⟩⟩

/-- The file is found from that directory. -/
theorem place_join_written :
    fs.place ((root.join (.ofString (written names))).join ⟨Location.joinPieces rest⟩) = .ok q := by
  have placed := place_written opens filled named reached
  obtain ⟨_, _, last⟩ := follow_of_place_join_here opens filled named reached
  by_cases bare : names = []
  · subst bare
    exact reached
  have outer : ∀ name ∈ names, Location.IsName name :=
    fun name member => named name (List.mem_append_left rest member)
  have inner : ∀ name ∈ rest, Location.IsName name :=
    fun name member => named name (List.mem_append_right names member)
  have lead : (root.join (.ofString (written names))).lead = root.lead ++ (Location.joinPieces names ++ ['/']) := by
    rw [Location.lead, root.text_join (isAbsolute_written outer), text_written bare]
    simp
  refine FileSystem.place_of_sublist ?_ ?_ reached ?_
  · rw [Location.text_join _ (Location.isAbsolute_joinPieces inner), lead, text_join_here root named,
      Location.joinPieces_append bare filled]
    simp
  · rw [Location.text_join _ (Location.isAbsolute_joinPieces inner), lead]
    simp
  · rw [Location.splitAll_join_names _ filled inner, fs.start_join _ (Location.isAbsolute_joinPieces inner)]
    exact FileSystem.follow_append_eq_ok.mpr ⟨_, FileSystem.follow_under placed, last⟩

end Written

/-- What is searched from the root if these directories are listed. -/
def searchedFrom (root : Location) (names : List String) : List Location :=
  (if names = [] then ["."] else names).map fun name => root.join (.ofString name)

/-- The tree with a new manifest at a place. -/
def started (fs : FileSystem) (q : Place) (names : List String) : FileSystem :=
  fs.put q (.file (Manifest.starter names).toUTF8)

/-- Without a manifest a project is searched from its root. -/
theorem discover_of_fresh {q : Place} (named : fs.place (root.join (.ofString Manifest.fileName)) = .ok q)
    (fresh : fs.get? q = none) : fs.discover root = .ok (fs.scanAll [] [root.join (.ofString ".")]) := by
  have absent : fs.isThere (root.join (.ofString Manifest.fileName)) = false := by
    rw [FileSystem.isThere, FileSystem.find?, named]
    simp [fresh]
  rw [FileSystem.discover, FileSystem.manifestAt, absent]
  rfl

/-- The sources that lie under the root. -/
def projectSources (fs : FileSystem) (base : Place) : List Place := fs.sources.filter base.isPrefixOf

/-- The directories that these sources lie in. -/
def holders (fs : FileSystem) (base : Place) : List Place := ((projectSources fs base).map List.dropLast).dedup

/-- The names of these directories in a manifest. -/
def listing (fs : FileSystem) (base : Place) : List String :=
  (holders fs base).map fun d => written (d.drop base.length)

/-- A source as a search of a directory above it finds it. -/
def seen (root : Location) (base d q : Place) : Location :=
  (root.join (.ofString (written (d.drop base.length)))).join ⟨Location.joinPieces (q.drop d.length)⟩

theorem mem_holders {d : Place} : d ∈ holders fs base ↔ ∃ q ∈ projectSources fs base, q.dropLast = d := by
  rw [holders, List.mem_dedup, List.mem_map]

theorem exists_names_of_mem_sources (tree : fs.IsTree) (opens : fs.IsRoot root base) {q : Place}
    (member : q ∈ projectSources fs base) : ∃ directories name, q = base ++ (directories ++ [name]) ∧
      ∀ piece ∈ directories ++ [name], Location.IsName piece := by
  obtain ⟨source, below⟩ := List.mem_filter.mp member
  obtain ⟨names, rfl, filled, sound⟩ := tree.exists_names opens.there (List.mem_of_mem_filter source)
    (List.isPrefixOf_iff_prefix.mp below)
  obtain ⟨directories, name, rfl⟩ := (List.eq_nil_or_concat' names).resolve_left filled
  exact ⟨directories, name, rfl, sound⟩

theorem exists_names_of_mem_holders (tree : fs.IsTree) (opens : fs.IsRoot root base) {d : Place}
    (member : d ∈ holders fs base) : ∃ names, d = base ++ names ∧ ∀ name ∈ names, Location.IsName name := by
  obtain ⟨q, atQ, rfl⟩ := mem_holders.mp member
  obtain ⟨directories, name, rfl, sound⟩ := exists_names_of_mem_sources tree opens atQ
  refine ⟨directories, ?_, fun directory inside => sound directory (List.mem_append_left _ inside)⟩
  rw [← List.append_assoc, List.dropLast_concat]

theorem mem_directories (tree : fs.IsTree) (opens : fs.IsRoot root base) {files : SourceFiles}
    (perm : files.all.Perm ((projectSources fs base).map (seen root base base))) {name : String} :
    name ∈ directories root files ↔ name ∈ listing fs base := by
  have each : ∀ q ∈ projectSources fs base,
      directoryName? root (seen root base base q) = some (written (q.dropLast.drop base.length)) := by
    intro q member
    obtain ⟨directories, name, rfl, sound⟩ := exists_names_of_mem_sources tree opens member
    rw [seen, List.drop_length, List.drop_left, ← List.append_assoc, List.dropLast_concat, List.drop_left]
    exact directoryName?_of_text (text_join_here root sound)
      (fun directory inside => sound directory (List.mem_append_left _ inside)) (sound name (by simp))
  rw [directories, mem_sortedSet, List.mem_filterMap, listing, List.mem_map]
  constructor
  · rintro ⟨file, member, same⟩
    obtain ⟨q, atQ, rfl⟩ := List.mem_map.mp (perm.mem_iff.mp member)
    exact ⟨q.dropLast, mem_holders.mpr ⟨q, atQ, rfl⟩, Option.some.inj ((each q atQ).symm.trans same)⟩
  · rintro ⟨d, atD, rfl⟩
    obtain ⟨q, atQ, rfl⟩ := mem_holders.mp atD
    exact ⟨_, perm.mem_iff.mpr (List.mem_map.mpr ⟨q, atQ, rfl⟩), each q atQ⟩

theorem isName_of_mem_manifestPlace (tree : fs.IsTree) (opens : fs.IsRoot root base) :
    ∀ name ∈ manifestPlace base, Location.IsName name := by
  intro name member
  rcases List.mem_append.mp member with above | last
  · exact tree.isName_of_get? opens.there name above
  · exact List.mem_singleton.mp last ▸ isName_manifest

/-- A manifest is no source of maps. -/
theorem isSource_manifestPlace (tree : fs.IsTree) (opens : fs.IsRoot root base) :
    FileSystem.isSource (manifestPlace base) = false := by
  rw [manifestPlace, ← FileSystem.isSourceFile_join (l := .ofString "/") (by decide) (List.cons_ne_nil _ _)
    (isName_of_mem_manifestPlace tree opens)]
  decide

/-- The manifest names the directories of the sources, each once. -/
theorem directories_perm (tree : fs.IsTree) (opens : fs.IsRoot root base) {files : SourceFiles}
    (perm : files.all.Perm ((projectSources fs base).map (seen root base base))) :
    (directories root files).Perm (listing fs base) := by
  have distinct : (listing fs base).Nodup := by
    unfold listing
    refine List.Nodup.map_on ?_ (List.nodup_dedup _)
    intro d atD d' atD' same
    obtain ⟨names, rfl, named⟩ := exists_names_of_mem_holders tree opens atD
    obtain ⟨names', rfl, named'⟩ := exists_names_of_mem_holders tree opens atD'
    rw [List.drop_left, List.drop_left] at same
    rw [written_injective named named' same]
  exact (List.perm_ext_iff_of_nodup (nodup_sortedSet _) distinct).mpr fun _ => mem_directories tree opens perm

/-- The search of the root finds the sources under it. -/
theorem all_scanAll_root_perm (tree : fs.IsTree) (opens : fs.IsRoot root base) :
    (fs.scanAll [] [root.join (.ofString ".")]).all.Perm ((projectSources fs base).map (seen root base base)) := by
  have searched := fs.all_scanAll_perm [root.join (.ofString ".")]
  rw [List.flatMap_singleton] at searched
  have home := FileSystem.find?_eq_some.mpr ⟨opens.here, opens.there⟩
  have form : (fun q : Place => (root.join (.ofString ".")).join ⟨Location.joinPieces (q.drop base.length)⟩) =
      seen root base base := by
    funext q
    rw [seen, List.drop_length]
    rfl
  rw [← form]
  exact searched.trans (FileSystem.all_scan_perm tree home)

/-- A project all of whose sources can be reached. -/
structure IsProject (fs : FileSystem) (root : Location) (base : Place) : Prop extends fs.IsRoot root base where
  tree : fs.IsTree
  reached : ∀ q ∈ projectSources fs base, ∃ p, fs.place (seen root base base q) = .ok p

section Project

variable (project : IsProject fs root base)
include project

/-- A source is found from every directory between the root and it. -/
theorem find?_seen {d q : Place} (there : fs.get? d = some .directory) (above : base <+: d)
    (atQ : q ∈ projectSources fs base) (below : d <+: q) : ∃ e, fs.find? (seen root base d q) = some (q, e) := by
  have source := List.mem_of_mem_filter (List.mem_of_mem_filter atQ)
  obtain ⟨rest, rfl, filled, inner⟩ := project.tree.exists_names there source below
  obtain ⟨names, rfl⟩ := above
  obtain ⟨p, named⟩ := project.reached _ atQ
  rw [seen, List.drop_length, List.append_assoc, List.drop_left] at named
  have sound : ∀ name ∈ names ++ rest, Location.IsName name := by
    intro name member
    rcases List.mem_append.mp member with outer | last
    · exact project.tree.isName_of_get? there name (List.mem_append_right base outer)
    · exact inner name last
  have placed := place_join_written project.toIsRoot filled sound named
  obtain ⟨_, _, last⟩ := follow_of_place_join_here project.toIsRoot filled sound named
  obtain rfl := FileSystem.follow_names inner last
  obtain ⟨content, entry⟩ := FileSystem.mem_files.mp source
  refine ⟨_, FileSystem.find?_eq_some.mpr ⟨?_, project.tree.get?_of_mem entry⟩⟩
  rw [seen, List.drop_left, List.drop_left]
  exact placed

theorem find?_holder {d : Place} (atD : d ∈ holders fs base) :
    fs.find? (root.join (.ofString (written (d.drop base.length)))) = some (d, .directory) := by
  obtain ⟨q, atQ, rfl⟩ := mem_holders.mp atD
  obtain ⟨p, named⟩ := project.reached q atQ
  obtain ⟨directories, name, rfl, sound⟩ := exists_names_of_mem_sources project.tree project.toIsRoot atQ
  rw [seen, List.drop_length, List.drop_left] at named
  have placed := place_written project.toIsRoot (List.cons_ne_nil name []) sound named
  obtain ⟨_, there, _⟩ := follow_of_place_join_here project.toIsRoot (List.cons_ne_nil name []) sound named
  rw [← List.append_assoc, List.dropLast_concat, List.drop_left]
  exact FileSystem.find?_eq_some.mpr ⟨placed, there⟩

/-- The search of a listed directory finds the sources under it. -/
theorem all_scan_holder_perm {d : Place} (atD : d ∈ holders fs base) :
    (fs.scan [] (root.join (.ofString (written (d.drop base.length))))).all.Perm
      (((projectSources fs base).filter d.isPrefixOf).map (seen root base d)) := by
  have below : (projectSources fs base).filter d.isPrefixOf = fs.sources.filter d.isPrefixOf := by
    obtain ⟨names, rfl, _⟩ := exists_names_of_mem_holders project.tree project.toIsRoot atD
    rw [projectSources, List.filter_filter]
    refine List.filter_congr fun q _ => ?_
    rw [Bool.and_eq_left_iff_imp]
    intro under
    rw [List.isPrefixOf_iff_prefix] at under ⊢
    exact (List.prefix_append _ _).trans under
  rw [below]
  exact FileSystem.all_scan_perm project.tree (find?_holder project atD)

/-- The search that a manifest asks for finds a source once for each listed directory above it. -/
theorem all_scanAll_perm {names : List String} (listed : names.Perm (listing fs base)) :
    (fs.scanAll [] (searchedFrom root names)).all.Perm
      ((holders fs base).flatMap fun d =>
        ((projectSources fs base).filter d.isPrefixOf).map (seen root base d)) := by
  unfold searchedFrom
  by_cases bare : names = []
  · -- nothing is listed, so the root is searched, but then there is nothing to find
    rw [bare] at listed
    have none : holders fs base = [] := List.map_eq_nil_iff.mp (List.nil_perm.mp listed)
    have empty : projectSources fs base = [] := List.eq_nil_iff_forall_not_mem.mpr fun q atQ => by
      simpa [none] using mem_holders.mpr ⟨q, atQ, rfl⟩
    have searched := all_scanAll_root_perm project.tree project.toIsRoot
    rw [empty] at searched
    rw [if_pos bare, none]
    exact searched
  · rw [if_neg bare]
    have searched := fs.all_scanAll_perm (names.map fun name => root.join (.ofString name))
    have ordered := listed.flatMap_right fun name => (fs.scan [] (root.join (.ofString name))).all
    rw [List.flatMap_map] at searched
    rw [listing, List.flatMap_map] at ordered
    exact (searched.trans ordered).trans
      (List.Perm.flatMap_left _ fun d atD => all_scan_holder_perm project atD)

theorem find?_seen_holder {d q : Place} (atD : d ∈ holders fs base)
    (member : q ∈ (projectSources fs base).filter d.isPrefixOf) :
    ∃ e, fs.find? (seen root base d q) = some (q, e) := by
  obtain ⟨atQ, below⟩ := List.mem_filter.mp member
  have there := (FileSystem.find?_eq_some.mp (find?_holder project atD)).2
  obtain ⟨names, rfl, _⟩ := exists_names_of_mem_holders project.tree project.toIsRoot atD
  exact find?_seen project there (List.prefix_append base names) atQ (List.isPrefixOf_iff_prefix.mp below)

theorem places_scanAll_perm {names : List String} (listed : names.Perm (listing fs base)) :
    (fs.places (fs.scanAll [] (searchedFrom root names)).all).Perm
      ((holders fs base).flatMap fun d => (projectSources fs base).filter d.isPrefixOf) := by
  have placed := (all_scanAll_perm project listed).filterMap fun file => (fs.find? file).map Prod.fst
  rw [List.filterMap_flatMap] at placed
  exact placed.trans (.of_eq (List.flatMap_congr fun d atD =>
    FileSystem.places_map fun q member => find?_seen_holder project atD member))

theorem isThere_of_mem_scanAll {names : List String} (listed : names.Perm (listing fs base)) {file : Location}
    (member : file ∈ (fs.scanAll [] (searchedFrom root names)).all) : fs.isThere file = true := by
  obtain ⟨d, atD, inside⟩ := List.mem_flatMap.mp ((all_scanAll_perm project listed).mem_iff.mp member)
  obtain ⟨q, atQ, rfl⟩ := List.mem_map.mp inside
  obtain ⟨e, entry⟩ := find?_seen_holder project atD atQ
  rw [FileSystem.isThere, entry]
  rfl

theorem places_root_perm :
    (fs.places (fs.scanAll [] [root.join (.ofString ".")]).all).Perm (projectSources fs base) := by
  have searched := all_scanAll_root_perm project.tree project.toIsRoot
  have placed := searched.filterMap fun file => (fs.find? file).map Prod.fst
  refine placed.trans (.of_eq (FileSystem.places_map fun q atQ => ?_))
  exact find?_seen project project.there (List.prefix_refl base) atQ
    (List.isPrefixOf_iff_prefix.mp (List.mem_filter.mp atQ).2)

/-- Each source is found once if no directory of sources lies in another one. -/
theorem flatMap_holders_perm_iff :
    ((holders fs base).flatMap fun d =>
        (projectSources fs base).filter d.isPrefixOf).Perm (projectSources fs base) ↔
      ∀ a ∈ projectSources fs base, ∀ b ∈ projectSources fs base,
        a.dropLast <+: b.dropLast → a.dropLast = b.dropLast := by
  refine FileSystem.flatMap_filter_perm_iff (project.tree.nodup_sources.filter _) (List.nodup_dedup _)
    (fun _ => mem_holders) ?_ ?_
  · intro q atQ
    obtain ⟨directories, name, rfl, _⟩ := exists_names_of_mem_sources project.tree project.toIsRoot atQ
    simp
  · intro a atA b atB same
    obtain ⟨content, entry⟩ := FileSystem.mem_files.mp (List.mem_of_mem_filter (List.mem_of_mem_filter atB))
    have found := find?_holder project (mem_holders.mpr ⟨a, atA, rfl⟩)
    have there := (FileSystem.find?_eq_some.mp found).2
    rw [same, project.tree.get?_of_mem entry] at there
    cases there

theorem projectSources_started (names : List String) :
    projectSources (started fs (manifestPlace base) names) base = projectSources fs base := by
  rw [projectSources, started, fs.sources_put (isSource_manifestPlace project.tree project.toIsRoot),
    projectSources]

theorem holders_started (names : List String) :
    holders (started fs (manifestPlace base) names) base = holders fs base := by
  rw [holders, projectSources_started project, holders]

theorem listing_started (names : List String) :
    listing (started fs (manifestPlace base) names) base = listing fs base := by
  rw [listing, holders_started project, listing]

theorem IsProject.started (other : fs.get? (manifestPlace base) ≠ some .directory) (names : List String) :
    IsProject (started fs (manifestPlace base) names) root base where
  toIsRoot := project.toIsRoot.keeps (FileSystem.keeps_put other _)
  tree := project.tree.put (by simp [manifestPlace]) (isName_of_mem_manifestPlace project.tree project.toIsRoot) _
  reached := by
    rw [projectSources_started project]
    exact fun q atQ => (project.reached q atQ).imp fun _ placed => (FileSystem.keeps_put other _).place placed

end Project

/-- A manifest that was just written is the one that the project has. -/
theorem discover_started {q : Place} (named : fs.place (root.join (.ofString Manifest.fileName)) = .ok q)
    (other : fs.get? q ≠ some .directory) {names : List String} (listable : Manifest.IsListable names) :
    (started fs q names).discover root = .ok ((started fs q names).scanAll [] (searchedFrom root names)) := by
  have placed : (started fs q names).place (root.join (.ofString Manifest.fileName)) = .ok q :=
    (FileSystem.keeps_put other _).place named
  have entry : (started fs q names).get? q = some (.file (Manifest.starter names).toUTF8) := by
    rw [started, FileSystem.get?_put fs (FileSystem.ne_nil_of_get?_ne_directory other), if_pos rfl]
  have there : (started fs q names).isThere (root.join (.ofString Manifest.fileName)) = true := by
    rw [FileSystem.isThere, FileSystem.find?_eq_some.mpr ⟨placed, entry⟩]
    rfl
  rw [FileSystem.discover, FileSystem.manifestAt, there, if_pos rfl, FileSystem.read_of_get? placed entry]
  simp only [Manifest.parse_starter listable]
  show Except.ok (FileSystem.scanAll _ [] (List.map root.join (Manifest.searched _))) = _
  rw [Manifest.searched_listed, List.map_map]
  rfl

/-- What was found is written down, whether there is a manifest to be replaced or none. -/
theorem run_of_discovered (r : InitRequest) (p : Palette) {q : Place} {files : SourceFiles}
    (named : fs.place (r.root.join (.ofString Manifest.fileName)) = .ok q) (other : fs.get? q ≠ some .directory)
    (free : fs.isThere (r.root.join (.ofString Manifest.fileName)) = false ∨ r.force = true)
    (scanned : fs.discover r.root = .ok files) :
    (r.run p fs).failure? = none ∧
      (r.run p fs).files = started fs q (directories r.root files) := by
  have put : fs.write (r.root.join (.ofString Manifest.fileName)) (Manifest.starter (directories r.root files)) =
      .ok (started fs q (directories r.root files)) := by
    rw [FileSystem.write, named]
    simp [bind, Except.bind, started]
  have allowed : (fs.isThere (r.root.join (.ofString Manifest.fileName)) && !r.force) = false := by
    rcases free with absent | forced
    · rw [absent, Bool.false_and]
    · rw [forced, Bool.not_true, Bool.and_false]
  rw [run]
  simp [allowed, scanned, put]

theorem run_of_fresh (r : InitRequest) (p : Palette) {q : Place} {files : SourceFiles}
    (named : fs.place (r.root.join (.ofString Manifest.fileName)) = .ok q) (fresh : fs.get? q = none)
    (scanned : fs.discover r.root = .ok files) :
    (r.run p fs).failure? = none ∧
      (r.run p fs).files = started fs q (directories r.root files) := by
  have absent := FileSystem.isThere_of_get?_eq_none named fresh
  exact run_of_discovered r p named (by simp [fresh]) (.inl absent) scanned

end InitRequest

/-- A new project is searched by the manifest that it starts with. Everything that was found before is found again,
and each file once exactly if no two of the files lie in different directories one of which is within the other. -/
theorem InitRequest.places_discover_run_perm_iff {r : InitRequest} {fs : FileSystem} {q : Place} (tree : fs.IsTree)
    (named : fs.place (r.root.join (.ofString Manifest.fileName)) = .ok q) (fresh : fs.get? q = none)
    (readable : ∀ found, fs.discover r.root = .ok found → ∀ file ∈ found.all, fs.isThere file = true)
    (listable : ∀ found, fs.discover r.root = .ok found → Manifest.IsListable (directories r.root found))
    (p : Palette) :
    ∃ found again, fs.discover r.root = .ok found ∧ (r.run p fs).failure? = none ∧
      (r.run p fs).files.discover r.root = .ok again ∧
        (∀ file ∈ again.all, (r.run p fs).files.isThere file = true) ∧
      (fs.places found.all).Nodup ∧
      (∀ place, place ∈ (r.run p fs).files.places again.all ↔ place ∈ fs.places found.all) ∧
      (((r.run p fs).files.places again.all).Perm (fs.places found.all) ↔
        ∀ a ∈ fs.places found.all, ∀ b ∈ fs.places found.all, a.dropLast <+: b.dropLast →
          a.dropLast = b.dropLast) := by
  have scanned := discover_of_fresh named fresh
  obtain ⟨base, opens, rfl⟩ := exists_isRoot named
  have perm := all_scanAll_root_perm tree opens
  have project : IsProject fs r.root base := ⟨opens, tree, fun q atQ => FileSystem.exists_place_of_isThere
    (readable _ scanned _ (perm.mem_iff.mpr (List.mem_map_of_mem atQ)))⟩
  have other : fs.get? (manifestPlace base) ≠ some .directory := by simp [fresh]
  have listed := directories_perm tree opens perm
  obtain ⟨done, left⟩ := run_of_fresh r p named fresh scanned
  have again := discover_started named other (listable _ scanned)
  -- the two searches, of the tree before the run and of the tree after it
  have first := places_root_perm project
  have after := project.started other (directories r.root (fs.scanAll [] [r.root.join (.ofString ".")]))
  rw [← listing_started project] at listed
  have second := places_scanAll_perm after listed
  rw [holders_started project, projectSources_started project] at second
  rw [left]
  refine ⟨_, _, scanned, done, again, fun file member => isThere_of_mem_scanAll after listed member,
    first.nodup_iff.mpr (tree.nodup_sources.filter _), fun place => ?_, ?_⟩
  · rw [second.mem_iff, first.mem_iff]
    exact FileSystem.mem_flatMap_filter fun _ => mem_holders
  · have compared : (FileSystem.places _ _).Perm (fs.places _) ↔ _ :=
      ⟨fun same => (second.symm.trans same).trans first, fun same => (second.trans same).trans first.symm⟩
    rw [compared]
    simp only [first.mem_iff]
    exact flatMap_holders_perm_iff project

/-- Two directories beside each other. -/
theorem InitRequest.places_discover_run_perm_iff_siblings :
    let r : InitRequest := ⟨.ofString ".", false⟩
    let fs : FileSystem := ⟨[(["maps".toList], .directory), (["maps".toList, "valley.map".toList], .file "".toUTF8),
      (["notes".toList], .directory), (["notes".toList, "bay.md".toList], .file "".toUTF8)], []⟩
    fs.IsTree ∧ fs.place (r.root.join (.ofString Manifest.fileName)) = .ok (manifestPlace []) ∧
      fs.get? (manifestPlace []) = none ∧ ∃ found again, fs.discover r.root = .ok found ∧
      (∀ file ∈ found.all, fs.isThere file = true) ∧ Manifest.IsListable (directories r.root found) ∧
      (r.run .plain fs).files.discover r.root = .ok again ∧
      ((r.run .plain fs).files.places again.all).Perm (fs.places found.all) := by
  intro r fs
  have tree : fs.IsTree := ⟨by decide +kernel, by decide +kernel, by decide +kernel⟩
  have named : fs.place (r.root.join (.ofString Manifest.fileName)) = .ok (manifestPlace []) := by decide +kernel
  have fresh : fs.get? (manifestPlace []) = none := by decide +kernel
  have scanned : fs.discover r.root =
      .ok ⟨[.ofString "././maps/valley.map"], [.ofString "././notes/bay.md"]⟩ := by
    rw [discover_of_fresh named fresh, FileSystem.scanAll, List.foldl_cons,
      FileSystem.scan_of_sorted [] (p := []) (by decide +kernel) (by decide +kernel)]
    decide +kernel
  have readable : ∀ found, fs.discover r.root = .ok found → ∀ file ∈ found.all, fs.isThere file = true := by
    intro found same
    cases scanned.symm.trans same
    decide +kernel
  have listable : ∀ found, fs.discover r.root = .ok found → Manifest.IsListable (directories r.root found) := by
    intro found same
    cases scanned.symm.trans same
    decide +kernel
  obtain ⟨found, again, first, _, second, _, _, _, once⟩ :=
    places_discover_run_perm_iff tree named fresh readable listable .plain
  refine ⟨tree, named, fresh, found, again, first, readable found first, listable found first, second, once.mpr ?_⟩
  cases scanned.symm.trans first
  decide +kernel

/-- A directory with maps inside another one: its map is found twice. -/
theorem InitRequest.exists_discover_run_twice :
    let r : InitRequest := ⟨.ofString ".", false⟩
    let fs : FileSystem := ⟨[(["maps".toList], .directory), (["maps".toList, "coast".toList], .directory),
      (["maps".toList, "coast".toList, "bay.map".toList], .file "".toUTF8),
      (["maps".toList, "valley.map".toList], .file "0101 x\n".toUTF8)], []⟩
    fs.discover r.root = .ok ⟨[.ofString "././maps/coast/bay.map", .ofString "././maps/valley.map"], []⟩ ∧
      (r.run .plain fs).failure? = none ∧
      (r.run .plain fs).files.discover r.root = .ok
        ⟨[.ofString "./maps/coast/bay.map", .ofString "./maps/valley.map",
        .ofString "./maps/coast/bay.map"], []⟩ := by
  intro r fs
  have named : fs.place (r.root.join (.ofString Manifest.fileName)) = .ok (manifestPlace []) := by decide +kernel
  have fresh : fs.get? (manifestPlace []) = none := by decide +kernel
  have scanned : fs.discover r.root =
      .ok ⟨[.ofString "././maps/coast/bay.map", .ofString "././maps/valley.map"], []⟩ := by
    rw [discover_of_fresh named fresh, FileSystem.scanAll, List.foldl_cons,
      FileSystem.scan_of_sorted [] (p := []) (by decide +kernel) (by decide +kernel)]
    decide +kernel
  have names : directories r.root ⟨[.ofString "././maps/coast/bay.map", .ofString "././maps/valley.map"], []⟩ =
      ["maps/", "maps/coast/"] := by decide +kernel
  obtain ⟨done, left⟩ := run_of_fresh r .plain named fresh scanned
  rw [names] at left
  have listable : Manifest.IsListable ["maps/", "maps/coast/"] := by decide +kernel
  refine ⟨scanned, done, ?_⟩
  rw [left, discover_started named (by simp [fresh]) listable, searchedFrom, if_neg (List.cons_ne_nil _ _),
    FileSystem.scanAll, List.map_cons, List.map_singleton, List.foldl_cons, List.foldl_cons,
    FileSystem.scan_of_sorted [] (p := ["maps".toList]) (by decide +kernel) (by decide +kernel),
    FileSystem.scan_of_sorted [] (p := ["maps".toList, "coast".toList]) (by decide +kernel) (by decide +kernel)]
  decide +kernel

end HexAtlas
