import HexAtlas.Proofs.Command.Changes
import HexAtlas.Proofs.Command.Init

namespace HexAtlas

theorem Yaml.itemLines_cons (text : List Char) (rest : List (List Char)) :
    itemLines (text :: rest) = "  - \"".toList ++ ((text ++ ['"']) ++ '\n' :: itemLines rest) := by
  simp [itemLines]

/-- Lines that are not broken can be told apart. -/
theorem Yaml.itemLines_injective {texts other : List (List Char)} (unbroken : ∀ text ∈ texts, '\n' ∉ text)
    (unbroken' : ∀ text ∈ other, '\n' ∉ text) (same : itemLines texts = itemLines other) : texts = other := by
  induction texts generalizing other with
  | nil =>
    cases other with
    | nil => rfl
    | cons text rest => simp [itemLines] at same
  | cons text rest ih =>
    cases other with
    | nil => simp [itemLines] at same
    | cons text' rest' =>
      obtain ⟨free, later⟩ := List.forall_mem_cons.mp unbroken
      obtain ⟨free', later'⟩ := List.forall_mem_cons.mp unbroken'
      rw [itemLines_cons, itemLines_cons, List.append_cancel_left_eq] at same
      have cut := congrArg (cutAt? '\n') same
      rw [cutAt?_append (by simpa using free), cutAt?_append (by simpa using free')] at cut
      simp only [Option.some.injEq, Prod.mk.injEq, List.append_cancel_right_eq] at cut
      rw [cut.1, ih later later' cut.2]

namespace Manifest

variable {names other : List String}

theorem starter_congr (same : listed names = listed other) : starter names = starter other := by
  rw [← String.toList_inj, toList_starter, toList_starter, starterEntries, starterEntries, same]

theorem toList_starter_of_ne_nil (filled : listed names ≠ []) : (starter names).toList =
    Yaml.lineFeeds ["# hexmap project settings".toList] ++ ("sources:\n".toList ++
      (Yaml.itemLines ((listed names).map String.toList) ++ (closingEntries []).flatMap Yaml.Entry.text)) := by
  rw [toList_starter, starterEntries, if_neg filled]
  simp [Yaml.Entry.text, Yaml.Entry.comments, Yaml.Entry.line, Yaml.EntryValue.text, Yaml.lineFeeds]

theorem starter_ne (bare : listed names = []) (filled : listed other ≠ []) : starter names ≠ starter other := by
  intro same
  rw [← String.toList_inj, toList_starter_of_ne_nil filled, toList_starter, starterEntries, if_pos bare] at same
  simp [closingEntries, Yaml.Entry.text, Yaml.Entry.comments, Yaml.Entry.line, Yaml.lineFeeds] at same

/-- The manifests of two projects are written alike exactly if they list the same directories. -/
theorem starter_eq_starter_iff (unbroken : ∀ name ∈ names, '\n' ∉ name.toList)
    (unbroken' : ∀ name ∈ other, '\n' ∉ name.toList) :
    starter names = starter other ↔ listed names = listed other := by
  refine ⟨fun same => ?_, starter_congr⟩
  by_cases bare : listed names = [] <;> by_cases bare' : listed other = []
  · rw [bare, bare']
  · exact absurd same (starter_ne bare bare')
  · exact absurd same.symm (starter_ne bare' bare)
  · rw [← String.toList_inj, toList_starter_of_ne_nil bare, toList_starter_of_ne_nil bare',
      List.append_cancel_left_eq, List.append_cancel_left_eq, List.append_cancel_right_eq] at same
    have free {names : List String} (unbroken : ∀ name ∈ names, '\n' ∉ name.toList) :
        ∀ text ∈ (listed names).map String.toList, '\n' ∉ text :=
      List.forall_mem_map.mpr fun name member => unbroken name (mem_of_mem_listed member)
    have texts := Yaml.itemLines_injective (free unbroken) (free unbroken') same
    exact List.map_injective_iff.mpr (fun _ _ => String.toList_inj.mp) texts

end Manifest

namespace InitRequest

variable {fs : FileSystem} {root : Location} {base q : Place} {content : ByteArray}

/-- A search by the manifest that is there. -/
theorem discover_eq_ok_iff (named : fs.place (root.join (.ofString Manifest.fileName)) = .ok q)
    (there : fs.get? q = some (.file content)) {found : SourceFiles} : fs.discover root = .ok found ↔
      ∃ text m, String.fromUTF8? content = some text ∧ Manifest.parse text.toList = .ok m ∧
        found = fs.scanAll m.excludes (m.searched.map root.join) := by
  have present : fs.isThere (root.join (.ofString Manifest.fileName)) = true := by
    rw [FileSystem.isThere, FileSystem.find?_eq_some.mpr ⟨named, there⟩]
    rfl
  rw [FileSystem.discover, FileSystem.manifestAt, present, if_pos rfl, FileSystem.read, named]
  simp only [bind, Except.bind, there]
  cases decoded : String.fromUTF8? content with
  | none => simp
  | some text =>
    cases parsed : Manifest.parse text.toList with
    | error f => simp [parsed]
    | ok m => simp [parsed, pure, Except.pure, eq_comm]

/-- A run that finds nothing in its way leaves the text that it writes. -/
theorem read_run_of_discovered (r : InitRequest) (p : Palette) {files : SourceFiles}
    (named : fs.place (r.root.join (.ofString Manifest.fileName)) = .ok q) (other : fs.get? q ≠ some .directory)
    (free : fs.isThere (r.root.join (.ofString Manifest.fileName)) = false ∨ r.force = true)
    (scanned : fs.discover r.root = .ok files) :
    (r.run p fs).failure? = none ∧ (r.run p fs).files.read (r.root.join (.ofString Manifest.fileName)) =
      .ok (Manifest.starter (directories r.root files)).toList := by
  obtain ⟨done, left⟩ := run_of_discovered r p named other free scanned
  refine ⟨done, ?_⟩
  rw [left]
  refine FileSystem.read_of_get? ((FileSystem.keeps_put other _).place named) ?_
  rw [started, FileSystem.get?_put fs (FileSystem.ne_nil_of_get?_ne_directory other), if_pos rfl]

/-- A run fails if the search does. -/
theorem failure_of_undiscovered (r : InitRequest) (p : Palette) {f : Failure}
    (missing : fs.discover r.root = .error f) : (r.run p fs).failure? ≠ none :=
  ((r.spares p fs).undiscovered f missing).2

section Fresh

variable (tree : fs.IsTree) (named : fs.place (root.join (.ofString Manifest.fileName)) = .ok (manifestPlace base))
  (there : fs.get? (manifestPlace base) = some (.file content))
include tree named there

/-- Without the manifest all directories under the root are found that hold sources. -/
theorem exists_discover_remove : ∃ files, (fs.remove (manifestPlace base)).discover root = .ok files ∧
    directories root files = sortedSet (listing fs base) := by
  have other : fs.get? (manifestPlace base) ≠ some .directory := by simp [there]
  have keeps := FileSystem.keeps_remove other
  obtain ⟨base', opens, same⟩ := exists_isRoot named
  obtain rfl : base = base' := List.append_cancel_right same
  have gone := fs.get?_remove_self (FileSystem.ne_nil_of_get?_ne_directory other)
  have kept : listing (fs.remove (manifestPlace base)) base = listing fs base := by
    rw [listing, holders, projectSources, fs.sources_remove (isSource_manifestPlace tree opens), listing, holders,
      projectSources]
  refine ⟨_, discover_of_fresh (keeps.place named) gone, sortedSet_ext fun name => ?_⟩
  have found := all_scanAll_root_perm (tree.remove (manifestPlace base)) (opens.keeps keeps)
  have listed : name ∈ directories root _ ↔ name ∈ listing _ base :=
    mem_directories (tree.remove _) (opens.keeps keeps) found
  rw [kept] at listed
  exact listed.trans mem_sortedSet.symm

/-- Without its manifest a project is started with all directories that hold sources. A run that replaces the
manifest comes to the same text exactly if the old manifest can be read and its sources and patterns lead to these
directories. -/
theorem run_forced_iff
    (unbroken : ∀ found, fs.discover root = .ok found → ∀ name ∈ directories root found, '\n' ∉ name.toList)
    (unbroken' : ∀ name ∈ listing fs base, '\n' ∉ name.toList) (p : Palette) :
    let file := root.join (.ofString Manifest.fileName)
    let forced := (⟨root, true⟩ : InitRequest).run p fs
    let fresh := (⟨root, false⟩ : InitRequest).run p (fs.remove (manifestPlace base))
    fresh.failure? = none ∧ fresh.files.read file = .ok (Manifest.starter (sortedSet (listing fs base))).toList ∧
      (forced.failure? = none ∧ forced.files.read file = fresh.files.read file ↔
        ∃ text m, String.fromUTF8? content = some text ∧ Manifest.parse text.toList = .ok m ∧
          Manifest.listed (directories root (fs.scanAll m.excludes (m.searched.map root.join))) =
            Manifest.listed (sortedSet (listing fs base))) := by
  intro file forced fresh
  have other : fs.get? (manifestPlace base) ≠ some .directory := by simp [there]
  have keeps := FileSystem.keeps_remove other
  obtain ⟨files, scanned, all⟩ := exists_discover_remove tree named there
  have gone := fs.get?_remove_self (FileSystem.ne_nil_of_get?_ne_directory other)
  have absent := FileSystem.isThere_of_get?_eq_none (keeps.place named) gone
  obtain ⟨done, text⟩ :=
    read_run_of_discovered ⟨root, false⟩ p (keeps.place named) (by simp [gone]) (.inl absent) scanned
  rw [all] at text
  refine ⟨done, text, ?_⟩
  have replaced {found : SourceFiles} (discovered : fs.discover root = .ok found) :
      forced.failure? = none ∧ forced.files.read file = .ok (Manifest.starter (directories root found)).toList :=
    read_run_of_discovered ⟨root, true⟩ p named other (.inr rfl) discovered
  have free : ∀ name ∈ sortedSet (listing fs base), '\n' ∉ name.toList := fun name member =>
    unbroken' name (mem_sortedSet.mp member)
  constructor
  · rintro ⟨succeeded, same⟩
    cases discovered : fs.discover root with
    | error f => exact absurd succeeded (failure_of_undiscovered ⟨root, true⟩ p discovered)
    | ok found =>
      rw [(replaced discovered).2, text, Except.ok.injEq, String.toList_inj,
        Manifest.starter_eq_starter_iff (unbroken found discovered) free] at same
      obtain ⟨text, m, decoded, parsed, rfl⟩ := (discover_eq_ok_iff named there).mp discovered
      exact ⟨text, m, decoded, parsed, same⟩
  · rintro ⟨old, m, decoded, parsed, same⟩
    have discovered := (discover_eq_ok_iff named there).mpr ⟨old, m, decoded, parsed, rfl⟩
    obtain ⟨succeeded, written⟩ := replaced discovered
    exact ⟨succeeded, by rw [written, text, Manifest.starter_congr same]⟩

end Fresh

/-- An old manifest that names the only directory with maps. -/
theorem run_forced_iff_maps :
    let root : Location := .ofString "."
    let file := root.join (.ofString Manifest.fileName)
    let text := "sources:\n  - maps/\noutput: build\n"
    let fs : FileSystem := ⟨[(manifestPlace [], .file text.toUTF8), (["maps".toList], .directory),
      (["maps".toList, "valley.map".toList], .file "0101 x\n".toUTF8)], []⟩
    let forced := (⟨root, true⟩ : InitRequest).run .plain fs
    let fresh := (⟨root, false⟩ : InitRequest).run .plain (fs.remove (manifestPlace []))
    fs.IsTree ∧ fs.place file = .ok (manifestPlace []) ∧ fs.get? (manifestPlace []) = some (.file text.toUTF8) ∧
      (∀ found, fs.discover root = .ok found → ∀ name ∈ directories root found, '\n' ∉ name.toList) ∧
      (∀ name ∈ listing fs [], '\n' ∉ name.toList) ∧
      forced.failure? = none ∧ forced.files.read file = fresh.files.read file := by
  intro root file text fs forced fresh
  have tree : fs.IsTree := ⟨by decide +kernel, by decide +kernel, by decide +kernel⟩
  have named : fs.place file = .ok (manifestPlace []) := by decide +kernel
  have there : fs.get? (manifestPlace []) = some (.file text.toUTF8) := by decide +kernel
  have decoded : String.fromUTF8? text.toUTF8 = some text := FileSystem.fromUTF8?_toUTF8 text
  let m : Manifest := { Manifest.standard with sources := ["maps/"], output := .ofString "build" }
  have parsed : Manifest.parse text.toList = .ok m := by decide +kernel
  have searched : fs.scanAll m.excludes (m.searched.map root.join) = ⟨[.ofString "./maps/valley.map"], []⟩ := by
    rw [FileSystem.scanAll, show m.searched.map root.join = [.ofString "./maps/"] by decide +kernel,
      show m.excludes = [] from rfl, List.foldl_cons,
      FileSystem.scan_of_sorted [] (p := ["maps".toList]) (by decide +kernel) (by decide +kernel)]
    decide +kernel
  have names : directories root ⟨[.ofString "./maps/valley.map"], []⟩ = ["maps/"] := by decide +kernel
  have unbroken : ∀ found, fs.discover root = .ok found → ∀ name ∈ directories root found, '\n' ∉ name.toList := by
    intro found discovered
    cases ((discover_eq_ok_iff named there).mpr ⟨text, m, decoded, parsed, rfl⟩).symm.trans discovered
    rw [searched, names]
    decide
  have unbroken' : ∀ name ∈ listing fs [], '\n' ∉ name.toList := by decide +kernel
  have replaced := (run_forced_iff tree named there unbroken unbroken' .plain).2.2
  refine ⟨tree, named, there, unbroken, unbroken', replaced.mpr ⟨text, m, decoded, parsed, ?_⟩⟩
  rw [searched, names]
  decide +kernel

/-- A manifest that cannot be read stops the run that should replace it. -/
theorem not_forall_run_forced :
    ¬∀ (root : Location) (fs : FileSystem) (base : Place) (content : ByteArray) (p : Palette),
    fs.IsTree → fs.place (root.join (.ofString Manifest.fileName)) = .ok (manifestPlace base) →
      fs.get? (manifestPlace base) = some (.file content) →
        let forced := (⟨root, true⟩ : InitRequest).run p fs
        let fresh := (⟨root, false⟩ : InitRequest).run p (fs.remove (manifestPlace base))
        forced.failure? = none ∧ forced.files.read (root.join (.ofString Manifest.fileName)) =
          fresh.files.read (root.join (.ofString Manifest.fileName)) := by
  intro same
  let fs : FileSystem := ⟨[(manifestPlace [], .file "output: [unclosed\n".toUTF8),
    (["valley.map".toList], .file "0101 x\n".toUTF8)], []⟩
  have tree : fs.IsTree := ⟨by decide +kernel, by decide +kernel, by decide +kernel⟩
  have claimed :=
    same (.ofString ".") fs [] "output: [unclosed\n".toUTF8 .plain tree (by decide +kernel) (by decide +kernel)
  have failed : ((⟨.ofString ".", true⟩ : InitRequest).run .plain fs).failure? = some .manifestMalformed := by
    decide +kernel
  exact absurd claimed.1 (by rw [failed]; nofun)

end InitRequest

end HexAtlas
