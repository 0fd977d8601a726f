import HexAtlas.Command.Render
import HexAtlas.Proofs.Project.Discovery
import HexAtlas.Proofs.Text.Cut

namespace HexAtlas

section Parts

variable {ι α : Type} {xs : List ι} {f g : ι → List α}

theorem sublist_flatMap (within : ∀ x ∈ xs, (f x).Sublist (g x)) : (xs.flatMap f).Sublist (xs.flatMap g) := by
  induction xs with
  | nil => exact List.Sublist.refl []
  | cons x rest ih =>
    obtain ⟨first, others⟩ := List.forall_mem_cons.mp within
    rw [List.flatMap_cons, List.flatMap_cons]
    exact first.append (ih others)

/-- Where each part lies within another one, the whole is the same only if each part is. -/
theorem flatMap_eq_flatMap_iff (within : ∀ x ∈ xs, (f x).Sublist (g x)) :
    xs.flatMap f = xs.flatMap g ↔ ∀ x ∈ xs, f x = g x := by
  refine ⟨fun same => ?_, List.flatMap_congr⟩
  induction xs with
  | nil => exact List.forall_mem_nil _
  | cons x rest ih =>
    obtain ⟨first, others⟩ := List.forall_mem_cons.mp within
    rw [List.flatMap_cons, List.flatMap_cons] at same
    have lengths := congrArg List.length same
    rw [List.length_append, List.length_append] at lengths
    have short := first.length_le
    have short' := (sublist_flatMap others).length_le
    have own : f x = g x := first.eq_of_length (by omega)
    rw [own, List.append_cancel_left_eq] at same
    exact List.forall_mem_cons.mpr ⟨own, ih others same⟩

end Parts

namespace Location

/-- The current directory. -/
def here : Location := .ofString "."

theorem join_of_isAbsolute (l : Location) {m : Location} (absolute : m.isAbsolute = true) : l.join m = m :=
  if_pos absolute

theorem lead_join (l : Location) {m : Location} (relative : m.isAbsolute = false) :
    (l.join m).lead = l.lead ++ m.lead := by
  have text := l.text_join relative
  by_cases empty : m.text = []
  · rw [empty, List.append_nil] at text
    have closed : l.lead = [] ∨ l.lead.getLast? = some '/' := by
      unfold lead
      split
      · rename_i plain
        simpa using plain
      · exact .inr List.getLast?_concat
    rw [lead, text, if_pos (by simpa using closed), lead, lead, empty]
    simp
  · have last : (l.lead ++ m.text).getLast? = m.text.getLast? := List.getLast?_append_of_ne_nil _ empty
    rw [lead, text, last]
    conv => rhs; rhs; rw [lead]
    simp only [List.append_eq_nil_iff, empty, and_false, decide_false, Bool.false_or]
    split
    · rfl
    · rw [List.append_assoc]

theorem join_assoc (l m n : Location) : l.join (m.join n) = (l.join m).join n := by
  cases behind : n.isAbsolute with
  | true => rw [join_of_isAbsolute m behind, join_of_isAbsolute l behind, join_of_isAbsolute _ behind]
  | false =>
    have inner := m.isAbsolute_join behind
    cases between : m.isAbsolute with
    | true => rw [join_of_isAbsolute l between, join_of_isAbsolute l (inner.trans between)]
    | false =>
      have outer := l.text_join (inner.trans between)
      rw [m.text_join behind] at outer
      have whole := (l.join m).text_join behind
      rw [lead_join l between, List.append_assoc] at whole
      exact congrArg Location.mk (outer.trans whole.symm)

/-- The last step that leads somewhere is the name, unless it leads upwards. -/
theorem fileName?_eq (l : Location) :
    l.fileName? = ((splitAll '/' l.text).filter (!isIdle ·)).getLast?.filter (· ≠ ['.', '.']) := by
  have last (pieces : List (List Char)) : (trimPieces pieces).getLast? = (pieces.filter (!isIdle ·)).getLast? := by
    rw [← filter_trimPieces]
    rcases List.eq_nil_or_concat' (trimPieces pieces) with none | ⟨front, piece, shape⟩
    · rw [none]
      rfl
    · have solid := not_isIdle_of_trimPieces shape
      rw [shape, List.filter_append, List.filter_cons_of_pos (by simp [solid]), List.filter_nil,
        List.getLast?_concat, List.getLast?_concat]
  rw [fileName?, last, filter_parts]

theorem fileName?_join_here (l : Location) : (here.join l).fileName? = l.fileName? := by
  cases absolute : l.isAbsolute with
  | true => rw [join_of_isAbsolute here absolute]
  | false =>
    rw [fileName?_eq, fileName?_eq, splitAll_join here absolute, List.filter_append, filter_under]
    rfl

theorem ofLocation?_join_here (l : Location) : SourceKind.ofLocation? (here.join l) = SourceKind.ofLocation? l :=
  ofLocation?_congr l.fileName?_join_here

end Location

namespace SourceFiles

/-- The files that may hold maps, each kind by itself. -/
def ofFiles (files : List Location) : SourceFiles where
  maps := files.filter fun file => SourceKind.ofLocation? file = some .map
  documents := files.filter fun file => SourceKind.ofLocation? file = some .markdown

/-- The same files as they are seen from a directory above. -/
def seenFrom (s : SourceFiles) (root : Location) : SourceFiles := ⟨s.maps.map root.join, s.documents.map root.join⟩

theorem foldl_add? (files : List Location) (s : SourceFiles) :
    files.foldl (fun found file => (found.add? file).getD found) s = s.merge (ofFiles files) := by
  induction files generalizing s with
  | nil => simp [merge, ofFiles]
  | cons file rest ih =>
    rw [List.foldl_cons, ih]
    cases kind : SourceKind.ofLocation? file with
    | none => simp [add?, kind, merge, ofFiles]
    | some k => cases k <;> simp [add?, kind, merge, ofFiles, addAs]

/-- Some of the files of another list, in its order. -/
structure Within (s t : SourceFiles) : Prop where
  maps : s.maps.Sublist t.maps
  documents : s.documents.Sublist t.documents

theorem within_iff {s t : SourceFiles} : s.Within t ↔ s.maps.Sublist t.maps ∧ s.documents.Sublist t.documents :=
  ⟨fun h => ⟨h.maps, h.documents⟩, fun h => ⟨h.1, h.2⟩⟩

theorem Within.refl (s : SourceFiles) : s.Within s := ⟨.refl _, .refl _⟩

theorem Within.seenFrom {s t : SourceFiles} (h : s.Within t) (root : Location) :
    (s.seenFrom root).Within (t.seenFrom root) :=
  ⟨h.maps.map _, h.documents.map _⟩

theorem Within.seenFrom_eq_iff {s t : SourceFiles} (h : s.Within t) (root : Location) :
    s.seenFrom root = t.seenFrom root ↔ s = t := by
  refine ⟨fun same => ?_, fun same => by rw [same]⟩
  have maps := congrArg (·.maps.length) same
  have documents := congrArg (·.documents.length) same
  simp only [SourceFiles.seenFrom, List.length_map] at maps documents
  obtain ⟨_, _⟩ := s
  obtain ⟨_, _⟩ := t
  rw [mk.injEq]
  exact ⟨h.maps.eq_of_length maps, h.documents.eq_of_length documents⟩

theorem ofFiles_map_here (files : List Location) :
    ofFiles (files.map Location.here.join) = (ofFiles files).seenFrom .here := by
  simp only [ofFiles, seenFrom, List.filter_map, Function.comp_def, Location.ofLocation?_join_here]

/-- The files of several parts, one part after the other. -/
def concat {ι : Type} (xs : List ι) (part : ι → SourceFiles) : SourceFiles :=
  ⟨xs.flatMap fun x => (part x).maps, xs.flatMap fun x => (part x).documents⟩

section Concat

variable {ι : Type} {xs : List ι} {f g : ι → SourceFiles}

theorem foldl_merge (part : ι → SourceFiles) (xs : List ι) :
    xs.foldl (fun found x => found.merge (part x)) .empty = concat xs part := by
  have run : ∀ (xs : List ι) (s : SourceFiles),
      xs.foldl (fun found x => found.merge (part x)) s = s.merge (concat xs part) := by
    intro xs
    induction xs with
    | nil => intro s; simp [merge, concat]
    | cons x rest ih => intro s; rw [List.foldl_cons, ih]; simp [merge, concat]
  rw [run]
  simp [merge, empty]

theorem within_concat (within : ∀ x ∈ xs, (f x).Within (g x)) : (concat xs f).Within (concat xs g) :=
  ⟨sublist_flatMap fun x member => (within x member).maps, sublist_flatMap fun x member =>
    (within x member).documents⟩

theorem concat_eq_concat_iff (within : ∀ x ∈ xs, (f x).Within (g x)) :
    concat xs f = concat xs g ↔ ∀ x ∈ xs, f x = g x := by
  have each (x : ι) : f x = g x ↔ (f x).maps = (g x).maps ∧ (f x).documents = (g x).documents := by
    obtain ⟨_, _⟩ := f x
    obtain ⟨_, _⟩ := g x
    rw [mk.injEq]
  rw [concat, concat, mk.injEq, flatMap_eq_flatMap_iff fun x member => (within x member).maps,
    flatMap_eq_flatMap_iff fun x member => (within x member).documents, ← forall₂_and]
  simp only [each]

theorem seenFrom_concat (xs : List ι) (f : ι → SourceFiles) (root : Location) :
    (concat xs f).seenFrom root = concat xs fun x => (f x).seenFrom root := by
  rw [seenFrom, concat, List.map_flatMap, List.map_flatMap]
  rfl

end Concat

end SourceFiles

namespace FileSystem

variable {fs : FileSystem} {excludes : List String} {l : Location} {ls : List Location}

theorem scan_eq (fs : FileSystem) (excludes : List String) (l : Location) :
    fs.scan excludes l = .ofFiles ((fs.filesUnder l).filter fun file => !isExcluded excludes file) := by
  rw [scan, SourceFiles.foldl_add?]
  simp [SourceFiles.merge, SourceFiles.empty]

theorem scanAll_eq (fs : FileSystem) (excludes : List String) (ls : List Location) :
    fs.scanAll excludes ls = .concat ls (fs.scan excludes) :=
  SourceFiles.foldl_merge _ ls

/-- What a list of files and directories takes for one of them. -/
def gathered (fs : FileSystem) (excludes : List String) (l : Location) : SourceFiles :=
  if fs.isDirectory l then fs.scan excludes l else (SourceFiles.empty.add? l).getD (SourceFiles.empty.addAs .map l)

theorem gather_eq (fs : FileSystem) (excludes : List String) (ls : List Location) :
    fs.gather excludes ls = .concat ls (fs.gathered excludes) := by
  rw [← SourceFiles.foldl_merge, gather]
  congr 1
  funext found l
  rw [gathered]
  split
  · rfl
  · cases kind : SourceKind.ofLocation? l with
    | none => simp [SourceFiles.add?, kind, SourceFiles.addAs, SourceFiles.merge, SourceFiles.empty]
    | some k => cases k <;> simp [SourceFiles.add?, kind, SourceFiles.addAs, SourceFiles.merge, SourceFiles.empty]

/-- A dot in front of a source changes neither where it leads nor which of its files are excluded. -/
structure IgnoresDot (fs : FileSystem) (excludes : List String) (l : Location) : Prop where
  find? : fs.find? (Location.here.join l) = fs.find? l
  isExcluded : ∀ file ∈ fs.filesUnder l, isExcluded excludes (Location.here.join file) = isExcluded excludes file

theorem filesUnder_here (same : fs.find? (Location.here.join l) = fs.find? l) :
    fs.filesUnder (Location.here.join l) = (fs.filesUnder l).map Location.here.join := by
  unfold filesUnder
  rw [same]
  split
  · rfl
  · rfl
  · simp only [List.map_map, Function.comp_def, Location.join_assoc]

theorem IgnoresDot.scan (h : fs.IgnoresDot excludes l) :
    fs.scan excludes (Location.here.join l) = (fs.scan excludes l).seenFrom .here := by
  have kept : (fs.filesUnder l).filter (fun file => !HexAtlas.isExcluded excludes (Location.here.join file)) =
      (fs.filesUnder l).filter fun file => !HexAtlas.isExcluded excludes file :=
    List.filter_congr fun file member => by rw [h.isExcluded file member]
  rw [scan_eq, scan_eq, filesUnder_here h.find?, List.filter_map, ← SourceFiles.ofFiles_map_here, ← kept]
  rfl

theorem scanAll_here (blind : ∀ l ∈ ls, fs.IgnoresDot excludes l) :
    fs.scanAll excludes (ls.map Location.here.join) = (fs.scanAll excludes ls).seenFrom .here := by
  rw [scanAll_eq, scanAll_eq, SourceFiles.seenFrom_concat, SourceFiles.concat, SourceFiles.concat, List.flatMap_map,
    List.flatMap_map]
  congr 1 <;> exact List.flatMap_congr fun l member => by rw [(blind l member).scan]

/-- A file that a search of the sources takes: it is there, has the name of a source and is not excluded. -/
structure IsSought (fs : FileSystem) (excludes : List String) (l : Location) : Prop where
  there : fs.isThere l = true
  kind : (SourceKind.ofLocation? l).isSome = true
  kept : isExcluded excludes l = false

theorem filesUnder_file (there : fs.isThere l = true) (file : fs.isDirectory l = false) :
    fs.filesUnder l = [l] := by
  unfold isThere at there
  unfold isDirectory at file
  unfold filesUnder
  split
  · simp_all
  · rfl
  · simp_all

theorem filesUnder_missing (missing : fs.isThere l = false) : fs.filesUnder l = [] := by
  have none : fs.find? l = none := by simpa [isThere] using missing
  rw [filesUnder, none]

theorem scan_file (file : fs.isDirectory l = false) :
    fs.scan excludes l = .ofFiles (if fs.isThere l && !isExcluded excludes l then [l] else []) := by
  rw [scan_eq]
  cases there : fs.isThere l with
  | false => rw [filesUnder_missing there]; rfl
  | true => cases kept : isExcluded excludes l <;> simp [filesUnder_file there file, kept]

/-- A search takes a file that is named as it is, or passes it over. -/
theorem scan_within_gathered (fs : FileSystem) (excludes : List String) (l : Location) :
    (fs.scan excludes l).Within (fs.gathered excludes l) ∧
      (fs.scan excludes l = fs.gathered excludes l ↔ (fs.isDirectory l = false → fs.IsSought excludes l)) := by
  rw [gathered]
  cases directory : fs.isDirectory l with
  | true => exact ⟨.refl _, by simp⟩
  | false =>
    have sought : fs.IsSought excludes l ↔
        (fs.isThere l && !isExcluded excludes l) = true ∧ (SourceKind.ofLocation? l).isSome = true := by
      rw [Bool.and_eq_true, Bool.not_eq_true']
      exact ⟨fun h => ⟨⟨h.there, h.kept⟩, h.kind⟩, fun h => ⟨h.1.1, h.2, h.1.2⟩⟩
    rw [scan_file directory, sought]
    generalize (fs.isThere l && !isExcluded excludes l) = taken
    cases kind : SourceKind.ofLocation? l with
    | none =>
      cases taken <;>
        simp [SourceFiles.ofFiles, SourceFiles.add?, SourceFiles.addAs, SourceFiles.empty, kind,
          SourceFiles.within_iff]
    | some k =>
      cases taken <;> cases k <;>
        simp [SourceFiles.ofFiles, SourceFiles.add?, SourceFiles.addAs, SourceFiles.empty, kind,
          SourceFiles.within_iff]

theorem text_join_dot {l : Location} (relative : l.isAbsolute = false) :
    (Location.here.join l).text = '.' :: '/' :: l.text := by
  rw [Location.text_join _ relative]
  rfl

theorem find?_here (fs : FileSystem) (filled : l.text ≠ []) (short : byteCount l.text ≤ 4093) :
    fs.find? (Location.here.join l) = fs.find? l := by
  cases relative : l.isAbsolute with
  | true => rw [Location.join_of_isAbsolute _ relative]
  | false =>
    have count : byteCount ('.' :: '/' :: l.text) = 2 + byteCount l.text := by
      rw [byteCount_cons, byteCount_cons, ← Nat.add_assoc]
      rfl
    have pieces : splitAll '/' ('.' :: '/' :: l.text) = ['.'] :: splitAll '/' l.text :=
      splitAll_append_cons '/' ['.'] l.text
    -- the dot only asks for a directory, and so does every other first piece
    have stay : fs.follow fs.current (['.'] :: splitAll '/' l.text) = fs.follow fs.current
      (splitAll '/' l.text) := by
      obtain ⟨piece, more, shape⟩ := List.exists_cons_of_ne_nil (splitAll_ne_nil '/' l.text)
      cases there : fs.get? fs.current with
      | none => rw [shape, follow_cons, follow_cons, there]
      | some e =>
        cases e with
        | file content => rw [shape, follow_cons, follow_cons, there]
        | directory => rw [follow_idle there rfl]
    have same : fs.place (Location.here.join l) = fs.place l := by
      unfold place
      rw [Location.isAbsolute_join _ relative, relative, text_join_dot relative, pieces, count]
      have room : ¬4095 < 2 + byteCount l.text := by omega
      have room' : ¬4095 < byteCount l.text := by omega
      simp [filled, room, room', stay, show Location.here.isAbsolute = false from rfl]
    rw [find?, same, find?]

end FileSystem

namespace Pattern

/-- A pattern whose text does not begin with a step that leads nowhere. -/
def isPlain : Pattern → Bool
  | through directory => !(['.', '/'].isPrefixOf (directory ++ ['/']))
  | ending tail => !tail.contains '/'
  | holding part => part.head? ≠ some '/' && part ≠ ['.'] && !(['.', '/'].isPrefixOf part)

/-- A text that begins with a dot and a slash begins with a step that leads nowhere. -/
theorem not_isPrefix_dot {part cs : List Char} (other : part ≠ ['.']) (inner : ¬['.', '/'] <+: part)
    (filled : part ≠ []) :
    ¬part <+: '.' :: '/' :: cs := by
  match part with
  | [] => exact absurd rfl filled
  | [c] =>
    rw [List.cons_prefix_cons]
    rintro ⟨rfl, -⟩
    exact other rfl
  | c :: d :: rest =>
    rw [List.cons_prefix_cons, List.cons_prefix_cons]
    rintro ⟨rfl, rfl, -⟩
    exact inner ⟨rest, rfl⟩

theorem accepts_here {p : Pattern} (plain : p.isPlain) (l : Location) :
    p.accepts (Location.here.join l) = p.accepts l := by
  cases relative : l.isAbsolute with
  | true => rw [Location.join_of_isAbsolute _ relative]
  | false =>
    have text := FileSystem.text_join_dot relative
    rw [Bool.eq_iff_iff]
    cases p with
    | through directory =>
      have alone : ¬directory ++ ['/'] <+: '.' :: '/' :: l.text := by
        refine not_isPrefix_dot (fun same => ?_) ?_ (by simp)
        · exact absurd (congrArg List.getLast? same) (by simp)
        · rw [← List.isPrefixOf_iff_prefix, Bool.not_eq_true]
          simpa only [isPlain, Bool.not_eq_true'] using plain
      simp only [accepts, Bool.or_eq_true, isSome_afterStart?_iff, contains_iff, text, alone, false_or]
      rw [List.infix_cons_iff, List.infix_cons_iff, List.cons_append, List.cons_prefix_cons, List.cons_prefix_cons]
      simp
    | ending tail =>
      have solid : '/' ∉ tail := by simpa [isPlain] using plain
      simp only [accepts, List.isSuffixOf_iff_suffix, text]
      rw [List.suffix_cons_iff, List.suffix_cons_iff, or_iff_right, or_iff_right]
      · rintro rfl
        exact solid List.mem_cons_self
      · rintro rfl
        exact solid (List.mem_cons_of_mem _ List.mem_cons_self)
    | holding part =>
      simp only [isPlain, Bool.and_eq_true, decide_eq_true_eq, Bool.not_eq_true', ← Bool.not_eq_true,
        List.isPrefixOf_iff_prefix] at plain
      obtain ⟨⟨slash, dot⟩, inner⟩ := plain
      simp only [accepts, contains_iff, text]
      by_cases empty : part = []
      · simp [empty]
      · rw [List.infix_cons_iff, List.infix_cons_iff, or_iff_right (not_isPrefix_dot dot inner empty), or_iff_right]
        obtain ⟨c, rest, rfl⟩ := List.exists_cons_of_ne_nil empty
        rw [List.cons_prefix_cons]
        rintro ⟨rfl, -⟩
        exact slash rfl

end Pattern

theorem isExcluded_here {patterns : List String}
    (plain : ∀ pattern ∈ patterns, (Pattern.parse pattern.toList).isPlain)
    (l : Location) : isExcluded patterns (Location.here.join l) = isExcluded patterns l := by
  rw [isExcluded, isExcluded, Bool.eq_iff_iff, List.any_eq_true, List.any_eq_true]
  exact exists_congr fun pattern =>
    and_congr_right fun member => by rw [Pattern.accepts_here (plain pattern member)]

namespace FileSystem

variable {fs : FileSystem} {excludes : List String} {l : Location}

theorem ignoresDot_of_plain (filled : l.text ≠ [])
    (short : byteCount l.text ≤ 4093) (plain : ∀ pattern ∈ excludes, (Pattern.parse pattern.toList).isPlain) :
    fs.IgnoresDot excludes l :=
  ⟨fs.find?_here filled short, fun file _ => isExcluded_here plain file⟩

theorem mem_gathered_of_file (file : fs.isDirectory l = false) : l ∈ (fs.gathered excludes l).all := by
  rw [gathered, if_neg (by simp [file]), SourceFiles.add?]
  cases SourceKind.ofLocation? l with
  | none => exact List.mem_singleton_self l
  | some kind => cases kind <;> exact List.mem_singleton_self l

theorem mem_all_concat {ι : Type} {xs : List ι} {part : ι → SourceFiles} {x : ι} (member : x ∈ xs) {file : Location}
    (held : file ∈ (part x).all) : file ∈ (SourceFiles.concat xs part).all := by
  rcases List.mem_append.mp held with map | document
  · exact List.mem_append_left _ (List.mem_flatMap.mpr ⟨x, member, map⟩)
  · exact List.mem_append_right _ (List.mem_flatMap.mpr ⟨x, member, document⟩)

/-- If the manifest cannot be read, both ways end with that. With it, a search of the current directory finds some
of what a list of the same sources gives, in the same order; each source that is no directory is on that list as it
is, and the search finds all of the list exactly if it would take these sources too. -/
theorem discover_here_iff (fs : FileSystem) :
    (∀ f, fs.manifestAt .here = .error f → fs.discover .here = .error f ∧
      ∀ r : RenderRequest, r.plan fs = .error f) ∧
      ∀ m, fs.manifestAt .here = .ok m → (∀ l ∈ m.searched, fs.IgnoresDot m.excludes l) →
        ∃ found, fs.discover .here = .ok found ∧ found.Within ((fs.gather m.excludes m.searched).seenFrom .here) ∧
          (∀ l ∈ m.searched, fs.isDirectory l = false → l ∈ (fs.gather m.excludes m.searched).all) ∧
          (found = (fs.gather m.excludes m.searched).seenFrom .here ↔
            ∀ l ∈ m.searched, fs.isDirectory l = false → fs.IsSought m.excludes l) := by
  refine ⟨fun f unread => ⟨?_, fun r => ?_⟩, fun m loaded blind => ?_⟩
  · rw [discover, unread]
    rfl
  · rw [RenderRequest.plan, show fs.manifestAt (.ofString ".") = .error f from unread]
    rfl
  · have found : fs.discover .here = .ok ((fs.scanAll m.excludes m.searched).seenFrom .here) := by
      rw [discover, loaded, ← scanAll_here blind]
      rfl
    have within : ∀ l ∈ m.searched, (fs.scan m.excludes l).Within (fs.gathered m.excludes l) :=
      fun l _ => (fs.scan_within_gathered m.excludes l).1
    have all : (fs.scanAll m.excludes m.searched).Within (fs.gather m.excludes m.searched) := by
      rw [scanAll_eq, gather_eq]
      exact SourceFiles.within_concat within
    refine ⟨_, found, all.seenFrom .here, fun l member file => ?_, ?_⟩
    · rw [gather_eq]
      exact mem_all_concat member (mem_gathered_of_file file)
    · rw [all.seenFrom_eq_iff, scanAll_eq, gather_eq, SourceFiles.concat_eq_concat_iff within]
      simp only [(fs.scan_within_gathered m.excludes _).2]

/-- A directory and a document, with a pattern for drafts. -/
theorem discover_here_iff_maps :
    let fs : FileSystem := ⟨[(["hexmap.yaml".toList],
        .file "sources:\n  - maps/\n  - notes.md\nexcludes:\n  - drafts/*\n".toUTF8),
      (["maps".toList], .directory), (["maps".toList, "drafts".toList], .directory),
      (["maps".toList, "drafts".toList, "bay.map".toList], .file "".toUTF8),
      (["maps".toList, "valley.map".toList], .file "".toUTF8), (["notes.md".toList], .file "".toUTF8)], []⟩
    let m : Manifest := { Manifest.standard with sources := ["maps/", "notes.md"], excludes := ["drafts/*"] }
    fs.manifestAt .here = .ok m ∧ (∀ l ∈ m.searched, fs.IgnoresDot m.excludes l) ∧
      fs.discover .here = .ok ((fs.gather m.excludes m.searched).seenFrom .here) := by
  intro fs m
  have loaded : fs.manifestAt .here = .ok m := by decide +kernel
  have plain : ∀ pattern ∈ m.excludes, (Pattern.parse pattern.toList).isPlain := by decide +kernel
  have blind : ∀ l ∈ m.searched, fs.IgnoresDot m.excludes l := by
    intro l member
    have sound : ∀ l ∈ m.searched, l.text ≠ [] ∧ byteCount l.text ≤ 4093 := by decide +kernel
    exact ignoresDot_of_plain (sound l member).1 (sound l member).2 plain
  have sought : ∀ l ∈ m.searched, fs.isDirectory l = false →
      fs.isThere l = true ∧ (SourceKind.ofLocation? l).isSome = true ∧ isExcluded m.excludes l = false := by
    decide +kernel
  obtain ⟨found, discovered, _, _, same⟩ := (discover_here_iff fs).2 m loaded blind
  refine ⟨loaded, blind, discovered.trans ?_⟩
  rw [same.mpr fun l member file =>
    ⟨(sought l member file).1, (sought l member file).2.1, (sought l member file).2.2⟩]

/-- The two ways part at a source whose name tells nothing: a search passes it over. They part also where all
sources are directories, at a pattern with a dot in front: only a search from the current directory sees files with
that dot. -/
theorem not_forall_discover_here_eq :
    (¬∀ (fs : FileSystem) (m : Manifest) (found : SourceFiles),
      fs.manifestAt .here = .ok m → fs.discover .here = .ok found →
        found = (fs.gather m.excludes m.searched).seenFrom .here) ∧
    ¬∀ (fs : FileSystem) (m : Manifest) (found : SourceFiles),
      fs.manifestAt .here = .ok m → fs.discover .here = .ok found → (∀ l ∈ m.searched, fs.isDirectory l = true) →
        found = (fs.gather m.excludes m.searched).seenFrom .here := by
  constructor
  · intro same
    let fs : FileSystem := ⟨[(["hexmap.yaml".toList], .file "sources:\n  - valley.hex\n".toUTF8),
      (["valley.hex".toList], .file "0101 x\n".toUTF8)], []⟩
    let m : Manifest := { Manifest.standard with sources := ["valley.hex"] }
    have loaded : fs.manifestAt .here = .ok m := by decide +kernel
    have missed : fs.discover .here = .ok .empty := by decide +kernel
    have taken : fs.gather m.excludes m.searched = ⟨[.ofString "valley.hex"], []⟩ := by decide +kernel
    have claimed := same fs m .empty loaded missed
    rw [taken] at claimed
    exact absurd claimed (by decide +kernel)
  · intro same
    let fs : FileSystem :=
      ⟨[(["hexmap.yaml".toList], .file "sources:\n  - maps/\nexcludes:\n  - ./maps/*\n".toUTF8),
      (["maps".toList], .directory), (["maps".toList, "valley.map".toList], .file "0101 x\n".toUTF8)], []⟩
    let m : Manifest := { Manifest.standard with sources := ["maps/"], excludes := ["./maps/*"] }
    have loaded : fs.manifestAt .here = .ok m := by decide +kernel
    have missed : fs.discover .here = .ok .empty := by decide +kernel
    have taken : fs.gather m.excludes m.searched = ⟨[.ofString "maps/valley.map"], []⟩ := by decide +kernel
    have claimed := same fs m .empty loaded missed (by decide +kernel)
    rw [taken] at claimed
    exact absurd claimed (by decide +kernel)

end FileSystem

end HexAtlas
