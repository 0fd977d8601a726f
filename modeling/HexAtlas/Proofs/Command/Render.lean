import HexAtlas.Command.Render
import HexAtlas.Proofs.Project.FileSystem
import HexAtlas.Proofs.Text.Numeral

namespace HexAtlas

theorem MapSource.unslashed_of_mem_ofText {l : Location} {text : List Char} {s : MapSource}
    (h : s ∈ ofText l text) :
    '/' ∉ s.name.toList := by
  have stem : '/' ∉ Location.stem (l.fileName?.getD "map".toList) := by
    intro member
    have inside := (List.takeWhile_prefix _).mem member
    cases named : l.fileName? with
    | none =>
      rw [named] at inside
      exact absurd inside (by decide)
    | some name =>
      rw [named] at inside
      exact Location.unslashed_of_fileName? named inside
  have numbered : ∀ i, '/' ∉ Location.stem (l.fileName?.getD "map".toList) ++ '-' :: digits i := by
    intro i member
    rcases List.mem_append.mp member with before | tail
    · exact stem before
    · rcases List.mem_cons.mp tail with dash | digit
      · exact absurd dash (by decide)
      · exact absurd (isDigit_of_mem_digits digit) (by decide)
  unfold ofText at h
  split at h
  · rw [List.mem_singleton.mp h, String.toList_ofList]
    exact stem
  · split at h
    · rw [List.mem_singleton.mp h, String.toList_ofList]
      exact stem
    · obtain ⟨i, _, rfl⟩ := List.mem_mapIdx.mp h
      rw [String.toList_ofList]
      exact numbered (i + 1)

/-- The name of a map is a part of a file name. -/
theorem RenderRequest.unslashed_of_mem_maps {r : RenderRequest} {fs : FileSystem} {plan : RenderPlan}
    (planned : r.plan fs = .ok plan) {s : MapSource} (member : s ∈ plan.maps) : '/' ∉ s.name.toList := by
  obtain ⟨m, _, planned⟩ := bind_eq_ok.mp planned
  obtain ⟨_, planned⟩ := guard_eq_ok.mp planned
  obtain ⟨_, planned⟩ := guard_eq_ok.mp planned
  obtain ⟨maps, loaded, planned⟩ := bind_eq_ok.mp planned
  cases planned
  obtain ⟨each, read, rfl⟩ := map_eq_ok.mp loaded
  obtain ⟨texts, held, member⟩ := List.mem_flatten.mp member
  obtain ⟨file, _, opened⟩ := exists_of_mem_mapM read held
  unfold FileSystem.mapsIn at opened
  split at opened
  · cases opened
    exact MapSource.unslashed_of_mem_ofText member
  · cases opened

namespace Drawing

def fileName (d : Drawing) : List Char := d.name.toList ++ ".svg".toList

theorem file_eq (d : Drawing) (directory : Location) : d.file directory = directory.join ⟨d.fileName⟩ := by
  rw [file, Location.ofString, String.toList_append]
  rfl

theorem fileName_inj {d e : Drawing} : d.fileName = e.fileName ↔ d.name = e.name := by
  rw [fileName, fileName, List.append_cancel_right_eq, String.toList_inj]

/-- The name of the drawing is part of a file name. -/
def IsPlain (d : Drawing) : Prop := '/' ∉ d.name.toList

theorem IsPlain.isName {d : Drawing} (h : d.IsPlain) : Location.IsName d.fileName where
  filled := by simp [fileName]
  not_here := fun same => absurd (congrArg List.length same) (by simp [fileName])
  not_above := fun same => absurd (congrArg List.length same) (by simp [fileName])
  unslashed := by
    intro member
    rcases List.mem_append.mp member with inside | ending
    · exact h inside
    · exact absurd ending (by decide)

/-- The file of the drawing holds a text. -/
def Holds (directory : Location) (fs : FileSystem) (d : Drawing) (svg : String) : Prop :=
  ∃ p, fs.place (d.file directory) = .ok p ∧ fs.get? p = some (.file svg.toUTF8)

variable {directory : Location} {fs after : FileSystem} {d e : Drawing} {ds : List Drawing}

theorem Holds.read {svg : String} (h : Holds directory fs d svg) : fs.read (d.file directory) = .ok svg.toList :=
  have ⟨_, named, there⟩ := h
  FileSystem.read_of_get? named there

/-- Drawings have one place exactly if they have one name. -/
theorem place_file_eq_iff (plain : d.IsPlain) (plain' : e.IsPlain) {p q : Place}
    (named : fs.place (d.file directory) = .ok p) (named' : fs.place (e.file directory) = .ok q) :
    p = q ↔ d.name = e.name := by
  rw [file_eq] at named named'
  obtain ⟨base, followed, _, rfl⟩ := FileSystem.exists_base_of_place_join plain.isName named
  obtain ⟨base', followed', _, rfl⟩ := FileSystem.exists_base_of_place_join plain'.isName named'
  cases followed.symm.trans followed'
  rw [List.append_cancel_left_eq, List.singleton_inj, fileName_inj]

theorem holds_write (written : fs.write (d.file directory) d.svg = .ok after) : Holds directory after d d.svg := by
  have keeps := FileSystem.keeps_write written
  obtain ⟨p, named, other, rfl⟩ := FileSystem.write_eq_ok written
  refine ⟨p, keeps.place named, ?_⟩
  rw [FileSystem.get?_put fs (FileSystem.ne_nil_of_get?_ne_directory other), if_pos rfl]

/-- Writing a drawing leaves the files of other names alone. -/
theorem Holds.write {svg : String} (h : Holds directory fs d svg)
    (written : fs.write (e.file directory) e.svg = .ok after) (plain : d.IsPlain) (plain' : e.IsPlain)
    (other : d.name ≠ e.name) : Holds directory after d svg := by
  have keeps := FileSystem.keeps_write written
  obtain ⟨p, named, there⟩ := h
  obtain ⟨q, named', free, rfl⟩ := FileSystem.write_eq_ok written
  have apart : p ≠ q := fun same => other ((place_file_eq_iff plain plain' named named').mp same)
  refine ⟨p, keeps.place named, ?_⟩
  rw [FileSystem.get?_put fs (FileSystem.ne_nil_of_get?_ne_directory free), if_neg apart]
  exact there

theorem Holds.rename {svg : String} (h : Holds directory fs d svg) (same : d.name = e.name) :
    Holds directory fs e svg := by
  unfold Holds file at h ⊢
  rw [← same]
  exact h

theorem writeAll_cons_eq_none {n : Nat} (h : writeAll directory fs (e :: ds) = (after, n, none)) :
    ∃ mid begun, fs.write (e.file directory) e.svg = .ok mid ∧
      writeAll directory mid ds = (after, begun, none) := by
  unfold writeAll at h
  split at h
  · cases h
  · rename_i mid written
    simp only [Prod.mk.injEq] at h
    obtain ⟨files, _, failure⟩ := h
    exact ⟨mid, _, written, Prod.ext files (Prod.ext rfl failure)⟩

theorem Holds.writeAll {svg : String} (h : Holds directory fs d svg) {n : Nat}
    (written : writeAll directory fs ds = (after, n, none)) (plain : d.IsPlain) (plains : ∀ e ∈ ds, e.IsPlain)
    (others : ∀ e ∈ ds, d.name ≠ e.name) : Holds directory after d svg := by
  induction ds generalizing fs n with
  | nil =>
    cases written
    exact h
  | cons e rest ih =>
    obtain ⟨mid, begun, first, later⟩ := writeAll_cons_eq_none written
    have kept := h.write first plain (plains e List.mem_cons_self) (others e List.mem_cons_self)
    exact ih kept later (fun e member => plains e (List.mem_cons_of_mem _ member))
      fun e member => others e (List.mem_cons_of_mem _ member)

/-- The last of the drawings with a name. -/
def lastNamed? (name : String) (ds : List Drawing) : Option Drawing := ds.reverse.find? fun d => d.name = name

theorem lastNamed?_cons (name : String) (d : Drawing) (ds : List Drawing) :
    lastNamed? name (d :: ds) = (lastNamed? name ds).or (if d.name = name then some d else none) := by
  rw [lastNamed?, List.reverse_cons, List.find?_append, List.find?_singleton]
  simp only [decide_eq_true_eq]
  rfl

theorem lastNamed?_eq_none {name : String} : lastNamed? name ds = none ↔ ∀ d ∈ ds, name ≠ d.name := by
  simp only [lastNamed?, List.find?_eq_none, List.mem_reverse, decide_eq_true_eq, ne_comm, ne_eq]

theorem exists_lastNamed? (member : d ∈ ds) :
    ∃ last ∈ ds, last.name = d.name ∧ lastNamed? d.name ds = some last := by
  cases found : lastNamed? d.name ds with
  | none => exact absurd rfl (lastNamed?_eq_none.mp found d member)
  | some last =>
    have listed := List.mem_reverse.mp (List.mem_of_find?_eq_some found)
    exact ⟨last, listed, by simpa using List.find?_some found, rfl⟩

/-- After the whole run each file holds the last drawing of its name. -/
theorem holds_of_lastNamed? {n : Nat} {last : Drawing}
    (written : Drawing.writeAll directory fs ds = (after, n, none))
    (plains : ∀ e ∈ ds, e.IsPlain) (found : lastNamed? d.name ds = some last) :
    Holds directory after d last.svg := by
  induction ds generalizing fs n with
  | nil => cases found
  | cons e rest ih =>
    obtain ⟨mid, begun, first, later⟩ := writeAll_cons_eq_none written
    have tail : ∀ e ∈ rest, e.IsPlain := fun e member => plains e (List.mem_cons_of_mem _ member)
    rw [lastNamed?_cons] at found
    cases inTail : lastNamed? d.name rest with
    | some other =>
      rw [inTail] at found
      cases found
      exact ih later tail inTail
    | none =>
      rw [inTail, Option.none_or] at found
      split at found
      · rename_i named
        cases found
        have others := lastNamed?_eq_none.mp inTail
        rw [← named] at others
        have own := (holds_write first).writeAll later (plains _ List.mem_cons_self) tail others
        exact own.rename named
      · cases found

end Drawing

/-- A plan is carried out without failure only if all its drawings are written. -/
theorem RenderPlan.exists_writeAll {plan : RenderPlan} {fs : FileSystem} {ds : List Drawing} {p : Palette}
    (done : (plan.write fs ds p).failure? = none) :
    ∃ start begun, Drawing.writeAll plan.output start ds = ((plan.write fs ds p).files, begun, none) := by
  unfold RenderPlan.write at done ⊢
  generalize (if fs.isThere plan.output then (fs, Except.ok ()) else fs.makeDirectories plan.output) = prepared at *
  obtain ⟨start, made⟩ := prepared
  cases made with
  | error cause => cases done
  | ok =>
    simp only at done ⊢
    refine ⟨start, (Drawing.writeAll plan.output start ds).2.1, ?_⟩
    generalize Drawing.writeAll plan.output start ds = result at *
    obtain ⟨files, begun, failure?⟩ := result
    cases failure? with
    | some f => cases done
    | none => rfl

theorem RenderRequest.isPlain_of_mem {r : RenderRequest} {fs : FileSystem} {plan : RenderPlan}
    (planned : r.plan fs = .ok plan) : ∀ d ∈ plan.maps.map (Drawing.ofSource plan r.id), d.IsPlain := by
  intro d member
  obtain ⟨s, listed, rfl⟩ := List.mem_map.mp member
  exact unslashed_of_mem_maps planned listed

/-- A run that fails nowhere and has drawings for files writes them all. -/
theorem RenderRequest.exists_writeAll {r : RenderRequest} {fs : FileSystem} {plan : RenderPlan}
    (planned : r.plan fs = .ok plan) (toFiles : r.stdout = false) (p : Palette)
    (done : (r.run p fs).failure? = none) (drawn : plan.maps.map (Drawing.ofSource plan r.id) ≠ []) :
    ∃ start begun, Drawing.writeAll plan.output start (plan.maps.map (Drawing.ofSource plan r.id)) =
      ((r.run p fs).files, begun, none) := by
  unfold run at done ⊢
  simp only [planned, if_neg drawn, toFiles, Bool.false_eq_true, if_false] at done ⊢
  exact RenderPlan.exists_writeAll done

/-- A run without failure leaves in each file the last drawing of its name, and nothing but the name decides which
drawings have one file. So all drawings stay exactly if those of one name are alike. -/
theorem RenderRequest.forall_read_run_iff {r : RenderRequest} {fs : FileSystem} {plan : RenderPlan}
    (planned : r.plan fs = .ok plan) (toFiles : r.stdout = false) (p : Palette)
    (done : (r.run p fs).failure? = none) :
    let ds := plan.maps.map (Drawing.ofSource plan r.id)
    let after := (r.run p fs).files
    (∀ d ∈ ds, ∃ last ∈ ds, ds.reverse.find? (fun e => e.name = d.name) = some last ∧
      after.read (d.file plan.output) = .ok last.svg.toList) ∧
    (∀ d ∈ ds, ∀ e ∈ ds, after.place (d.file plan.output) = after.place (e.file plan.output) ↔ d.name = e.name) ∧
    ((∀ d ∈ ds, after.read (d.file plan.output) = .ok d.svg.toList) ↔
      ∀ d ∈ ds, ∀ e ∈ ds, d.name = e.name → d.svg = e.svg) := by
  intro ds after
  have plains : ∀ d ∈ ds, d.IsPlain := isPlain_of_mem planned
  have held : ∀ d ∈ ds, ∃ last ∈ ds, last.name = d.name ∧ Drawing.lastNamed? d.name ds = some last ∧
      Drawing.Holds plan.output after d last.svg := by
    intro d member
    obtain ⟨start, begun, written⟩ := exists_writeAll planned toFiles p done (List.ne_nil_of_mem member)
    obtain ⟨last, listed, named, found⟩ := Drawing.exists_lastNamed? member
    exact ⟨last, listed, named, found, Drawing.holds_of_lastNamed? written plains found⟩
  refine ⟨?_, ?_, ?_, ?_⟩
  · intro d member
    obtain ⟨last, listed, _, found, holds⟩ := held d member
    exact ⟨last, listed, found, holds.read⟩
  · intro d member e member'
    obtain ⟨_, _, _, _, place, there, _⟩ := held d member
    obtain ⟨_, _, _, _, place', there', _⟩ := held e member'
    rw [there, there', Except.ok.injEq]
    exact Drawing.place_file_eq_iff (plains d member) (plains e member') there there'
  · intro kept d member e member' same
    have own : d.svg.toList = e.svg.toList := by
      have other := kept e member'
      rw [show e.file plan.output = d.file plan.output by rw [Drawing.file, Drawing.file, same]] at other
      exact Except.ok.inj ((kept d member).symm.trans other)
    exact String.toList_inj.mp own
  · intro alike d member
    obtain ⟨last, listed, named, _, holds⟩ := held d member
    rw [holds.read, alike last listed d member named]

/-- Two maps with names of their own. -/
theorem RenderRequest.forall_read_run_iff_eastWest :
    let r : RenderRequest :=
      ⟨[.ofString "east.map", .ofString "west.map"], none, some "plain", none, none, none, false⟩
    let fs : FileSystem :=
      ⟨[(["east.map".toList], .file "0101 x\n".toUTF8), (["west.map".toList], .file "".toUTF8)], []⟩
    let plan : RenderPlan := ⟨.ofString "dist", .plain, .standard, [⟨"east", "0101 x\n".toList⟩, ⟨"west", []⟩]⟩
    r.plan fs = .ok plan ∧ r.stdout = false ∧ (r.run .plain fs).failure? = none ∧
      ∀ d ∈ plan.maps.map (Drawing.ofSource plan r.id),
        (r.run .plain fs).files.read (d.file plan.output) = .ok d.svg.toList := by
  intro r fs plan
  have planned : r.plan fs = .ok plan := by decide +kernel
  have toFiles : r.stdout = false := rfl
  have done : (r.run .plain fs).failure? = none := by decide +kernel
  refine ⟨planned, toFiles, done, (forall_read_run_iff planned toFiles .plain done).2.2.mpr ?_⟩
  have apart : "east" ≠ "west" := by decide
  intro d member e member' same
  simp only [plan, List.map_cons, List.map_nil, List.mem_cons, List.not_mem_nil, or_false] at member member'
  rcases member with rfl | rfl <;> rcases member' with rfl | rfl
  · rfl
  · exact absurd same apart
  · exact absurd same apart.symm
  · rfl

/-- Of two maps with one name the drawing of the first is lost. -/
theorem RenderRequest.exists_read_run_ne :
    let r : RenderRequest := ⟨[.ofString "a", .ofString "b"], none, some "plain", none, none, none, false⟩
    let fs : FileSystem := ⟨[([['a']], .directory), ([['a'], "valley.map".toList], .file "0101 x\n".toUTF8),
      ([['b']], .directory), ([['b'], "valley.map".toList], .file "".toUTF8)], []⟩
    let plan : RenderPlan := ⟨.ofString "dist", .plain, .standard, [⟨"valley", "0101 x\n".toList⟩, ⟨"valley", []⟩]⟩
    r.plan fs = .ok plan ∧ r.stdout = false ∧ (r.run .plain fs).failure? = none ∧
      ∃ d ∈ plan.maps.map (Drawing.ofSource plan r.id), ∃ e ∈ plan.maps.map (Drawing.ofSource plan r.id),
        d.svg ≠ e.svg ∧ d.file plan.output = e.file plan.output ∧
          (r.run .plain fs).files.read (d.file plan.output) = .ok e.svg.toList := by
  intro r fs plan
  have planned : r.plan fs = .ok plan := by decide +kernel
  have toFiles : r.stdout = false := rfl
  have done : (r.run .plain fs).failure? = none := by decide +kernel
  obtain ⟨start, begun, written⟩ := exists_writeAll planned toFiles .plain done (List.cons_ne_nil _ _)
  refine ⟨planned, toFiles, done, _, List.mem_cons_self, _, List.mem_cons_of_mem _ List.mem_cons_self, ?_, rfl, ?_⟩
  · intro same
    have texts := String.ofList_inj.mp same
    exact absurd texts (by decide +kernel)
  · exact (Drawing.holds_of_lastNamed? written (isPlain_of_mem planned) rfl).read

end HexAtlas
