import HexAtlas.Command.Init
import HexAtlas.Command.Render
import HexAtlas.Proofs.Project.Changes

namespace HexAtlas

/-- A failure to make a directory or to write a file. -/
def Failure.isOfWriting : Failure → Bool
  | directoryUnmade .. | drawingUnwritten .. | manifestUnwritten .. => true
  | _ => false

namespace Drawing

variable {directory : Location} {fs : FileSystem} {ds : List Drawing}

theorem keeps_writeAll : fs.Keeps (writeAll directory fs ds).1 := by
  induction ds generalizing fs with
  | nil => exact .refl fs
  | cons d rest ih =>
    unfold writeAll
    split
    · exact .refl fs
    · rename_i mid written
      exact (FileSystem.keeps_write written).trans ih

/-- Writing drawings changes the places of their files only, also if some drawing cannot be written. -/
theorem exists_place_of_writeAll {p : Place} (changed : (writeAll directory fs ds).1.get? p ≠ fs.get? p) :
    ∃ d ∈ ds, (writeAll directory fs ds).1.place (d.file directory) = .ok p := by
  induction ds generalizing fs with
  | nil => exact absurd rfl changed
  | cons d rest ih =>
    unfold writeAll at changed ⊢
    split at changed
    · exact absurd rfl changed
    · rename_i mid written
      simp only at changed ⊢
      by_cases early : mid.get? p = fs.get? p
      · rw [← early] at changed
        obtain ⟨e, member, named⟩ := ih changed
        exact ⟨e, List.mem_cons_of_mem d member, named⟩
      · exact ⟨d, List.mem_cons_self, keeps_writeAll.place (FileSystem.place_of_write written early)⟩

end Drawing

namespace RenderPlan

variable {plan : RenderPlan} {fs : FileSystem} {ds : List Drawing} {p : Palette}

/-- The directories that a plan needs are made first, and drawings are written only after that. -/
theorem exists_makes_write (plan : RenderPlan) (fs : FileSystem) (ds : List Drawing) (p : Palette) :
    ∃ start, fs.Makes start (FileSystem.upwards (plan.output.steps.length + 1) plan.output) ∧
    ((plan.write fs ds p).files = start ∨
      (plan.write fs ds p).files = (Drawing.writeAll plan.output start ds).1) := by
  have prepares : fs.Makes (if fs.isThere plan.output then (fs, Except.ok ()) else fs.makeDirectories plan.output).1
      (FileSystem.upwards (plan.output.steps.length + 1) plan.output) := by
    split
    · exact .refl fs _
    · exact FileSystem.makes_makeDirectories fs plan.output
  refine ⟨_, prepares, ?_⟩
  unfold write
  generalize (if fs.isThere plan.output then (fs, Except.ok ()) else fs.makeDirectories plan.output) = prepared
  obtain ⟨start, made⟩ := prepared
  cases made with
  | error cause => exact Or.inl rfl
  | ok =>
    right
    simp only
    split <;> rfl

theorem keeps_write : fs.Keeps (plan.write fs ds p).files := by
  obtain ⟨start, makes, same | same⟩ := exists_makes_write plan fs ds p
  · rw [same]
    exact makes.keeps
  · rw [same]
    exact makes.keeps.trans Drawing.keeps_writeAll

/-- A place that is different after a plan is carried out is the file of a drawing or a directory made for it. -/
theorem drawn_or_made_of_write {place : Place} (changed : (plan.write fs ds p).files.get? place ≠ fs.get? place) :
    (∃ d ∈ ds, (plan.write fs ds p).files.place (d.file plan.output) = .ok place) ∨
      fs.Made (plan.write fs ds p).files (FileSystem.upwards (plan.output.steps.length + 1) plan.output) place := by
  obtain ⟨start, makes, same | same⟩ := exists_makes_write plan fs ds p
  · rw [same] at changed ⊢
    exact Or.inr (makes.made place changed)
  · rw [same] at changed ⊢
    by_cases early : start.get? place = fs.get? place
    · rw [← early] at changed
      exact Or.inl (Drawing.exists_place_of_writeAll changed)
    · obtain ⟨free, there, l, member, leads⟩ := makes.made place early
      have keeps : start.Keeps (Drawing.writeAll plan.output start ds).1 := Drawing.keeps_writeAll
      exact Or.inr ⟨free, keeps.directory place there, l, member, keeps.leads leads⟩

theorem isOfWriting_of_write {f : Failure} (failed : (plan.write fs ds p).failure? = some f) :
    f.isOfWriting = true := by
  have drawing : ∀ {start : FileSystem} {ds : List Drawing} {f : Failure},
      (Drawing.writeAll plan.output start ds).2.2 = some f → f.isOfWriting = true := by
    intro start ds f failed
    induction ds generalizing start with
    | nil => cases failed
    | cons d rest ih =>
      unfold Drawing.writeAll at failed
      split at failed
      · cases failed
        rfl
      · exact ih failed
  unfold write at failed
  generalize (if fs.isThere plan.output then (fs, Except.ok ()) else fs.makeDirectories plan.output) =
    prepared at failed
  obtain ⟨start, made⟩ := prepared
  cases made with
  | error cause =>
    cases failed
    rfl
  | ok =>
    simp only at failed
    split at failed
    · rename_i unwritten
      cases failed
      exact drawing unwritten
    · cases failed

end RenderPlan

namespace RenderRequest

/-- What drawing maps leaves alone, whatever becomes of it. -/
structure Spares (r : RenderRequest) (p : Palette) (fs : FileSystem) : Prop where
  unplanned : ∀ f, r.plan fs = .error f → (r.run p fs).files = fs ∧ (r.run p fs).failure? = some f
  unwritten : ∀ f, (r.run p fs).failure? = some f → f.isOfWriting = false → (r.run p fs).files = fs
  printed : r.stdout = true → (r.run p fs).files = fs
  current : (r.run p fs).files.current = fs.current
  changed : ∀ place, (r.run p fs).files.get? place ≠ fs.get? place → ∃ plan, r.plan fs = .ok plan ∧
    ((∃ s ∈ plan.maps, (r.run p fs).files.place (plan.output.join (.ofString (s.name ++ ".svg"))) = .ok place) ∨
      fs.get? place = none ∧ (r.run p fs).files.get? place = some .directory ∧
        ∃ l : Location, l.Above plan.output ∧ (r.run p fs).files.Leads l place)

/-- A request that gets past its plan either writes nothing or carries the plan out. -/
theorem run_cases {r : RenderRequest} {fs : FileSystem} {plan : RenderPlan} (planned : r.plan fs = .ok plan)
    (p : Palette) : ((r.run p fs).files = fs ∧ (r.run p fs).failure? = none) ∨
      r.stdout = false ∧ r.run p fs = plan.write fs (plan.maps.map (Drawing.ofSource plan r.id)) p := by
  unfold run
  simp only [planned]
  split
  · exact Or.inl ⟨rfl, rfl⟩
  · split
    · exact Or.inl ⟨rfl, rfl⟩
    · rename_i toFiles
      exact Or.inr ⟨Bool.eq_false_iff.mpr toFiles, rfl⟩

theorem run_of_unplanned {r : RenderRequest} {fs : FileSystem} {f : Failure} (planned : r.plan fs = .error f)
    (p : Palette) : r.run p fs = .failed fs f := by
  unfold run
  rw [planned]

theorem spares (r : RenderRequest) (p : Palette) (fs : FileSystem) : r.Spares p fs := by
  cases planned : r.plan fs with
  | error f =>
    have run := run_of_unplanned planned p
    constructor
    · intro g failed
      cases planned.symm.trans failed
      rw [run]
      exact ⟨rfl, rfl⟩
    · intros
      rw [run]
      rfl
    · intros
      rw [run]
      rfl
    · rw [run]
      rfl
    · intro place changed
      rw [run] at changed
      exact absurd rfl changed
  | ok plan =>
    have unplanned : ∀ f, r.plan fs = .error f → (r.run p fs).files = fs ∧ (r.run p fs).failure? = some f := by
      intro f failed
      cases planned.symm.trans failed
    rcases run_cases planned p with ⟨same, done⟩ | ⟨toFiles, carried⟩
    · refine ⟨unplanned, fun _ _ _ => same, fun _ => same, by rw [same], fun place changed => ?_⟩
      rw [same] at changed
      exact absurd rfl changed
    · refine ⟨unplanned, fun f failed other => ?_, fun printed => ?_, ?_, fun place changed => ⟨plan, planned, ?_⟩⟩
      · rw [carried] at failed
        rw [RenderPlan.isOfWriting_of_write failed] at other
        cases other
      · rw [toFiles] at printed
        cases printed
      · rw [carried]
        exact RenderPlan.keeps_write.current
      · rw [carried] at changed ⊢
        rcases RenderPlan.drawn_or_made_of_write changed with ⟨d, member, named⟩ | ⟨free, there, l, member, leads⟩
        · obtain ⟨s, listed, rfl⟩ := List.mem_map.mp member
          exact Or.inl ⟨s, listed, named⟩
        · exact Or.inr ⟨free, there, l, FileSystem.above_of_mem_upwards member, leads⟩

end RenderRequest

namespace InitRequest

def manifestFile (r : InitRequest) : Location := r.root.join (.ofString Manifest.fileName)

/-- What starting a project leaves alone. -/
structure Spares (r : InitRequest) (p : Palette) (fs : FileSystem) : Prop where
  there : fs.isThere r.manifestFile = true → r.force = false →
    (r.run p fs).files = fs ∧ (r.run p fs).failure? = some .manifestThere
  undiscovered : ∀ f, fs.discover r.root = .error f → (r.run p fs).files = fs ∧ (r.run p fs).failure? ≠ none
  failed : (r.run p fs).failure? ≠ none → (r.run p fs).files = fs
  current : (r.run p fs).files.current = fs.current
  changed : ∀ place, (r.run p fs).files.get? place ≠ fs.get? place → (r.run p fs).failure? = none ∧
    (r.run p fs).files.place r.manifestFile = .ok place

theorem run_there {r : InitRequest} {fs : FileSystem} (there : fs.isThere r.manifestFile = true)
    (kept : r.force = false) (p : Palette) : r.run p fs = .failed fs .manifestThere := by
  have refused : (fs.isThere r.manifestFile && !r.force) = true := by rw [there, kept]; rfl
  exact if_pos refused

/-- The command fails and writes nothing, or it writes the manifest. -/
theorem run_cases (r : InitRequest) (p : Palette) (fs : FileSystem) :
    ((r.run p fs).files = fs ∧ (r.run p fs).failure? ≠ none) ∨
      (r.run p fs).failure? = none ∧ ∃ files, fs.discover r.root = .ok files ∧
        ∃ text, fs.write r.manifestFile text = .ok (r.run p fs).files := by
  unfold run
  simp only
  split
  · exact Or.inl ⟨rfl, nofun⟩
  · split
    · exact Or.inl ⟨rfl, nofun⟩
    · rename_i files found
      split
      · exact Or.inl ⟨rfl, nofun⟩
      · rename_i after written
        exact Or.inr ⟨rfl, files, found, _, written⟩

theorem spares (r : InitRequest) (p : Palette) (fs : FileSystem) : r.Spares p fs := by
  have there : fs.isThere r.manifestFile = true → r.force = false →
      (r.run p fs).files = fs ∧ (r.run p fs).failure? = some .manifestThere := by
    intro there kept
    rw [run_there there kept]
    exact ⟨rfl, rfl⟩
  rcases r.run_cases p fs with ⟨same, failed⟩ | ⟨done, files, found, text, written⟩
  · refine ⟨there, fun _ _ => ⟨same, failed⟩, fun _ => same, by rw [same], fun place changed => ?_⟩
    rw [same] at changed
    exact absurd rfl changed
  · refine ⟨there, fun f missing => ?_, fun failed => absurd done failed, (FileSystem.keeps_write written).current,
      fun place changed => ⟨done, FileSystem.place_of_write written changed⟩⟩
    cases found.symm.trans missing

end InitRequest

/-- Commands that fail at reading and checking leave all files as they were, and so does drawing to the standard
output. Drawing to files changes nothing but the files of the drawings and missing directories on the way to them;
starting a project changes the manifest only, and nothing if it fails. -/
theorem spares_run (p : Palette) (fs : FileSystem) :
    (∀ r : RenderRequest, r.Spares p fs) ∧ ∀ r : InitRequest, r.Spares p fs :=
  ⟨fun r => r.spares p fs, fun r => r.spares p fs⟩

end HexAtlas
