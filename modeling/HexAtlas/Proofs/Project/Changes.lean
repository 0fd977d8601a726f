import HexAtlas.Proofs.Project.FileSystem
import Mathlib.Logic.Relation

namespace HexAtlas

/-- One location is above another if it is reached by going up from parent to parent. -/
def Location.Above (l m : Location) : Prop := Relation.ReflTransGen (fun a b => a.parent? = some b) m l

namespace FileSystem

/-- The pieces of a location lead to a place. -/
def Leads (fs : FileSystem) (l : Location) (p : Place) : Prop :=
  fs.follow (fs.start l) (splitAll '/' l.text) = .ok p

theorem leads_of_place {fs : FileSystem} {l : Location} {p : Place} (named : fs.place l = .ok p) : fs.Leads l p :=
  (place_eq_ok.mp named).2.2.2

theorem Keeps.refl (fs : FileSystem) : fs.Keeps fs := ⟨rfl, fun _ there => there⟩

theorem Keeps.trans {fs mid after : FileSystem} (h : fs.Keeps mid) (h' : mid.Keeps after) : fs.Keeps after :=
  ⟨h'.current.trans h.current, fun p there => h'.directory p (h.directory p there)⟩

theorem Keeps.leads {fs after : FileSystem} (h : fs.Keeps after) {l : Location} {p : Place} (leads : fs.Leads l p) :
    after.Leads l p := by
  unfold Leads start at leads ⊢
  rw [h.current]
  exact h.follow leads

theorem eq_of_get?_put_ne {fs : FileSystem} {p q : Place} {e : Entry} (inside : p ≠ [])
    (changed : (fs.put p e).get? q ≠ fs.get? q) : q = p := by
  by_contra other
  rw [get?_put fs inside, if_neg other] at changed
  exact changed rfl

/-- A directory that was not there, on the way to one of some locations. -/
def Made (fs after : FileSystem) (ls : List Location) (p : Place) : Prop :=
  fs.get? p = none ∧ after.get? p = some .directory ∧ ∃ l ∈ ls, after.Leads l p

/-- Nothing is different but for directories on the way to some locations. -/
structure Makes (fs after : FileSystem) (ls : List Location) : Prop where
  keeps : fs.Keeps after
  made : ∀ p, after.get? p ≠ fs.get? p → fs.Made after ls p

theorem Makes.refl (fs : FileSystem) (ls : List Location) : fs.Makes fs ls :=
  ⟨.refl fs, fun _ changed => absurd rfl changed⟩

theorem Makes.mono {fs after : FileSystem} {ls ms : List Location} (h : fs.Makes after ls) (within : ls ⊆ ms) :
    fs.Makes after ms where
  keeps := h.keeps
  made := fun p changed =>
    have ⟨free, there, l, member, leads⟩ := h.made p changed
    ⟨free, there, l, within member, leads⟩

theorem Makes.trans {fs mid after : FileSystem} {ls : List Location} (h : fs.Makes mid ls)
    (h' : mid.Makes after ls) :
    fs.Makes after ls where
  keeps := h.keeps.trans h'.keeps
  made := fun p changed => by
    by_cases early : mid.get? p = fs.get? p
    · rw [← early] at changed
      obtain ⟨free, there, own⟩ := h'.made p changed
      exact ⟨early.symm.trans free, there, own⟩
    · obtain ⟨free, there, l, member, leads⟩ := h.made p early
      exact ⟨free, h'.keeps.directory p there, l, member, h'.keeps.leads leads⟩

/-- Slashes at the end lead nowhere from a directory. -/
theorem follow_slashes {fs : FileSystem} {p q : Place} {cs : List Char}
    (followed : fs.follow p (splitAll '/' cs) = .ok q) (there : fs.get? q = some .directory) (k : Nat) :
    fs.follow p (splitAll '/' (cs ++ List.replicate k '/')) = .ok q := by
  induction k with
  | zero => rwa [List.replicate_zero, List.append_nil]
  | succ k ih =>
    rw [List.replicate_succ', ← List.append_assoc, splitAll_append_cons, follow_append_eq_ok]
    exact ⟨q, ih, follow_idle there rfl []⟩

/-- A location without the slashes at its end. -/
theorem exists_slashes (cs : List Char) :
    ∃ k, cs = (cs.reverse.dropWhile (· = '/')).reverse ++ List.replicate k '/' := by
  have slashes : cs.reverse.takeWhile (· = '/') = List.replicate (cs.reverse.takeWhile (· = '/')).length '/' :=
    List.eq_replicate_of_mem fun c member => by simpa using List.all_eq_true.mp List.all_takeWhile c member
  have whole := congrArg List.reverse (List.takeWhile_append_dropWhile (p := (· = '/')) (l := cs.reverse))
  rw [List.reverse_append, List.reverse_reverse, slashes, List.reverse_replicate] at whole
  exact ⟨_, whole.symm⟩

theorem leads_of_makeDirectory {fs after : FileSystem} {l : Location} (h : fs.makeDirectory l = .ok after) :
    ∃ p, fs.get? p = none ∧ after = fs.put p .directory ∧ after.Leads l p := by
  obtain ⟨p, named, h⟩ := bind_eq_ok.mp h
  split at h
  · cases h
  · rename_i free
    cases h
    have keeps : fs.Keeps (fs.put p .directory) := keeps_put (by rw [free]; nofun) _
    have inside : p ≠ [] := ne_nil_of_get?_ne_directory (by rw [free]; nofun)
    have leads := keeps.leads (leads_of_place named)
    refine ⟨p, free, rfl, ?_⟩
    split at leads
    · exact leads
    · rename_i solid
      obtain ⟨k, whole⟩ := exists_slashes l.text
      have there : (fs.put p .directory).get? p = some .directory := by rw [get?_put fs inside, if_pos rfl]
      have begins : (fs.put p .directory).start ⟨(l.text.reverse.dropWhile (· = '/')).reverse⟩ =
          (fs.put p .directory).start l := by
        rw [start, start, Location.isAbsolute, Location.isAbsolute]
        conv_rhs => rw [whole, List.head?_append_of_ne_nil _ solid]
      unfold Leads at leads ⊢
      rw [begins] at leads
      rw [whole]
      exact follow_slashes leads there k

/-- What making a directory leaves behind. -/
theorem makes_makeDirectory {fs after : FileSystem} {l : Location} (h : fs.makeDirectory l = .ok after) :
    fs.Makes after [l] := by
  obtain ⟨p, free, rfl, leads⟩ := leads_of_makeDirectory h
  have other : fs.get? p ≠ some .directory := by rw [free]; nofun
  refine ⟨keeps_put other _, fun q changed => ?_⟩
  have same := eq_of_get?_put_ne (ne_nil_of_get?_ne_directory other) changed
  subst same
  refine ⟨free, ?_, l, List.mem_singleton_self l, leads⟩
  rw [get?_put fs (ne_nil_of_get?_ne_directory other), if_pos rfl]

/-- Making the first of some directories makes no others than them, whether or not it succeeds. -/
theorem makes_makeFirst (fs : FileSystem) (ls : List Location) : fs.Makes (fs.makeFirst ls).1 ls := by
  induction ls generalizing fs with
  | nil => exact .refl fs []
  | cons l above ih =>
    unfold makeFirst
    split
    · exact .refl fs _
    · split
      · rename_i made
        exact (makes_makeDirectory made).mono (List.cons_subset_cons l (List.nil_subset above))
      · have higher := (ih fs).mono (List.subset_cons_self l above)
        split
        · rename_i failed
          rwa [failed] at higher
        · rename_i mid ready
          rw [ready] at higher
          split
          · rename_i made
            exact higher.trans ((makes_makeDirectory made).mono (List.cons_subset_cons l (List.nil_subset above)))
          · exact higher
      · exact .refl fs _

theorem above_of_mem_upwards {count : Nat} {l m : Location} (h : l ∈ upwards count m) : l.Above m := by
  induction count generalizing m with
  | zero => cases h
  | succ count ih =>
    rcases List.mem_cons.mp h with rfl | higher
    · exact .refl
    · cases up : m.parent? with
      | none =>
        rw [up] at higher
        cases higher
      | some parent =>
        rw [up] at higher
        exact .head up (ih higher)

/-- Making a directory with all that it lies in adds missing directories above it, and nothing else is different. -/
theorem makes_makeDirectories (fs : FileSystem) (l : Location) :
    fs.Makes (fs.makeDirectories l).1 (upwards (l.steps.length + 1) l) :=
  makes_makeFirst fs _

/-- A write changes the place of its file only. -/
theorem place_of_write {fs after : FileSystem} {l : Location} {text : String} (h : fs.write l text = .ok after)
    {p : Place} (changed : after.get? p ≠ fs.get? p) : after.place l = .ok p := by
  have keeps := keeps_write h
  obtain ⟨q, named, other, rfl⟩ := write_eq_ok h
  rw [eq_of_get?_put_ne (ne_nil_of_get?_ne_directory other) changed]
  exact keeps.place named

end FileSystem

end HexAtlas
