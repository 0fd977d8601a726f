import HexAtlas.Project.FileSystem
import HexAtlas.Proofs.Project.Location
import HexAtlas.Proofs.Text.Bytes

namespace HexAtlas

theorem bind_eq_ok {ε α β : Type} {x : Except ε α} {f : α → Except ε β} {b : β} :
    (x >>= f) = .ok b ↔ ∃ a, x = .ok a ∧ f a = .ok b := by
  cases x <;> simp [bind, Except.bind]

theorem map_eq_ok {ε α β : Type} {x : Except ε α} {f : α → β} {b : β} :
    (f <$> x) = .ok b ↔ ∃ a, x = .ok a ∧ f a = b := by
  cases x <;> simp [Functor.map, Except.map]

/-- A check that fails a run of steps. -/
theorem guard_eq_ok {ε β : Type} {c : Prop} [Decidable c] {e : ε} {f : PUnit → Except ε β} {b : β} :
    (if c then throw e >>= f else f ⟨⟩) = .ok b ↔ ¬c ∧ f ⟨⟩ = .ok b := by
  split <;> simp_all [bind, Except.bind, throw, throwThe, MonadExceptOf.throw]

/-- Every result of a run over a list comes from a member of it. -/
theorem exists_of_mem_mapM {ε α β : Type} {f : α → Except ε β} {xs : List α} {ys : List β} (h : xs.mapM f = .ok ys)
    {y : β} (member : y ∈ ys) : ∃ x ∈ xs, f x = .ok y := by
  induction xs generalizing ys with
  | nil =>
    cases h
    cases member
  | cons x rest ih =>
    rw [List.mapM_cons] at h
    obtain ⟨first, atFirst, h⟩ := bind_eq_ok.mp h
    obtain ⟨others, atOthers, h⟩ := bind_eq_ok.mp h
    cases h
    rcases List.mem_cons.mp member with rfl | later
    · exact ⟨x, List.mem_cons_self, atFirst⟩
    · obtain ⟨source, listed, read⟩ := ih atOthers later
      exact ⟨source, List.mem_cons_of_mem x listed, read⟩

namespace FileSystem

theorem get?_nil (fs : FileSystem) : fs.get? [] = some .directory := by
  simp [get?]

theorem lookup_filter_ne (entries : List (Place × Entry)) {p q : Place} (other : q ≠ p) :
    (entries.filter (·.1 ≠ p)).lookup q = entries.lookup q := by
  induction entries with
  | nil => rfl
  | cons entry rest ih =>
    obtain ⟨place, e⟩ := entry
    by_cases same : place = p
    · subst same
      rw [List.filter_cons_of_neg (by simp), ih, List.lookup_cons, beq_false_of_ne other]
    · rw [List.filter_cons_of_pos (by simpa using same), List.lookup_cons, List.lookup_cons, ih]

/-- The tree without the entry of a place. -/
def remove (fs : FileSystem) (p : Place) : FileSystem := { fs with entries := fs.entries.filter (·.1 ≠ p) }

theorem put_entries (fs : FileSystem) (p : Place) (e : Entry) :
    (fs.put p e).entries = (p, e) :: (fs.remove p).entries := rfl

theorem get?_remove (fs : FileSystem) {p : Place} (inside : p ≠ []) (q : Place) :
    (fs.remove p).get? q = if q = p then none else fs.get? q := by
  by_cases same : q = p
  · subst same
    rw [if_pos rfl, get?, if_neg inside, remove, List.lookup_eq_none_iff]
    intro entry member
    have apart : entry.1 ≠ q := by simpa using (List.mem_filter.mp member).2
    simpa using apart.symm
  · rw [if_neg same, get?, get?]
    split
    · rfl
    · exact lookup_filter_ne fs.entries same

theorem get?_remove_self (fs : FileSystem) {p : Place} (inside : p ≠ []) : (fs.remove p).get? p = none := by
  rw [get?_remove fs inside, if_pos rfl]

/-- A change of one place. The root cannot be changed. -/
theorem get?_put (fs : FileSystem) {p : Place} (inside : p ≠ []) (e : Entry) (q : Place) :
    (fs.put p e).get? q = if q = p then some e else fs.get? q := by
  have others := fs.get?_remove inside q
  by_cases same : q = p
  · subst same
    simp [get?, put, inside]
  · rw [if_neg same] at others ⊢
    rw [← others, get?, get?, put_entries, List.lookup_cons, beq_false_of_ne same]

theorem follow_cons (fs : FileSystem) (p : Place) (piece : List Char) (rest : List (List Char)) :
    fs.follow p (piece :: rest) =
      match fs.get? p with
      | none => .error .notFound
      | some (.file _) => .error .notDirectory
      | some .directory =>
        if Location.isIdle piece then fs.follow p rest
        else if piece = ['.', '.'] then fs.follow p.dropLast rest
        else if 255 < byteCount piece then .error .nameTooLong
        else fs.follow (p ++ [piece]) rest := rfl

/-- Every directory stays one, and the current directory stays the same. -/
structure Keeps (fs after : FileSystem) : Prop where
  current : after.current = fs.current
  directory : ∀ p, fs.get? p = some .directory → after.get? p = some .directory

/-- What could be followed is followed to the same place. -/
theorem Keeps.follow {fs after : FileSystem} (h : fs.Keeps after) {pieces : List (List Char)} {p q : Place}
    (followed : fs.follow p pieces = .ok q) : after.follow p pieces = .ok q := by
  induction pieces generalizing p with
  | nil => exact followed
  | cons piece rest ih =>
    rw [follow_cons] at followed ⊢
    split at followed
    · cases followed
    · cases followed
    · rename_i there
      rw [h.directory p there]
      simp only
      split at followed
      · rename_i idle
        rw [if_pos idle]
        exact ih followed
      · rename_i idle
        rw [if_neg idle]
        split at followed
        · rename_i up
          rw [if_pos up]
          exact ih followed
        · rename_i up
          rw [if_neg up]
          split at followed
          · cases followed
          · rename_i short
            rw [if_neg short]
            exact ih followed

theorem Keeps.place {fs after : FileSystem} (h : fs.Keeps after) {l : Location} {p : Place}
    (named : fs.place l = .ok p) : after.place l = .ok p := by
  unfold FileSystem.place at named ⊢
  split at named
  · cases named
  · rename_i filled
    rw [if_neg filled]
    split at named
    · cases named
    · rename_i sound
      rw [if_neg sound]
      split at named
      · cases named
      · rename_i short
        rw [if_neg short, h.current]
        exact h.follow named

theorem follow_append (fs : FileSystem) (p : Place) (front back : List (List Char)) :
    fs.follow p (front ++ back) = (fs.follow p front).bind (fs.follow · back) := by
  induction front generalizing p with
  | nil => rfl
  | cons piece rest ih =>
    rw [List.cons_append, follow_cons, follow_cons]
    split
    · rfl
    · rfl
    · split
      · exact ih p
      · split
        · exact ih p.dropLast
        · split
          · rfl
          · exact ih (p ++ [piece])

theorem follow_append_eq_ok {fs : FileSystem} {p q : Place} {front back : List (List Char)} :
    fs.follow p (front ++ back) = .ok q ↔ ∃ mid, fs.follow p front = .ok mid ∧ fs.follow mid back = .ok q := by
  rw [follow_append]
  exact bind_eq_ok

theorem get?_of_follow_cons {fs : FileSystem} {p q : Place} {piece : List Char} {rest : List (List Char)}
    (followed : fs.follow p (piece :: rest) = .ok q) : fs.get? p = some .directory := by
  rw [follow_cons] at followed
  split at followed
  · cases followed
  · cases followed
  · assumption

/-- Names lead down, out of directories. -/
theorem follow_names {fs : FileSystem} {p q : Place} {names : List (List Char)}
    (named : ∀ name ∈ names, Location.IsName name) (followed : fs.follow p names = .ok q) : q = p ++ names := by
  induction names generalizing p with
  | nil =>
    cases followed
    exact (List.append_nil _).symm
  | cons name rest ih =>
    have own := named name List.mem_cons_self
    rw [follow_cons, get?_of_follow_cons followed] at followed
    simp only [own.not_isIdle, Bool.false_eq_true, if_false, if_neg own.not_above] at followed
    split at followed
    · cases followed
    · rw [ih (fun other member => named other (List.mem_cons_of_mem name member)) followed, List.append_assoc,
        List.singleton_append]

/-- An idle piece leads from a directory to itself. -/
theorem follow_idle {fs : FileSystem} {p : Place} (there : fs.get? p = some .directory) {piece : List Char}
    (idle : Location.isIdle piece = true) (rest : List (List Char)) :
    fs.follow p (piece :: rest) = fs.follow p rest := by
  rw [follow_cons, there]
  simp only [idle, if_true]

/-- The place from which the pieces of a location are followed. -/
def start (fs : FileSystem) (l : Location) : Place := if l.isAbsolute then [] else fs.current

theorem start_join (fs : FileSystem) (l : Location) {m : Location} (relative : m.isAbsolute = false) :
    fs.start (l.join m) = fs.start l := by
  rw [start, start, Location.isAbsolute_join l relative]

theorem place_eq_ok {fs : FileSystem} {l : Location} {q : Place} : fs.place l = .ok q ↔
    l.text ≠ [] ∧ '\x00' ∉ l.text ∧ byteCount l.text ≤ 4095 ∧
      fs.follow (fs.start l) (splitAll '/' l.text) = .ok q := by
  unfold FileSystem.place start
  by_cases filled : l.text = []
  · simp [filled]
  by_cases sound : '\x00' ∈ l.text
  · simp [filled, sound]
  by_cases short : 4095 < byteCount l.text
  · simp [filled, sound, short, Nat.not_le.mpr short]
  · simp [filled, sound, short, Nat.le_of_not_lt short]

/-- A location that is written within another one has a place if its pieces can be followed. -/
theorem place_of_sublist {fs : FileSystem} {l m : Location} {p q : Place} (within : l.text.Sublist m.text)
    (filled : l.text ≠ []) (named : fs.place m = .ok p)
    (followed : fs.follow (fs.start l) (splitAll '/' l.text) = .ok q) :
    fs.place l = .ok q := by
  obtain ⟨_, sound, short, _⟩ := place_eq_ok.mp named
  have fits := Nat.le_trans (byteCount_le within) short
  exact place_eq_ok.mpr ⟨filled, fun member => sound (within.mem member), fits, followed⟩

/-- A location leads to its place also when more is to be joined to it. -/
theorem follow_under {fs : FileSystem} {l : Location} {p : Place} (named : fs.place l = .ok p) :
    fs.follow (fs.start l) l.under = .ok p := by
  obtain ⟨filled, _, _, followed⟩ := place_eq_ok.mp named
  unfold Location.under
  rw [if_neg filled]
  split
  · rename_i ended
    have shape : l.text.dropLast ++ ['/'] = l.text := List.dropLast_append_getLast? '/' ended
    rw [← shape, splitAll_append_cons] at followed
    obtain ⟨mid, toMid, last⟩ := follow_append_eq_ok.mp followed
    rw [show splitAll '/' [] = [[]] from rfl] at last
    have stay : fs.follow mid [[]] = .ok mid := follow_idle (get?_of_follow_cons last) rfl []
    rw [toMid, ← last, stay]
  · exact followed

theorem find?_eq_some {fs : FileSystem} {l : Location} {p : Place} {e : Entry} :
    fs.find? l = some (p, e) ↔ fs.place l = .ok p ∧ fs.get? p = some e := by
  unfold FileSystem.find?
  cases named : fs.place l with
  | error cause => simp
  | ok q =>
    simp only [Option.map_eq_some_iff, Prod.mk.injEq, Except.ok.injEq]
    constructor
    · rintro ⟨e', there, rfl, rfl⟩
      exact ⟨rfl, there⟩
    · rintro ⟨rfl, there⟩
      exact ⟨e, there, rfl, rfl⟩

theorem isThere_of_get?_eq_none {fs : FileSystem} {l : Location} {p : Place} (named : fs.place l = .ok p)
    (free : fs.get? p = none) : fs.isThere l = false := by
  rw [isThere, find?, named]
  simp [free]

theorem exists_place_of_isThere {fs : FileSystem} {l : Location} (h : fs.isThere l = true) :
    ∃ p, fs.place l = .ok p := by
  obtain ⟨⟨p, e⟩, found⟩ := Option.isSome_iff_exists.mp h
  exact ⟨p, (find?_eq_some.mp found).1⟩

/-- A name that is joined to a location leads into the place of that location. -/
theorem exists_base_of_place_join {fs : FileSystem} {l : Location} {piece : List Char} {q : Place}
    (name : Location.IsName piece) (named : fs.place (l.join ⟨piece⟩) = .ok q) :
    ∃ base, fs.follow (fs.start l) l.under = .ok base ∧
      fs.get? base = some .directory ∧ q = base ++ [piece] := by
  obtain ⟨_, _, _, followed⟩ := place_eq_ok.mp named
  rw [Location.splitAll_join_name l name, start_join fs l (Location.isAbsolute_of_isName name)] at followed
  obtain ⟨base, toBase, last⟩ := follow_append_eq_ok.mp followed
  exact ⟨base, toBase, get?_of_follow_cons last, follow_names (List.forall_mem_singleton.mpr name) last⟩

/-- What a write leaves behind: a file at the place of its location, which was no directory. -/
theorem write_eq_ok {fs after : FileSystem} {l : Location} {text : String} (h : fs.write l text = .ok after) :
    ∃ p, fs.place l = .ok p ∧ fs.get? p ≠ some .directory ∧ after = fs.put p (.file text.toUTF8) := by
  obtain ⟨p, named, h⟩ := bind_eq_ok.mp h
  split at h
  · cases h
  · rename_i other
    cases h
    exact ⟨p, named, other, rfl⟩

theorem ne_nil_of_get?_ne_directory {fs : FileSystem} {p : Place} (h : fs.get? p ≠ some .directory) : p ≠ [] := by
  rintro rfl
  exact h fs.get?_nil

theorem keeps_put {fs : FileSystem} {p : Place} (other : fs.get? p ≠ some .directory) (e : Entry) :
    fs.Keeps (fs.put p e) := by
  refine ⟨rfl, fun q there => ?_⟩
  rw [get?_put fs (ne_nil_of_get?_ne_directory other)]
  split
  · rename_i same
    exact absurd (same ▸ there) other
  · exact there

theorem keeps_remove {fs : FileSystem} {p : Place} (other : fs.get? p ≠ some .directory) :
    fs.Keeps (fs.remove p) := by
  refine ⟨rfl, fun q there => ?_⟩
  rw [get?_remove fs (ne_nil_of_get?_ne_directory other)]
  split
  · rename_i same
    exact absurd (same ▸ there) other
  · exact there

theorem keeps_write {fs after : FileSystem} {l : Location} {text : String} (h : fs.write l text = .ok after) :
    fs.Keeps after := by
  obtain ⟨p, _, other, rfl⟩ := write_eq_ok h
  exact keeps_put other _

theorem fromUTF8?_toUTF8 (text : String) : String.fromUTF8? text.toUTF8 = some text :=
  dif_pos text.isValidUTF8

/-- The text of a file that is at the place of a location. -/
theorem read_of_get? {fs : FileSystem} {l : Location} {p : Place} {text : String} (named : fs.place l = .ok p)
    (there : fs.get? p = some (.file text.toUTF8)) : fs.read l = .ok text.toList := by
  unfold FileSystem.read
  rw [named]
  simp only [bind, Except.bind, there, fromUTF8?_toUTF8]

end FileSystem

end HexAtlas
