import HexAtlas.Proofs.Table
import HexAtlas.Chart

namespace HexAtlas

/-- No list of style attributes sets a key twice. -/
structure Styles.Distinct (s : Styles) : Prop where
  fill : ∀ name attributes, s.fill.get? name = some attributes → attributes.Distinct
  stroke : ∀ name attributes, s.stroke.get? name = some attributes → attributes.Distinct
  text : s.text.Distinct
  glow : s.glow.Distinct
  label : s.label.Distinct

namespace Line

/-- A list of attributes on the line sets no key twice. -/
def Distinct : Line → Prop
  | fill _ attributes | stroke _ attributes | text attributes | glow attributes | label attributes =>
    attributes.Distinct
  | region _ | path _ | definition _ | geometry _ _ => True

theorem distinct_of_shape? {line : List Char} {l : Line} (h : shape? line = some l) : l.Distinct := by
  obtain ⟨⟨name, rest⟩, _, rfl⟩ := Option.map_eq_some_iff.mp h
  simp only
  split
  · exact Attributes.distinct_parse _
  · trivial

theorem distinct_of_letters? {line : List Char} {l : Line} (h : letters? line = some l) : l.Distinct := by
  simp only [letters?, Option.orElse_eq_orElse, Option.orElse_eq_or, Option.or_eq_some_iff,
    Option.map_eq_some_iff] at h
  rcases h with ⟨rest, _, rfl⟩ | ⟨_, ⟨rest, _, rfl⟩ | ⟨_, rest, _, rfl⟩⟩ <;> exact Attributes.distinct_parse rest

/-- Attributes are read into a table, so no line repeats a key. -/
theorem distinct_of_recognize? {line : List Char} {l : Line} (h : recognize? line = some l) : l.Distinct := by
  simp only [recognize?, Option.orElse_eq_orElse, Option.orElse_eq_or, Option.or_eq_some_iff] at h
  rcases h with region | ⟨_, path | ⟨_, fill | ⟨_, definition | ⟨_, shape | ⟨_, letters⟩⟩⟩⟩⟩
  · obtain ⟨r, _, rfl⟩ := Option.map_eq_some_iff.mp region
    trivial
  · obtain ⟨p, _, rfl⟩ := Option.map_eq_some_iff.mp path
    trivial
  · obtain ⟨⟨name, rest⟩, _, rfl⟩ := Option.map_eq_some_iff.mp fill
    exact Attributes.distinct_parse rest
  · unfold definition? at definition
    split at definition
    · cases definition
      trivial
    · cases definition
  · exact distinct_of_shape? shape
  · exact distinct_of_letters? letters

end Line

theorem distinct_of_contentOf? {line : List Char} {l : Line} (h : contentOf? line = some l) : l.Distinct := by
  simp only [contentOf?] at h
  split at h
  · cases h
  · exact Line.distinct_of_recognize? h

namespace Chart

/-- The names that a map holds are of its own scope. -/
structure Named (c : Chart) : Prop where
  paths : ∀ path ∈ c.paths, ∃ name, path.id = c.scope.apply name
  definitions : ∀ markup ∈ c.definitions, ∃ original, markup = String.ofList (c.scope.markNames original)
  styles : c.styles.Distinct

theorem named_blank (instanceName : String) (options : Options) : (blank instanceName options).Named where
  paths := List.forall_mem_nil _
  definitions := List.forall_mem_nil _
  styles := ⟨nofun, nofun, Table.distinct_empty, Table.distinct_empty, Table.distinct_empty⟩

theorem distinct_of_set {t : Table Attributes}
    (h : ∀ name attributes, t.get? name = some attributes → attributes.Distinct)
    {key : String} {value : Attributes} (new : value.Distinct) (name : String) (attributes : Attributes)
    (found : (t.set key value).get? name = some attributes) : attributes.Distinct := by
  rw [Table.get?_set] at found
  split at found
  · cases found
    exact new
  · exact h name attributes found

/-- One line keeps what is said of names. -/
theorem Named.add {c : Chart} (h : c.Named) {line : Line} (distinct : line.Distinct) : (c.add line).Named := by
  cases line with
  | region r => exact ⟨h.paths, h.definitions, h.styles⟩
  | path p =>
    refine ⟨fun path member => ?_, h.definitions, h.styles⟩
    rcases List.mem_append.mp member with old | new
    · exact h.paths path old
    · rw [List.mem_singleton.mp new]
      exact ⟨_, rfl⟩
  | fill name attributes =>
    exact ⟨h.paths, h.definitions, ⟨distinct_of_set h.styles.fill distinct, h.styles.stroke, h.styles.text,
      h.styles.glow, h.styles.label⟩⟩
  | definition markup =>
    refine ⟨h.paths, fun text member => ?_, h.styles⟩
    rcases List.mem_append.mp member with old | new
    · exact h.definitions text old
    · exact ⟨_, List.mem_singleton.mp new⟩
  | stroke name attributes =>
    exact ⟨h.paths, h.definitions, ⟨h.styles.fill, distinct_of_set h.styles.stroke distinct, h.styles.text,
      h.styles.glow, h.styles.label⟩⟩
  | geometry name outline =>
    exact ⟨h.paths, h.definitions, ⟨h.styles.fill, h.styles.stroke, h.styles.text, h.styles.glow, h.styles.label⟩⟩
  | text attributes =>
    exact ⟨h.paths, h.definitions, ⟨h.styles.fill, h.styles.stroke, distinct, h.styles.glow, h.styles.label⟩⟩
  | glow attributes =>
    exact ⟨h.paths, h.definitions, ⟨h.styles.fill, h.styles.stroke, h.styles.text, distinct, h.styles.label⟩⟩
  | label attributes =>
    exact ⟨h.paths, h.definitions, ⟨h.styles.fill, h.styles.stroke, h.styles.text, h.styles.glow, distinct⟩⟩

theorem Named.foldl_add {c : Chart} (h : c.Named) {content : List Line}
    (distinct : ∀ line ∈ content, line.Distinct) : (content.foldl Chart.add c).Named := by
  induction content generalizing c with
  | nil => exact h
  | cons line rest ih =>
    exact ih (h.add (distinct line List.mem_cons_self))
      fun other member => distinct other (List.mem_cons_of_mem line member)

/-- What is said of names holds of every compiled map. -/
theorem named_compile (instanceName : String) (source : List (List Char)) :
    (compile instanceName source).Named := by
  refine (named_blank instanceName (readOptions source)).foldl_add fun line member => ?_
  obtain ⟨text, _, recognized⟩ := List.mem_filterMap.mp member
  exact distinct_of_contentOf? recognized

theorem scope_add (c : Chart) (line : Line) : (c.add line).scope = c.scope := by
  cases line <;> rfl

theorem scope_foldl_add (lines : List Line) (c : Chart) : (lines.foldl Chart.add c).scope = c.scope := by
  induction lines generalizing c with
  | nil => rfl
  | cons line rest ih => rw [List.foldl_cons, ih, scope_add]

/-- The scope is fixed before the first line is added. -/
theorem scope_compile (instanceName : String) (source : List (List Char)) :
    (compile instanceName source).scope = .ofInstance instanceName (readOptions source).global :=
  scope_foldl_add _ _

end Chart

end HexAtlas
