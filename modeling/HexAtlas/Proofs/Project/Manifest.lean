import HexAtlas.Project.Manifest
import HexAtlas.Proofs.Yaml.Mapping

namespace HexAtlas
namespace Manifest

/-- Only the project's own directory is not worth listing. -/
def listed (directories : List String) : List String :=
  if directories = [] ∨ directories = ["."] then [] else directories

theorem mem_of_mem_listed {directories : List String} {directory : String} (h : directory ∈ listed directories) :
    directory ∈ directories := by
  unfold listed at h
  split at h
  · cases h
  · exact h

theorem searched_listed (directories : List String) :
    { standard with sources := listed directories }.searched =
      (if directories = [] then ["."] else directories).map Location.ofString := by
  unfold searched listed
  by_cases none : directories = []
  · simp [none]
  · by_cases own : directories = ["."] <;> simp [none, own]

/-- The lines of a new manifest behind the directories. -/
def closingEntries (notes : List (List Char)) : List Yaml.Entry := [
  ⟨notes, "output".toList, .plain "dist".toList⟩,
  ⟨[], "theme".toList, .plain Theme.standard.name.toList⟩,
  ⟨[" viewport size of rendered SVGs".toList], "width".toList, .plain (Viewport.standard.width.shortest .plain)⟩,
  ⟨[], "height".toList, .plain (Viewport.standard.height.shortest .plain)⟩]

def starterEntries (directories : List String) : List Yaml.Entry :=
  let head := [" hexmap project settings".toList]
  if listed directories = [] then closingEntries head
  else ⟨head, "sources".toList, .list ((listed directories).map String.toList)⟩ :: closingEntries []

theorem toList_starter (directories : List String) :
    (starter directories).toList = (starterEntries directories).flatMap Yaml.Entry.text := by
  unfold starter starterEntries listed
  by_cases bare : directories = [] ∨ directories = ["."]
  · simp [bare, closingEntries, Yaml.Entry.text, Yaml.Entry.comments, Yaml.Entry.line, Yaml.lineFeeds,
      Yaml.EntryValue.text, String.toList_append]
  · obtain ⟨filled, other⟩ := not_or.mp bare
    simp [filled, other, closingEntries, Yaml.Entry.text, Yaml.Entry.comments, Yaml.Entry.line, Yaml.lineFeeds,
      Yaml.EntryValue.text, Yaml.itemLines, String.toList_append, List.flatMap_map]

/-- The characters of a directory's name all stand for themselves in the manifest. -/
def IsListable (directories : List String) : Prop :=
  ∀ directory ∈ directories, ∀ c ∈ directory.toList, Yaml.isQuotable c = true

instance (directories : List String) : Decidable (IsListable directories) :=
  decidable_of_iff (directories.all fun directory => directory.toList.all Yaml.isQuotable)
    (by simp only [IsListable, List.all_eq_true])

theorem isSound_closingEntries {notes : List (List Char)} (sound : Yaml.AreNotes notes) :
    ∀ e ∈ closingEntries notes, e.IsSound := by
  intro e member
  have free : Yaml.AreNotes [] := nofun
  simp only [closingEntries, List.mem_cons, List.not_mem_nil, or_false] at member
  rcases member with rfl | rfl | rfl | rfl
  · exact Yaml.Entry.isSound_plain sound (by decide) (by decide) (by decide)
  · exact Yaml.Entry.isSound_plain free (by decide) (by decide) (by decide)
  · exact Yaml.Entry.isSound_plain (by decide) (by decide) (by decide) (by decide +kernel)
  · exact Yaml.Entry.isSound_plain free (by decide) (by decide) (by decide +kernel)

theorem isSound_starterEntries {directories : List String}
    (verbatim : ∀ directory ∈ listed directories, Yaml.IsVerbatim directory.toList) :
    ∀ e ∈ starterEntries directories, e.IsSound := by
  have head : Yaml.AreNotes [" hexmap project settings".toList] := by decide
  intro e member
  unfold starterEntries at member
  split at member
  · exact isSound_closingEntries head e member
  · rename_i filled
    rcases List.mem_cons.mp member with rfl | closing
    · refine Yaml.Entry.isSound_list head (by decide) (by decide) (by simpa using filled) ?_
      intro text member
      obtain ⟨directory, named, rfl⟩ := List.mem_map.mp member
      exact verbatim directory named
    · exact isSound_closingEntries (List.forall_mem_nil _) e closing

theorem setAll?_closingEntries (m : Manifest) {done : List Field} (notes : List (List Char))
    (fresh : done = [] ∨ done = [.sources]) :
    m.setAll? done ((closingEntries notes).map Yaml.Entry.node) = some { Manifest.standard with
      sources := m.sources
      excludes := m.excludes } := by
  have width : number? (.scalar true (String.ofList (Viewport.standard.width.shortest .plain))) =
      some Viewport.standard.width := by decide +kernel
  have height : number? (.scalar true (String.ofList (Viewport.standard.height.shortest .plain))) =
      some Viewport.standard.height := by decide +kernel
  rcases fresh with rfl | rfl
  all_goals simp [closingEntries, Yaml.Entry.node, Yaml.EntryValue.node, setAll?, text?, Field.ofKey?, set?, width,
    height, Manifest.standard]

theorem texts?_list (texts : List (List Char)) :
    texts? (Yaml.EntryValue.list texts).node = some (texts.map String.ofList) := by
  rw [Yaml.EntryValue.node, texts?]
  induction texts with
  | nil => rfl
  | cons text more ih =>
    rw [List.map_cons, List.mapM_cons, ih]
    rfl

theorem ofDocuments?_starterEntries (directories : List String) :
    ofDocuments? [.mapping ((starterEntries directories).map Yaml.Entry.node)] =
      some { Manifest.standard with sources := listed directories } := by
  show standard.setAll? [] ((starterEntries directories).map Yaml.Entry.node) = _
  unfold starterEntries
  by_cases bare : listed directories = []
  · simp only [bare, if_true]
    exact setAll?_closingEntries _ _ (Or.inl rfl)
  · simp only [bare, if_false, List.map_cons, Yaml.Entry.node]
    have sources := texts?_list ((listed directories).map String.toList)
    have closing := setAll?_closingEntries { Manifest.standard with sources := listed directories } [] (Or.inr rfl)
    have names : ((listed directories).map String.toList).map String.ofList = listed directories := by simp
    rw [names] at sources
    rw [setAll?]
    simp [text?, Field.ofKey?, set?, sources, closing]

theorem trim_starter_ne_nil (directories : List String) : trim (starter directories).toList ≠ [] := by
  obtain ⟨rest, shape⟩ : ∃ rest, (starter directories).toList = '#' :: rest := by
    simp [starter, String.toList_join]
  rw [shape]
  exact trim_ne_nil (by decide) rest

/-- The manifest of a new project is read as the standard one with the directories that it lists, if each of them is
read as itself. -/
theorem parse_starter_of_isVerbatim {directories : List String}
    (verbatim : ∀ directory ∈ listed directories, Yaml.IsVerbatim directory.toList) :
    parse (starter directories).toList = .ok { Manifest.standard with sources := listed directories } := by
  have entries : starterEntries directories ≠ [] := by
    unfold starterEntries
    split <;> exact List.cons_ne_nil _ _
  have read := Yaml.parse?_entries entries (isSound_starterEntries verbatim)
  have valid : Viewport.standard.isValid = true := by decide +kernel
  rw [parse, if_neg (trim_starter_ne_nil directories), toList_starter, read, Option.bind_some,
    ofDocuments?_starterEntries]
  exact if_pos valid

theorem parse_starter {directories : List String} (listable : IsListable directories) :
    parse (starter directories).toList = .ok { Manifest.standard with sources := listed directories } :=
  parse_starter_of_isVerbatim fun directory member =>
    Yaml.isVerbatim_of_quotable (listable directory (mem_of_mem_listed member))

end Manifest
end HexAtlas
