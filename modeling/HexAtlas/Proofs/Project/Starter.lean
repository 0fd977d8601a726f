import HexAtlas.Proofs.Chart.SortedSet
import HexAtlas.Proofs.Project.Manifest
import HexAtlas.Proofs.Yaml.Item

namespace HexAtlas
namespace Manifest

/-- A field that has been set is not set again. -/
theorem sources_setAll? {m m' : Manifest} {done : List Field} {entries : List (Yaml.Node × Yaml.Node)}
    (listed : Field.sources ∈ done) (h : m.setAll? done entries = some m') : m'.sources = m.sources := by
  induction entries generalizing m done with
  | nil =>
    cases h
    rfl
  | cons entry entries ih =>
    obtain ⟨key, value⟩ := entry
    rw [setAll?] at h
    obtain ⟨name, _, h⟩ := Option.bind_eq_some_iff.mp h
    split at h
    · exact ih listed h
    · rename_i f _
      split at h
      · cases h
      · rename_i fresh
        obtain ⟨next, set, h⟩ := Option.bind_eq_some_iff.mp h
        rw [ih (List.mem_cons_of_mem f listed) h]
        cases f with
        | sources => exact absurd (by simpa using listed) fresh
        | _ =>
          obtain ⟨_, _, rfl⟩ := Option.map_eq_some_iff.mp set
          rfl

/-- The sources that a first field of that name gives. -/
theorem mapM_text?_of_ofDocuments? {items : List Yaml.Node} {entries : List (Yaml.Node × Yaml.Node)}
    {others : List Yaml.Node} {plain : Bool} {m : Manifest}
    (h : ofDocuments? (.mapping ((.scalar plain "sources", .sequence items) :: entries) :: others) = some m) :
    items.mapM text? = some m.sources := by
  cases others with
  | cons => cases h
  | nil =>
    have set : standard.setAll? [] ((.scalar plain "sources", .sequence items) :: entries) = some m := h
    have stepwise : ((texts? (.sequence items)).map fun sources => { standard with sources }).bind
        (fun next => next.setAll? [.sources] entries) = some m := set
    obtain ⟨next, given, later⟩ := Option.bind_eq_some_iff.mp stepwise
    obtain ⟨texts, read, rfl⟩ := Option.map_eq_some_iff.mp given
    rw [sources_setAll? List.mem_cons_self later]
    exact read

theorem exists_of_parse_eq_ok {cs : List Char} {m : Manifest} (filled : trim cs ≠ []) (h : parse cs = .ok m) :
    ∃ documents, Yaml.parse? cs = some documents ∧ ofDocuments? documents = some m := by
  rw [parse, if_neg filled] at h
  split at h
  · cases h
  · rename_i read
    split at h
    · cases h
      exact Option.bind_eq_some_iff.mp read
    · cases h

/-- What stands behind the closing quote of a directory that is read as another item comes. -/
def behind (later : List String) : List Char :=
  '\n' :: (Yaml.itemLines (later.map String.toList) ++ (closingEntries []).flatMap Yaml.Entry.text)

/-- The manifest up to a directory, its name and what stands behind it. -/
theorem toList_starter_of_listed {directories before later : List String} {name : String}
    (h : listed directories = before ++ name :: later) :
    (starter directories).toList = Yaml.lineFeeds ["# hexmap project settings".toList] ++ ("sources".toList ++
      ':' :: '\n' :: (Yaml.itemLines (before.map String.toList) ++ ' ' :: ' ' :: '-' :: ' ' :: '"' ::
        (name.toList ++ '"' :: behind later))) := by
  have filled : listed directories ≠ [] := by simp [h]
  rw [toList_starter, starterEntries, if_neg filled, h]
  simp [Yaml.Entry.text, Yaml.Entry.comments, Yaml.Entry.line, Yaml.EntryValue.text, Yaml.itemLines, behind,
    Yaml.lineFeeds]

/-- Between the quote behind a directory and the quote of the next one stands a dash. -/
theorem unquotes_dash (column : Nat) (cs : List Char) :
    Yaml.Unquotes (column + 1) ('\n' :: ' ' :: ' ' :: '-' :: ' ' :: '"' :: cs) " - ".toList cs := by
  have indented : Yaml.readGap? 0 .none (column + 1) ('\n' :: ' ' :: ' ' :: '-' :: ' ' :: '"' :: cs) =
      some (⟨[], true, ['\n'], []⟩, 2, '-' :: ' ' :: '"' :: cs) := rfl
  have spaced : Yaml.readGap? 0 .none 3 (' ' :: '"' :: cs) = some (⟨[' '], false, [], []⟩, 4, '"' :: cs) := rfl
  exact .blank rfl indented (.plain rfl (by decide) (by decide) nofun (.blank rfl spaced (.close 4 cs)))

/-- A name is never read on into the item behind it: that would end in a space, not in an escape. -/
theorem not_goesPast_behind (name : List Char) (later : List String) (after : List Char) :
    ¬ Yaml.Unquotes.GoesPast name (behind later) name after := by
  rintro ⟨escape, column, front, more, shape, read⟩
  cases later with
  | nil =>
    have free : '"' ∉ behind [] := by decide +kernel
    exact free read.quote_mem
  | cons next later =>
    have item : behind (next :: later) =
        '\n' :: ' ' :: ' ' :: '-' :: ' ' :: '"' :: (next.toList ++ '"' :: behind later) := by
      simp [behind, Yaml.itemLines]
    rw [item] at read
    obtain ⟨rfl, _⟩ := read.unique (unquotes_dash column _)
    rw [shape, List.getLast?_append] at escape
    cases escape

/-- A directory that is read back behind others is read as it is written. -/
theorem isVerbatim_of_parse_starter {directories before later : List String} {name : String} {m : Manifest}
    (h : listed directories = before ++ name :: later) (verbatim : ∀ other ∈ before, Yaml.IsVerbatim other.toList)
    (read : parse (starter directories).toList = .ok m) (same : m.sources = listed directories) :
    Yaml.IsVerbatim name.toList := by
  obtain ⟨documents, parsed, given⟩ := exists_of_parse_eq_ok (trim_starter_ne_nil directories) read
  have shape := toList_starter_of_listed h
  have unmarked : (starter directories).toList.head? ≠ some '\ufeff' := by simp [shape, Yaml.lineFeeds]
  have notes : ∀ comment ∈ ["# hexmap project settings".toList], Yaml.IsComment comment := by
    intro comment member
    obtain rfl := List.mem_singleton.mp member
    exact ⟨by simp [Yaml.isBreak], by simp⟩
  have verbatim' : ∀ text ∈ before.map String.toList, Yaml.IsVerbatim text := by
    intro text member
    obtain ⟨other, listed, rfl⟩ := List.mem_map.mp member
    exact verbatim other listed
  obtain ⟨text, after, quoted, item, more, entries, others, rfl, own⟩ :=
    Yaml.exists_item_of_parse? notes (by decide) (by decide) verbatim' shape unmarked parsed
  obtain ⟨front, found, last, first, itemText, split⟩ :=
    exists_of_mapM_append_cons (mapM_text?_of_ofDocuments? given)
  obtain rfl : front = before := by
    have read' := texts?_list (before.map String.toList)
    have known := Option.some.inj (first.symm.trans read')
    simpa using known
  obtain ⟨rfl, rfl⟩ : found = name ∧ last = later := by
    rw [same, h] at split
    simpa [eq_comm] using split
  obtain rfl : text = found.toList := by
    rcases own with rfl | ⟨_, rfl⟩
    · cases itemText
      simp
    · cases itemText
  have allowed := Yaml.allowed_of_parse? unmarked parsed
  refine Yaml.isVerbatim_of_quoted? (fun c member => allowed c ?_) (by decide) quoted (not_goesPast_behind _ _ _)
  rw [shape]
  simp [member]

theorem isVerbatim_of_mem_listed {directories : List String} {m : Manifest}
    (read : parse (starter directories).toList = .ok m) (same : m.sources = listed directories) :
    ∀ name ∈ listed directories, Yaml.IsVerbatim name.toList := by
  have onwards : ∀ later before, listed directories = before ++ later →
      (∀ name ∈ before, Yaml.IsVerbatim name.toList) → ∀ name ∈ later, Yaml.IsVerbatim name.toList := by
    intro later
    induction later with
    | nil => exact fun _ _ _ => List.forall_mem_nil _
    | cons name later ih =>
      intro before split verbatim
      have own := isVerbatim_of_parse_starter split verbatim read same
      have others := ih (before ++ [name]) (by simp [split])
        (List.forall_mem_append.mpr ⟨verbatim, List.forall_mem_singleton.mpr own⟩)
      exact List.forall_mem_cons.mpr ⟨own, others⟩
  exact onwards _ [] rfl (List.forall_mem_nil _)

/-- The manifest lists a set of directories unless it holds the project's own directory at most. -/
theorem listed_sortedSet (names : List String) :
    listed (sortedSet names) = if ∀ name ∈ names, name = "." then [] else sortedSet names := by
  unfold listed
  refine if_congr ?_ rfl rfl
  constructor
  · rintro bare name member
    have inside : name ∈ sortedSet names := mem_sortedSet.mpr member
    rcases bare with none | own
    · simp [none] at inside
    · simpa [own] using inside
  · intro own
    have alone : ∀ name ∈ sortedSet names, name = "." := fun name member => own name (mem_sortedSet.mp member)
    cases shape : sortedSet names with
    | nil => exact .inl rfl
    | cons name more =>
      have distinct := nodup_sortedSet names
      rw [shape] at alone distinct
      obtain rfl := alone name List.mem_cons_self
      cases more with
      | nil => exact .inr rfl
      | cons other more =>
        obtain rfl := alone other (by simp)
        simp at distinct

/-- The manifest of a new project reads back exactly if each name is read as itself. Where a name holds no
separator, that is so exactly if each of its characters stands for itself between quotes. -/
theorem parse_starter_eq_ok_iff (names : List String) :
    (parse (starter (sortedSet names)).toList = .ok { Manifest.standard with
      sources := if ∀ name ∈ names, name = "." then [] else sortedSet names } ↔
      ∀ name ∈ names, Yaml.IsVerbatim name.toList) ∧
    ∀ text : List Char, (∀ c ∈ text, Yaml.isSeparator c = false) →
      (Yaml.IsVerbatim text ↔ ∀ c ∈ text, Yaml.isQuotable c = true) := by
  refine ⟨?_, fun text => Yaml.isVerbatim_iff⟩
  rw [← listed_sortedSet]
  constructor
  · intro read name member
    by_cases bare : ∀ other ∈ names, other = "."
    · rw [bare name member]
      decide +kernel
    · refine isVerbatim_of_mem_listed read rfl name ?_
      rw [listed_sortedSet, if_neg bare]
      exact mem_sortedSet.mpr member
  · intro verbatim
    exact parse_starter_of_isVerbatim fun name member => verbatim name (mem_sortedSet.mp (mem_of_mem_listed member))

theorem parse_starter_eq_ok_iff_colon :
    (∀ c ∈ "a: b #1/".toList, Yaml.isSeparator c = false) ∧ Yaml.IsVerbatim "a: b #1/".toList ∧
      parse (starter (sortedSet ["é/", ".", "a: b #1/"])).toList =
        .ok { Manifest.standard with sources := [".", "a: b #1/", "é/"] } := by
  have plain : ∀ c ∈ "a: b #1/".toList, Yaml.isSeparator c = false := by simp [Yaml.isSeparator]
  have verbatim : ∀ name ∈ ["é/", ".", "a: b #1/"], Yaml.IsVerbatim name.toList := by decide +kernel
  have sources : (if ∀ name ∈ ["é/", ".", "a: b #1/"], name = "." then [] else sortedSet ["é/", ".", "a: b #1/"]) =
      [".", "a: b #1/", "é/"] := by decide +kernel
  have read := (parse_starter_eq_ok_iff ["é/", ".", "a: b #1/"]).1.mpr verbatim
  rw [sources] at read
  exact ⟨plain, ((parse_starter_eq_ok_iff []).2 _ plain).mpr (List.all_eq_true.mp (by decide +kernel)), read⟩

/-- A quote in a name spoils the manifest, and a backslash makes the next letter something else. -/
theorem not_forall_parse_starter :
    ¬ (∀ names : List String, parse (starter (sortedSet names)).toList = .ok { Manifest.standard with
      sources := if ∀ name ∈ names, name = "." then [] else sortedSet names }) ∧
    parse (starter (sortedSet ["a\"b/"])).toList = .error .manifestMalformed ∧
    parse (starter (sortedSet ["maps\\new/"])).toList =
      .ok { Manifest.standard with sources := ["maps\new/"] } := by
  have quote : (Yaml.parse? (starter (sortedSet ["a\"b/"])).toList).bind ofDocuments? = none := by decide +kernel
  have backslash : (Yaml.parse? (starter (sortedSet ["maps\\new/"])).toList).bind ofDocuments? =
      some { Manifest.standard with sources := ["maps\new/"] } := by decide +kernel
  have valid : Viewport.standard.isValid = true := by decide +kernel
  have malformed : parse (starter (sortedSet ["a\"b/"])).toList = .error .manifestMalformed := by
    rw [parse, if_neg (trim_starter_ne_nil _), quote]
  refine ⟨fun h => ?_, malformed, ?_⟩
  · have read := h ["a\"b/"]
    rw [malformed] at read
    cases read
  · rw [parse, if_neg (trim_starter_ne_nil _), backslash]
    exact if_pos valid

end Manifest
end HexAtlas
