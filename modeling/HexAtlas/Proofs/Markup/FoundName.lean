import HexAtlas.Proofs.Markup.JoinTags

namespace HexAtlas

/-- What may be put after a name: small letters, digits, underscores and dashes. -/
def isMarkChar (c : Char) : Bool := c.isLower || c.isDigit || c = '_' || c = '-'

namespace ReferenceKind

/-- The characters that an opening may begin with. -/
def isOpeningHead (c : Char) : Bool := ['i', 'h', 'u'].contains c

/-- An opening and its stop hold nothing that joining tags or marking looks at, and inside an opening none
begins. -/
structure IsPlain (entry : ReferenceKind × List Char × Char) : Prop where
  unclosed : '>' ∉ entry.2.1
  head : entry.2.1.head?.any isOpeningHead = true
  tail : entry.2.1.tail.any isOpeningHead = false
  visible : isBlank entry.2.2 = false
  untagged : entry.2.2 ≠ '<'
  unopened : isOpeningHead entry.2.2 = false
  unmarked : isMarkChar entry.2.2 = false

theorem isPlain_of_mem_openings {entry : ReferenceKind × List Char × Char} (h : entry ∈ openings) :
    IsPlain entry := by
  have all : ∀ entry ∈ openings, '>' ∉ entry.2.1 ∧ entry.2.1.head?.any isOpeningHead = true ∧
      entry.2.1.tail.any isOpeningHead = false ∧ isBlank entry.2.2 = false ∧ entry.2.2 ≠ '<' ∧
      isOpeningHead entry.2.2 = false ∧ isMarkChar entry.2.2 = false := by decide
  obtain ⟨unclosed, head, tail, visible, untagged, unopened, unmarked⟩ := all entry h
  exact ⟨unclosed, head, tail, visible, untagged, unopened, unmarked⟩

end ReferenceKind

open ReferenceKind

/-- A name up to its end is a nonempty text without that end, which follows. -/
theorem nameUntil?_eq_some_iff {stop : Char} {cs name rest : List Char} :
    nameUntil? stop cs = some (name, rest) ↔
      cs = name ++ rest ∧ name ≠ [] ∧ stop ∉ name ∧ rest.head? = some stop := by
  constructor
  · intro h
    unfold nameUntil? at h
    split at h
    · rename_i c more after cut
      cases h
      obtain ⟨parts, free⟩ := cutAt?_eq_some_iff.mp cut
      exact ⟨parts, List.cons_ne_nil c more, free, rfl⟩
    · cases h
  · rintro ⟨rfl, nonempty, free, head⟩
    obtain ⟨c, more, rfl⟩ := List.exists_cons_of_ne_nil nonempty
    cases rest with
    | nil => cases head
    | cons d after =>
      cases head
      rw [nameUntil?, cutAt?_append free]

theorem nameUntil?_eq_none_iff {stop : Char} {cs : List Char} :
    nameUntil? stop cs = none ↔ stop ∉ cs ∨ cs.head? = some stop := by
  by_cases member : stop ∈ cs
  · obtain ⟨before, after, rfl, free⟩ := List.eq_append_cons_of_mem member
    cases before with
    | nil => simp [nameUntil?, cutAt?]
    | cons c more =>
      have other : c ≠ stop := fun same => free (same ▸ List.mem_cons_self)
      rw [nameUntil?, cutAt?_append free]
      simp [other]
  · simp [nameUntil?, cutAt?_eq_none member, member]

/-- A name of one kind at the front of a text. -/
def nameAt? (before : Option Char) (cs : List Char) (entry : ReferenceKind × List Char × Char) : Option NameFound :=
  if entry.1.mayFollow before then
    ((afterStart? entry.2.1 cs).bind (nameUntil? entry.2.2)).map
      fun (name, rest) => ⟨entry.1, entry.2.1, name, rest⟩
  else none

theorem findName?_eq_findSome? (before : Option Char) (cs : List Char) :
    findName? before cs = openings.findSome? (nameAt? before cs) := by
  unfold findName?
  congr 1
  funext ⟨kind, opening, stop⟩
  simp only [nameAt?]
  split
  · cases afterStart? opening cs with
    | none => rfl
    | some body => cases found : nameUntil? stop body <;> simp [found]
  · rfl

/-- A found name stands between its opening and its stop. -/
structure NameFound.At (found : NameFound) (before : Option Char) (cs : List Char)
    (entry : ReferenceKind × List Char × Char) : Prop where
  allowed : entry.1.mayFollow before = true
  kind : found.kind = entry.1
  opening : found.opening = entry.2.1
  parts : cs = entry.2.1 ++ (found.name ++ found.rest)
  nonempty : found.name ≠ []
  free : entry.2.2 ∉ found.name
  stop : found.rest.head? = some entry.2.2

theorem nameAt?_eq_some_iff {before : Option Char} {cs : List Char} {entry : ReferenceKind × List Char × Char}
    {found : NameFound} : nameAt? before cs entry = some found ↔ found.At before cs entry := by
  constructor
  · intro h
    unfold nameAt? at h
    split at h
    · rename_i allowed
      obtain ⟨⟨name, rest⟩, cut, same⟩ := Option.map_eq_some_iff.mp h
      obtain ⟨body, start, cut⟩ := Option.bind_eq_some_iff.mp cut
      obtain ⟨rfl, nonempty, free, stop⟩ := nameUntil?_eq_some_iff.mp cut
      cases same
      exact ⟨allowed, rfl, rfl, eq_append_of_afterStart? start, nonempty, free, stop⟩
    · cases h
  · rintro ⟨allowed, kind, opening, parts, nonempty, free, stop⟩
    have cut := nameUntil?_eq_some_iff.mpr ⟨rfl, nonempty, free, stop⟩
    rw [nameAt?, if_pos allowed, parts, afterStart?_append, Option.bind_some, cut, Option.map_some, ← kind,
      ← opening]

theorem exists_at_of_findName? {before : Option Char} {cs : List Char} {found : NameFound}
    (h : findName? before cs = some found) : ∃ entry ∈ openings, found.At before cs entry := by
  rw [findName?_eq_findSome?] at h
  obtain ⟨entry, member, accepted⟩ := List.exists_of_findSome?_eq_some h
  exact ⟨entry, member, nameAt?_eq_some_iff.mp accepted⟩

/-- No opening begins another one. -/
theorem openings_apart : ∀ entry ∈ openings, ∀ other ∈ openings, other.2.1 <+: entry.2.1 → other = entry := by
  decide

theorem findSome?_eq_of_unique {α β : Type} {f : α → Option β} {xs : List α} {x : α} (member : x ∈ xs)
    (others : ∀ y ∈ xs, y ≠ x → f y = none) : xs.findSome? f = f x := by
  induction xs with
  | nil => cases member
  | cons y rest ih =>
    rw [List.findSome?_cons]
    by_cases same : y = x
    · subst same
      cases found : f y with
      | some v => rfl
      | none =>
        refine List.findSome?_eq_none_iff.mpr fun z inside => ?_
        by_cases again : z = y
        · rw [again, found]
        · exact others z (List.mem_cons_of_mem y inside) again
    · rw [others y List.mem_cons_self same]
      rcases List.mem_cons.mp member with first | later
      · exact absurd first.symm same
      · exact ih later fun z inside => others z (List.mem_cons_of_mem y inside)

/-- A name between an opening and its stop is the one found. -/
theorem findName?_of_at {before : Option Char} {cs : List Char} {entry : ReferenceKind × List Char × Char}
    (member : entry ∈ openings) {found : NameFound} (h : found.At before cs entry) :
    findName? before cs = some found := by
  rw [findName?_eq_findSome?, ← nameAt?_eq_some_iff.mpr h]
  refine findSome?_eq_of_unique member fun other inside different => ?_
  cases accepted : nameAt? before cs other with
  | none => rfl
  | some wrong =>
    have parts := (nameAt?_eq_some_iff.mp accepted).parts
    rw [h.parts] at parts
    -- Of two openings at one place the shorter would begin the longer.
    rcases List.prefix_or_prefix_of_prefix (List.prefix_append other.2.1 _) (parts ▸ List.prefix_append entry.2.1 _)
      with shorter | longer
    · exact absurd (openings_apart entry member other inside shorter) different
    · exact absurd (openings_apart other inside entry member longer).symm different

theorem afterStart?_joinTags {start : List Char} (h : '>' ∉ start) (cs : List Char) :
    afterStart? start (joinTags cs) = (afterStart? start cs).map joinTags := by
  induction start generalizing cs with
  | nil => rfl
  | cons s more ih =>
    have other : '>' ≠ s := fun same => h (same ▸ List.mem_cons_self)
    cases cs with
    | nil => rw [joinTags_nil]; rfl
    | cons c rest =>
      by_cases same : s = c
      · subst same
        rw [joinTags_cons_of_ne other.symm, afterStart?, if_pos rfl,
          ih fun member => h (List.mem_cons_of_mem s member), afterStart?, if_pos rfl]
      · obtain ⟨tail, shape⟩ := exists_joinTags_cons c rest
        rw [shape, afterStart?, if_neg same, afterStart?, if_neg same, Option.map_none]

theorem keepsBlanks_of_head? {cs : List Char} {c : Char} (head : cs.head? = some c) (visible : isBlank c = false)
    (other : c ≠ '<') : KeepsBlanks cs := by
  cases cs with
  | nil => cases head
  | cons d rest => exact ⟨d, rest, rfl, Option.some.inj head ▸ visible, Option.some.inj head ▸ other⟩

theorem nameUntil?_joinTags {stop : Char} (visible : isBlank stop = false) (other : stop ≠ '<') (cs : List Char) :
    nameUntil? stop (joinTags cs) = (nameUntil? stop cs).map
      fun (name, rest) => (joinTags name, joinTags rest) := by
  cases found : nameUntil? stop cs with
  | none =>
    rw [Option.map_none, nameUntil?_eq_none_iff, head?_joinTags]
    rcases nameUntil?_eq_none_iff.mp found with absent | head
    · exact Or.inl fun member => absent ((joinTags_sublist cs).subset member)
    · exact Or.inr head
  | some cut =>
    obtain ⟨name, rest⟩ := cut
    obtain ⟨rfl, nonempty, free, head⟩ := nameUntil?_eq_some_iff.mp found
    rw [Option.map_some, nameUntil?_eq_some_iff]
    refine ⟨joinTags_append (keepsBlanks_of_head? head visible other) name, ?_, ?_, ?_⟩
    · intro empty
      have first := head?_joinTags name
      rw [empty] at first
      exact nonempty (List.head?_eq_none_iff.mp first.symm)
    · exact fun member => free ((joinTags_sublist name).subset member)
    · rw [head?_joinTags, head]

/-- A found name with its tags joined. -/
def NameFound.join (found : NameFound) : NameFound :=
  { found with name := joinTags found.name, rest := joinTags found.rest }

theorem findSome?_congr {α β : Type} {f g : α → Option β} {xs : List α} (h : ∀ x ∈ xs, f x = g x) :
    xs.findSome? f = xs.findSome? g := by
  induction xs with
  | nil => rfl
  | cons x rest ih =>
    rw [List.findSome?_cons, List.findSome?_cons, h x List.mem_cons_self,
      ih fun y member => h y (List.mem_cons_of_mem x member)]

/-- Joining tags neither makes nor breaks a name. -/
theorem findName?_joinTags (before : Option Char) (cs : List Char) :
    findName? before (joinTags cs) = (findName? before cs).map NameFound.join := by
  rw [findName?_eq_findSome?, findName?_eq_findSome?, List.map_findSome?]
  refine findSome?_congr fun entry member => ?_
  have plain := isPlain_of_mem_openings member
  simp only [nameAt?, Function.comp_apply]
  split
  · rw [afterStart?_joinTags plain.unclosed]
    cases afterStart? entry.2.1 cs with
    | none => rfl
    | some body =>
      simp only [Option.map_some, Option.bind_some, nameUntil?_joinTags plain.visible plain.untagged]
      cases nameUntil? entry.2.2 body <;> rfl
  · rfl

end HexAtlas
