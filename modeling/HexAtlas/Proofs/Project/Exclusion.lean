import HexAtlas.Project.Exclusion
import HexAtlas.Proofs.Project.Location
import HexAtlas.Proofs.Text.Cut

namespace HexAtlas

namespace Location

/-- A name that slashes set apart from what is around it is one of the pieces, but not the last of them. -/
theorem mem_dropLast_of_append {name before after : List Char} (unslashed : '/' ∉ name) :
    name ∈ (splitAll '/' (before ++ '/' :: (name ++ '/' :: after))).dropLast := by
  rw [splitAll_append_cons, splitAll_append_cons, splitAll_of_not_mem unslashed, ← List.append_assoc,
    List.dropLast_append_of_ne_nil (splitAll_ne_nil '/' after)]
  simp

theorem mem_dropLast_of_append_front {name after : List Char} (unslashed : '/' ∉ name) :
    name ∈ (splitAll '/' (name ++ '/' :: after)).dropLast := by
  rw [splitAll_append_cons, splitAll_of_not_mem unslashed,
    List.dropLast_append_of_ne_nil (splitAll_ne_nil '/' after)]
  simp

/-- A name that is one of the pieces of a text, but not the last, has a slash behind it and one before it unless it
stands at the front. -/
theorem mem_dropLast_splitAll_iff {name cs : List Char} (unslashed : '/' ∉ name) :
    name ∈ (splitAll '/' cs).dropLast ↔ name ++ ['/'] <+: cs ∨ '/' :: (name ++ ['/']) <:+: cs := by
  constructor
  · intro inner
    obtain ⟨front, back, before⟩ := List.append_of_mem inner
    obtain ⟨others, last, pieces⟩ := (List.eq_nil_or_concat' _).resolve_left (splitAll_ne_nil '/' cs)
    rw [pieces, List.dropLast_concat] at before
    have text : cs = joinPieces (front ++ name :: (back ++ [last])) := by
      rw [← intercalate_splitAll '/' cs, pieces, before, List.append_assoc, List.cons_append]
      rfl
    have later : joinPieces (name :: (back ++ [last])) = name ++ '/' :: joinPieces (back ++ [last]) := by
      rw [← List.singleton_append, joinPieces_append (List.cons_ne_nil name []) (by simp), joinPieces,
        List.intercalate_singleton]
    by_cases first : front = []
    · left
      rw [text, first, List.nil_append, later]
      exact ⟨_, List.append_assoc ..⟩
    · right
      rw [text, joinPieces_append first (List.cons_ne_nil _ _), later]
      exact ⟨joinPieces front, joinPieces (back ++ [last]), by simp⟩
  · rintro (⟨after, rfl⟩ | ⟨before, after, rfl⟩)
    · simpa using mem_dropLast_of_append_front unslashed
    · simpa using mem_dropLast_of_append unslashed

/-- The names that a location is written with, less the last one. -/
theorem dropLast_splitAll_joinPieces {names : List (List Char)} (unslashed : ∀ name ∈ names, '/' ∉ name) :
    (splitAll '/' (joinPieces names)).dropLast = names.dropLast := by
  by_cases empty : names = []
  · subst empty
    rfl
  · rw [joinPieces, splitAll_intercalate empty unslashed]

end Location

theorem beforeEnd?_append (tail cs : List Char) : beforeEnd? tail (cs ++ tail) = some cs := by
  rw [beforeEnd?, List.reverse_append, afterStart?_append, Option.map_some, List.reverse_reverse]

namespace Pattern

theorem accepts_through_iff {directory : List Char} (unslashed : '/' ∉ directory) (l : Location) :
    (through directory).accepts l = true ↔ directory ∈ (splitAll '/' l.text).dropLast := by
  rw [Location.mem_dropLast_splitAll_iff unslashed, accepts, Bool.or_eq_true, isSome_afterStart?_iff, contains_iff]
  rfl

theorem ofDirectory_append (directory : List Char) :
    ofDirectory (directory ++ "/*".toList) = through directory := by
  rw [ofDirectory, beforeEnd?_append]
  rfl

/-- Behind two stars, any directory will do. -/
theorem parse_anywhere (directory : List Char) :
    parse ("**/".toList ++ (directory ++ "/*".toList)) = through directory := by
  rw [parse, afterStart?_append]
  exact ofDirectory_append directory

/-- A name that is not the two stars themselves asks for the directory of that name. Other stars in it do not
count. -/
theorem parse_directory {directory : List Char} (unslashed : '/' ∉ directory) (other : directory ≠ "**".toList) :
    parse (directory ++ "/*".toList) = through directory := by
  have start : afterStart? "**/".toList (directory ++ "/*".toList) = none := by
    rw [afterStart?_eq_none_iff]
    rintro ⟨rest, shape⟩
    -- both sides are cut at their first slash
    have cut := congrArg (cutAt? '/') shape
    rw [show "**/".toList ++ rest = "**".toList ++ '/' :: rest from rfl, cutAt?_append (by decide),
      show directory ++ "/*".toList = directory ++ '/' :: ['*'] from rfl, cutAt?_append unslashed] at cut
    exact other (congrArg Prod.fst (Option.some.inj cut)).symm
  have slashed : (directory ++ "/*".toList).contains '/' = true := by simp
  rw [parse, start]
  simp only [slashed, if_true]
  cases afterStart? ['*'] (directory ++ "/*".toList) <;> exact ofDirectory_append directory

end Pattern

/-- Where the names of a location may start: nowhere in particular, at the root, or here. -/
inductive IsFront (directory : String) : List Char → Prop
  | bare : IsFront directory []
  | root : IsFront directory ['/']
  /-- The dot is a piece of its own, which may not be the one that is asked for. -/
  | here (other : directory ≠ ".") : IsFront directory ['.', '/']

/-- A front adds no piece with the name that is asked for. -/
theorem IsFront.mem_dropLast_iff {directory : String} {front : List Char} (h : IsFront directory front)
    (filled : directory ≠ "") (cs : List Char) :
    directory.toList ∈ (splitAll '/' (front ++ cs)).dropLast ↔ directory.toList ∈ (splitAll '/' cs).dropLast := by
  have more := splitAll_ne_nil '/' cs
  cases h with
  | bare => rfl
  | root =>
    have pieces : splitAll '/' ('/' :: cs) = [[]] ++ splitAll '/' cs := splitAll_append_cons '/' [] cs
    have own : directory.toList ≠ [] := fun same => filled (String.toList_inj.mp same)
    rw [List.singleton_append, pieces, List.dropLast_append_of_ne_nil more]
    simp [own]
  | here other =>
    have pieces : splitAll '/' ('.' :: '/' :: cs) = [['.']] ++ splitAll '/' cs := splitAll_append_cons '/' ['.'] cs
    have own : directory.toList ≠ ['.'] := fun same => other (String.toList_inj.mp same)
    rw [List.cons_append, List.singleton_append, pieces, List.dropLast_append_of_ne_nil more]
    simp [own]

theorem isExcluded_iff_exists (patterns : List String) (l : Location) :
    isExcluded patterns l = true ↔ ∃ pattern ∈ patterns, isExcluded [pattern] l = true := by
  simp [isExcluded]

/-- A pattern for a directory, with or without stars in front, keeps out the locations with a directory of that name
on the way to their last name, wherever the location starts; and several patterns keep out what each of them
does. -/
theorem isExcluded_directory_iff {directory : String} {front : List Char} {names : List (List Char)}
    (filled : directory ≠ "") (unslashed : '/' ∉ directory.toList) (other : directory ≠ "**")
    (start : IsFront directory front) (named : ∀ name ∈ names, name ≠ [] ∧ '/' ∉ name) :
    let l : Location := ⟨front ++ Location.joinPieces names⟩
    (isExcluded [directory ++ "/*"] l = true ↔ directory.toList ∈ names.dropLast) ∧
      (isExcluded ["**/" ++ directory ++ "/*"] l = true ↔ directory.toList ∈ names.dropLast) ∧
      ∀ patterns, isExcluded patterns l = true ↔ ∃ pattern ∈ patterns, isExcluded [pattern] l = true := by
  intro l
  have accepted : (Pattern.through directory.toList).accepts l = true ↔ directory.toList ∈ names.dropLast := by
    rw [Pattern.accepts_through_iff unslashed, start.mem_dropLast_iff filled,
      Location.dropLast_splitAll_joinPieces fun name member => (named name member).2]
  have plain : Pattern.parse (directory ++ "/*").toList = .through directory.toList := by
    rw [String.toList_append]
    exact Pattern.parse_directory unslashed fun same => other (String.toList_inj.mp same)
  have starred : Pattern.parse ("**/" ++ directory ++ "/*").toList = .through directory.toList := by
    rw [String.toList_append, String.toList_append, List.append_assoc]
    exact Pattern.parse_anywhere directory.toList
  refine ⟨?_, ?_, fun patterns => isExcluded_iff_exists patterns l⟩
  · simp only [isExcluded, List.any_cons, List.any_nil, Bool.or_false, plain, accepted]
  · simp only [isExcluded, List.any_cons, List.any_nil, Bool.or_false, starred, accepted]

/-- The directory `old` is on the way, its longer neighbour `older` and a file `old` are not it. -/
theorem isExcluded_directory_iff_old :
    IsFront "old" ['.', '/'] ∧ isExcluded ["old/*"] ⟨"./maps/old/old.map".toList⟩ = true ∧
      isExcluded ["**/old/*"] ⟨"./maps/older/old".toList⟩ = false := by
  have here : IsFront "old" ['.', '/'] := .here (by decide)
  have named : ∀ name ∈ ["maps".toList, "old".toList, "old.map".toList], name ≠ [] ∧ '/' ∉ name := by decide
  have named' : ∀ name ∈ ["maps".toList, "older".toList, "old".toList], name ≠ [] ∧ '/' ∉ name := by decide
  have inside := isExcluded_directory_iff (by decide) (by decide) (by decide) here named
  have outside := isExcluded_directory_iff (by decide) (by decide) (by decide) here named'
  exact ⟨here, inside.1.mpr (by decide), Bool.eq_false_iff.mpr (outside.2.1.not.mpr (by decide))⟩

end HexAtlas
