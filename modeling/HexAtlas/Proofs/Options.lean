import HexAtlas.Proofs.Binary.Reading
import HexAtlas.Proofs.Chart.Content
import HexAtlas.Proofs.Options.Centre
import HexAtlas.Proofs.Text.Cut
import HexAtlas.Proofs.Text.Lowercase
import Mathlib.Data.List.DropRight

namespace HexAtlas

/-- Blanks behind the last word do not count. -/
theorem words_append_blank {gap : List Char} (blank : ∀ c ∈ gap, isBlank c = true) (cs : List Char) :
    words (cs ++ gap) = words cs := by
  induction length : cs.length using Nat.strongRecOn generalizing cs with
  | ind n ih =>
    obtain ⟨front, body, rfl, before, solid⟩ := exists_run isBlank cs
    rw [List.append_assoc, words_gap before, words_gap before]
    obtain ⟨token, rest, rfl, visible, stop⟩ := exists_run (!isBlank ·) body
    have visible' : ∀ c ∈ token, isBlank c = false := fun c member => by simpa using visible c member
    cases token with
    | nil =>
      -- the first character behind the blanks would have to be a blank and none
      cases rest with
      | nil => simpa [words_nil] using words_gap blank []
      | cons c more => simpa [solid c rfl] using stop c rfl
    | cons d more =>
      have ends : EndsWord rest := fun c atHead => by simpa using stop c atHead
      have ends' : EndsWord (rest ++ gap) := by
        intro c atHead
        cases rest with
        | nil => exact blank c (List.mem_of_head? atHead)
        | cons e others => exact ends c atHead
      have shorter : rest.length < n := by
        simp only [List.length_append, List.length_cons] at length
        omega
      rw [List.append_assoc, words_append visible' (List.cons_ne_nil _ _) ends',
        words_append visible' (List.cons_ne_nil _ _) ends, ih _ shorter rest rfl]

theorem exists_append_trimEnd (cs : List Char) : ∃ gap, cs = trimEnd cs ++ gap ∧ ∀ c ∈ gap, isBlank c = true := by
  obtain ⟨run, rest, whole, blank, solid⟩ := exists_run isBlank cs.reverse
  have kept : trimEnd cs = rest.reverse := by
    rw [trimEnd, whole, List.dropWhile_append_of_pos blank, dropWhile_eq_self solid]
  refine ⟨run.reverse, ?_, fun c member => blank c (List.mem_reverse.mp member)⟩
  rw [kept, ← List.reverse_append, ← whole, List.reverse_reverse]

theorem words_trimEnd (cs : List Char) : words (trimEnd cs) = words cs := by
  obtain ⟨gap, whole, blank⟩ := exists_append_trimEnd cs
  conv => rhs; rw [whole]
  exact (words_append_blank blank _).symm

theorem words_trim (cs : List Char) : words (trim cs) = words cs := by
  obtain ⟨gap, rest, rfl, blank, solid⟩ := exists_run isBlank cs
  rw [trim, words_trimEnd, trimStart_gap blank solid, words_gap blank]

/-- Blanks at the end of a text are behind its last visible character. -/
theorem trimEnd_append {front : List Char} {c : Char} (last : front.getLast? = some c) (visible : isBlank c = false)
    (cs : List Char) : trimEnd (front ++ cs) = front ++ trimEnd cs := by
  have kept : front.reverse.dropWhile isBlank = front.reverse :=
    dropWhile_eq_self fun d atHead => by
      rw [List.head?_reverse, last] at atHead
      cases atHead
      exact visible
  rw [trimEnd, trimEnd, List.reverse_append, List.dropWhile_append]
  split
  · rename_i none
    rw [List.isEmpty_iff.mp none, kept, List.reverse_reverse, List.reverse_nil, List.append_nil]
  · rw [List.reverse_append, List.reverse_reverse]

namespace Setting

/-- The words that give a factor: the first one is a decimal number, and the nearest number of the format is finite
and positive. What comes behind it does not count. -/
inductive IsFactor : List (List Char) → Double → Prop
  | intro {word : List Char} {q : ℚ} {factor : Double} (number : DecimalText word q)
    (nearest : Binary.Rounds factor q) (positive : 0 < factor.value)
    (more : List (List Char)) : IsFactor (word :: more) factor

theorem factor?_eq_some_iff {args : List (List Char)} {factor : Double} :
    factor? args = some factor ↔ IsFactor args factor := by
  have zero : (0 : Double).isFinite ∧ (0 : Double).value = 0 := by decide +kernel
  have positive {x : Double} (finite : x.isFinite) : 0 < x ↔ 0 < x.value := by
    rw [Binary.lt_iff_value_lt zero.1 finite, zero.2]
  constructor
  · intro found
    obtain ⟨word, atHead, found⟩ := Option.bind_eq_some_iff.mp found
    obtain ⟨more, rfl⟩ := List.head?_eq_some_iff.mp atHead
    obtain ⟨x, read, found⟩ := Option.bind_eq_some_iff.mp found
    simp only [Option.ite_none_right_eq_some, Bool.and_eq_true, decide_eq_true_eq, Option.some.injEq] at found
    obtain ⟨⟨finite, above⟩, rfl⟩ := found
    have above := (positive finite).mp above
    obtain ⟨q, number, nearest⟩ := (readDouble?_eq_some_iff above.ne').mp read
    exact .intro number nearest above more
  · rintro ⟨number, nearest, above, more⟩
    have read := (readDouble?_eq_some_iff above.ne').mpr ⟨_, number, nearest⟩
    simp [factor?, read, nearest.finite, (positive nearest.finite).mpr above]

/-- The keys of option lines. -/
inductive Key where
  | horizontal
  | swapEvenOdd
  | global
  | coordinatesFormat
  | centeredAt
  | theme
  | zoom
deriving DecidableEq, Repr

namespace Key

def ofName? : String → Option Key
  | "horizontal" => some horizontal
  | "swap-even-odd" => some swapEvenOdd
  | "global" => some global
  | "coordinates-format" => some coordinatesFormat
  | "centered-at" => some centeredAt
  | "theme" => some theme
  | "zoom" => some zoom
  | _ => none

/-- What a key and the words behind it set. -/
def setting? (args : List (List Char)) : Key → Option Setting
  | horizontal => some .horizontal
  | swapEvenOdd => some .swapEvenOdd
  | global => some .global
  | coordinatesFormat => some (.coordinatesFormat (String.ofList ([' '].intercalate args)))
  | centeredAt => some (.centeredAt (centre? args))
  | theme => args.head?.map fun name => .theme (String.ofList (lowercase name))
  | zoom => some (.zoom (factor? args))

end Key

/-- The key of an option line, and the words behind it. -/
def keyed? (line : List Char) : Option (Key × List (List Char)) :=
  match words line with
  | first :: name :: args =>
    if first = "option".toList ∧ first <+: line then (Key.ofName? (String.ofList name)).map fun key => (key, args)
    else none
  | _ => none

/-- The words behind a key, on a line with that key. -/
def args? (key : Key) (line : List Char) : Option (List (List Char)) :=
  match keyed? line with
  | some (found, args) => if found = key then some args else none
  | none => none

def hasKey (key : Key) (line : List Char) : Bool := (args? key line).isSome

theorem parse?_eq (argument : List Char) :
    parse? argument = match words argument with
      | [] => none
      | name :: args => (Key.ofName? (String.ofList name)).bind (Key.setting? args) := by
  unfold parse?
  cases words argument with
  | nil => rfl
  | cons name args =>
    simp only [Key.ofName?]
    split <;> simp_all [Key.setting?]

theorem argument?_option (cs : List Char) : argument? ("option".toList ++ cs) =
    if cs.head?.any isBlank then some (trim cs) else none := by
  unfold argument?
  rw [afterStart?_append]
  cases cs <;> rfl

/-- The keyword stands by itself, so a blank or nothing comes behind it. -/
theorem keyed?_option {cs : List Char} (ends : EndsWord cs) : keyed? ("option".toList ++ cs) =
    match words cs with
    | [] => none
    | name :: args => (Key.ofName? (String.ofList name)).map fun key => (key, args) := by
  unfold keyed?
  rw [words_append (all_visible_iff.mp (by decide)) (by decide) ends]
  cases words cs with
  | nil => rfl
  | cons name args => exact if_pos ⟨rfl, List.prefix_append _ _⟩

theorem keyed?_of_longer {cs : List Char} {c : Char} (atHead : cs.head? = some c) (visible : isBlank c = false) :
    keyed? ("option".toList ++ cs) = none := by
  obtain ⟨more, rfl⟩ := List.head?_eq_some_iff.mp atHead
  obtain ⟨token, rest, rfl, solid, stop⟩ := exists_run (!isBlank ·) more
  have inside : ∀ d ∈ "option".toList ++ c :: token, isBlank d = false := by
    intro d member
    rcases List.mem_append.mp member with keyword | later
    · have letters : ∀ d ∈ "option".toList, isBlank d = false := all_visible_iff.mp (by decide)
      exact letters d keyword
    · rcases List.mem_cons.mp later with rfl | behind
      · exact visible
      · simpa using solid d behind
  have ends : EndsWord rest := fun d atHead => by simpa using stop d atHead
  have cut : "option".toList ++ c :: (token ++ rest) = ("option".toList ++ c :: token) ++ rest := by simp
  unfold keyed?
  rw [cut, words_append inside (by simp) ends]
  split
  · rename_i found
    obtain ⟨rfl, -⟩ := List.cons.inj found
    exact if_neg (by simp)
  · rfl

/-- A line is read by its words. -/
theorem settingOf?_eq (line : List Char) :
    settingOf? line = (keyed? line).bind fun (key, args) => key.setting? args := by
  unfold settingOf? ofLine?
  simp only
  cases start : afterStart? "option".toList line with
  | none =>
    have other := afterStart?_eq_none_iff.mp start
    have other' : ¬ "option".toList <+: trimEnd line := by
      obtain ⟨gap, whole, -⟩ := exists_append_trimEnd line
      exact fun within => other (whole ▸ within.trans (List.prefix_append _ _))
    have unread : argument? (trimEnd line) = none := by
      unfold argument?
      rw [afterStart?_eq_none_iff.mpr other']
      rfl
    have unkeyed : keyed? line = none := by
      unfold keyed?
      split
      · refine if_neg ?_
        rintro ⟨rfl, within⟩
        exact other within
      · rfl
    rw [unread, unkeyed]
    simp
  | some rest =>
    obtain rfl := eq_append_of_afterStart? start
    have trimmed : trimEnd ("option".toList ++ rest) = "option".toList ++ trimEnd rest :=
      trimEnd_append (c := 'n') rfl (by decide) rest
    have spoken : isComment ("option".toList ++ trimEnd rest) = false := rfl
    rw [trimmed, spoken, if_neg Bool.false_ne_true, argument?_option]
    obtain ⟨gap, whole, blank⟩ := exists_append_trimEnd rest
    have kept : trimEnd rest ≠ [] → (trimEnd rest).head? = rest.head? := by
      intro filled
      conv => rhs; rw [whole]
      exact (List.head?_append_of_ne_nil _ filled).symm
    by_cases ends : EndsWord rest
    · rw [keyed?_option ends, ← words_trimEnd]
      by_cases none : trimEnd rest = []
      · rw [none, words_nil]
        rfl
      · obtain ⟨c, more, shape⟩ := List.exists_cons_of_ne_nil none
        have atHead : (trimEnd rest).head? = some c := by rw [shape]; rfl
        have separated := ends c (kept none ▸ atHead)
        rw [atHead, Option.any_some, separated, if_pos rfl, Option.bind_eq_bind, Option.bind_some, parse?_eq,
          words_trim]
        cases words (trimEnd rest) with
        | nil => rfl
        | cons name args => rw [Option.bind_map]; rfl
    · unfold EndsWord at ends
      push Not at ends
      obtain ⟨c, atHead, visible⟩ := ends
      have visible := Bool.eq_false_iff.mpr visible
      have filled : trimEnd rest ≠ [] := by
        intro none
        rw [none, List.nil_append] at whole
        rw [whole] at atHead
        rw [blank c (List.mem_of_head? atHead)] at visible
        cases visible
      rw [keyed?_of_longer atHead visible, kept filled, atHead, Option.any_some, visible]
      rfl

/-- The key that a setting belongs to. -/
def key : Setting → Key
  | horizontal => .horizontal
  | swapEvenOdd => .swapEvenOdd
  | global => .global
  | coordinatesFormat _ => .coordinatesFormat
  | centeredAt _ => .centeredAt
  | theme _ => .theme
  | zoom _ => .zoom

/-- Words behind a key never set another key. -/
theorem filter_setting? (found key : Key) (args : List (List Char)) :
    (found.setting? args).filter (·.key = key) = if found = key then found.setting? args else none := by
  cases found with
  | theme =>
    cases args with
    | nil => exact (ite_self none).symm
    | cons name more => cases key <;> rfl
  | _ => cases key <;> rfl

end Setting

open Setting (Key)

namespace Options

/-- The initial options but for one key. -/
def only (o : Options) : Key → Options
  | .horizontal => { initial with horizontal := o.horizontal }
  | .swapEvenOdd => { initial with swapEvenOdd := o.swapEvenOdd }
  | .global => { initial with global := o.global }
  | .coordinatesFormat => { initial with coordinatesFormat := o.coordinatesFormat }
  | .centeredAt => { initial with centeredAt := o.centeredAt }
  | .theme => { initial with theme := o.theme }
  | .zoom => { initial with zoom := o.zoom }

theorem only_initial (key : Key) : initial.only key = initial := by
  cases key <;> rfl

/-- A setting of a key is a setting of that key alone. -/
theorem apply_only (o : Options) (s : Setting) : (o.only s.key).apply s = (o.apply s).only s.key := by
  cases s <;> rfl

theorem only_apply {s : Setting} {key : Key} (other : s.key ≠ key) (o : Options) :
    (o.apply s).only key = o.only key := by
  cases s <;> cases key <;> first | rfl | exact absurd rfl other

/-- Settings of other keys make no difference. -/
theorem foldl_only (key : Key) (settings : List Setting) (o : Options) :
    (settings.filter (·.key = key)).foldl apply (o.only key) = (settings.foldl apply o).only key := by
  induction settings generalizing o with
  | nil => rfl
  | cons s rest ih =>
    rw [List.foldl_cons, ← ih]
    by_cases own : s.key = key
    · subst own
      rw [List.filter_cons_of_pos (by simp), List.foldl_cons, apply_only]
    · rw [List.filter_cons_of_neg (by simpa using own), only_apply own]

end Options

open Setting

/-- The words behind a key on the lines with that key, in their order. -/
def arguments (key : Key) (source : List (List Char)) : List (List (List Char)) := source.filterMap (args? key)

/-- The words behind a key have no blanks, as all words. -/
theorem isBlank_of_mem_arguments {key : Key} {source : List (List Char)} {args : List (List Char)}
    {word : List Char}
    (listed : args ∈ arguments key source) (member : word ∈ args) : ∀ c ∈ word, isBlank c = false := by
  obtain ⟨line, -, given⟩ := List.mem_filterMap.mp listed
  obtain ⟨first, name, cut⟩ : ∃ first name, words line = first :: name :: args := by
    unfold args? keyed? at given
    split at given
    · rename_i found behind named
      split at named
      · rename_i first name more cut
        simp only [Option.ite_none_right_eq_some, Option.map_eq_some_iff, Option.some.injEq,
          Prod.mk.injEq] at named given
        obtain ⟨-, key, -, rfl, rfl⟩ := named
        obtain ⟨-, rfl⟩ := given
        exact ⟨first, name, cut⟩
      · cases named
    · cases given
  exact isBlank_of_mem_words (cut ▸ List.mem_cons_of_mem _ (List.mem_cons_of_mem _ member))

theorem any_hasKey (key : Key) (source : List (List Char)) :
    source.any (hasKey key) = !(arguments key source).isEmpty := by
  induction source with
  | nil => rfl
  | cons line rest ih =>
    rw [List.any_cons, arguments, hasKey]
    cases given : args? key line with
    | none =>
      rw [List.filterMap_cons_none given]
      exact ih
    | some args =>
      rw [List.filterMap_cons_some given]
      rfl

/-- The settings that the lines with a key give. -/
theorem filterMap_settingOf?_hasKey (key : Key) (source : List (List Char)) :
    (source.filter (hasKey key)).filterMap settingOf? = (source.filterMap settingOf?).filter (·.key = key) := by
  rw [List.filterMap_filter, List.filter_filterMap]
  refine List.filterMap_congr fun line _ => ?_
  unfold hasKey args?
  rw [settingOf?_eq]
  cases keyed? line with
  | none => rfl
  | some found =>
    rw [Option.bind_some, filter_setting?]
    by_cases own : found.1 = key
    · simp only [if_pos own, Option.isSome_some, if_true]
    · simp only [if_neg own, Option.isSome_none, Bool.false_eq_true, if_false]

/-- A part of the settings that only one key sets is read off the lines with that key. -/
theorem filterMap_settingOf?_eq {α : Type} {part : Setting → Option α} {value : List (List Char) → Option α}
    {key : Key} (own : ∀ found args, (Key.setting? args found).bind part = if found = key then value args else none)
    (source : List (List Char)) :
    (source.filterMap settingOf?).filterMap part = (arguments key source).filterMap value := by
  rw [List.filterMap_filterMap, arguments, List.filterMap_filterMap]
  refine List.filterMap_congr fun line _ => ?_
  unfold args?
  rw [settingOf?_eq]
  cases keyed? line with
  | none => rfl
  | some found =>
    rw [Option.bind_some, own]
    simp only
    split <;> rfl

namespace Options

/-- Of the lines with a key the last one that sets it counts. -/
theorem readOptions_eq_last {α : Type} (view : Options → α) (part : Setting → Option α)
    (value : List (List Char) → Option α) (key : Key)
    (set : ∀ o s, some (view (apply o s)) = (part s).or (some (view o)))
    (own : ∀ found args, (Key.setting? args found).bind part = if found = key then value args else none)
    (source : List (List Char)) :
    view (readOptions source) = ((arguments key source).filterMap value).getLast?.getD (view initial) := by
  have last := foldl_of_set (fun o => some (view o)) set (source.filterMap settingOf?) initial
  rw [filterMap_settingOf?_eq own, Option.or_some] at last
  exact Option.some.inj last

/-- A key without a value is set by any line with it. -/
theorem readOptions_eq_any (view : Options → Bool) (part : Setting → Option Bool) (key : Key)
    (unset : view initial = false) (set : ∀ o s, some (view (apply o s)) = (part s).or (some (view o)))
    (own : ∀ found args, (Key.setting? args found).bind part = if found = key then some true else none)
    (source : List (List Char)) : view (readOptions source) = source.any (hasKey key) := by
  rw [readOptions_eq_last view part (fun _ => some true) key set own, unset, any_hasKey, List.filterMap_eq_map',
    List.getLast?_map]
  cases lines : arguments key source with
  | nil => rfl
  | cons args rest =>
    rw [List.getLast?_cons]
    rfl

theorem readOptions_centeredAt (source : List (List Char)) :
    (readOptions source).centeredAt = (arguments .centeredAt source).getLast?.bind centre? := by
  have last := readOptions_eq_last (·.centeredAt) (fun | .centeredAt cell => some cell | _ => none)
    (fun args => some (centre? args)) .centeredAt (fun o s => by cases s <;> rfl)
    (fun found args => by cases found <;> cases args <;> rfl) source
  rw [last, List.filterMap_eq_map', List.getLast?_map]
  cases (arguments .centeredAt source).getLast? <;> rfl

theorem readOptions_theme (source : List (List Char)) : (readOptions source).theme =
    ((arguments .theme source).filterMap List.head?).getLast?.map fun name => String.ofList (lowercase name) := by
  have last := readOptions_eq_last (·.theme) (fun | .theme name => some (some name) | _ => none)
    (fun args => args.head?.map fun name => some (String.ofList (lowercase name))) .theme
    (fun o s => by cases s <;> rfl) (fun found args => by cases found <;> cases args <;> rfl) source
  rw [last, ← List.map_filterMap, List.getLast?_map]
  cases ((arguments .theme source).filterMap List.head?).getLast? <;> rfl

theorem readOptions_zoom (source : List (List Char)) :
    (readOptions source).zoom = (arguments .zoom source).getLast?.bind factor? := by
  have last := readOptions_eq_last (·.zoom) (fun | .zoom factor => some factor | _ => none)
    (fun args => some (factor? args)) .zoom (fun o s => by cases s <;> rfl)
    (fun found args => by cases found <;> cases args <;> rfl) source
  rw [last, List.filterMap_eq_map', List.getLast?_map]
  cases (arguments .zoom source).getLast? <;> rfl

/-- The options `o` that the lines of a source give, key by key. -/
structure KeyedBy (source : List (List Char)) (o : Options) : Prop where
  horizontal : o.horizontal = source.any (hasKey .horizontal)
  swapEvenOdd : o.swapEvenOdd = source.any (hasKey .swapEvenOdd)
  global : o.global = source.any (hasKey .global)
  coordinatesFormat : o.coordinatesFormat = match (arguments .coordinatesFormat source).getLast? with
    | some args => String.ofList ([' '].intercalate args)
    | none => "\x7bX\x7d\x7bY\x7d"
  /-- Words that are no cell take back what an earlier line set. -/
  centeredAt : ∀ cell, o.centeredAt = some cell ↔
    ∃ args, (arguments .centeredAt source).getLast? = some args ∧ IsCentre args cell
  /-- A line without a name does not count. -/
  theme : o.theme = ((arguments .theme source).filterMap List.head?).getLast?.map fun name =>
    String.ofList (lowercase name)
  /-- Letters of the alphabet become small ones of it. -/
  themeLetters : ∀ name ∈ ((arguments .theme source).filterMap List.head?).getLast?, (∀ c ∈ name, c.toNat < 128) →
    o.theme = some (String.ofList (name.map Char.toLower))
  /-- A word that is no positive number takes back what an earlier line set. -/
  zoom : ∀ factor, o.zoom = some factor ↔
    ∃ args, (arguments .zoom source).getLast? = some args ∧ IsFactor args factor
  /-- Lines with another key make no difference to a key. -/
  alone : ∀ key, readOptions (source.filter (hasKey key)) = o.only key

theorem keyedBy_readOptions (source : List (List Char)) : KeyedBy source (readOptions source) where
  horizontal := by
    refine readOptions_eq_any (·.horizontal) (fun | .horizontal => some true | _ => none) _ rfl ?_ ?_ source
    · intro o s
      cases s <;> rfl
    · intro found args
      cases found <;> cases args <;> rfl
  swapEvenOdd := by
    refine readOptions_eq_any (·.swapEvenOdd) (fun | .swapEvenOdd => some true | _ => none) _ rfl ?_ ?_ source
    · intro o s
      cases s <;> rfl
    · intro found args
      cases found <;> cases args <;> rfl
  global := by
    refine readOptions_eq_any (·.global) (fun | .global => some true | _ => none) _ rfl ?_ ?_ source
    · intro o s
      cases s <;> rfl
    · intro found args
      cases found <;> cases args <;> rfl
  coordinatesFormat := by
    have last :=
      readOptions_eq_last (·.coordinatesFormat) (fun | .coordinatesFormat template => some template | _ => none)
      (fun args => some (String.ofList ([' '].intercalate args))) .coordinatesFormat (fun o s => by cases s <;> rfl)
      (fun found args => by cases found <;> cases args <;> rfl) source
    rw [last, List.filterMap_eq_map', List.getLast?_map]
    cases (arguments .coordinatesFormat source).getLast? <;> rfl
  centeredAt := fun cell => by
    simp only [readOptions_centeredAt, Option.bind_eq_some_iff, centre?_eq_some_iff]
  theme := readOptions_theme source
  themeLetters := fun name last ascii => by
    rw [readOptions_theme, last, Option.map_some, lowercase_of_isAscii ascii]
  zoom := fun factor => by
    simp only [readOptions_zoom, Option.bind_eq_some_iff, factor?_eq_some_iff]
  alone := fun key => by
    rw [readOptions, readOptions, filterMap_settingOf?_hasKey, ← foldl_only, only_initial]

end Options

/-- The options of a map are determined key by key by the lines of its source, and its grid is the one that they
describe. -/
theorem Chart.keyedBy_options_compile (instanceName : String) (source : List (List Char)) :
    (readOptions source).KeyedBy source ∧ (compile instanceName source).options = readOptions source ∧
      (compile instanceName source).orientation =
        ⟨if source.any (hasKey .horizontal) then .horizontal else .vertical, source.any (hasKey .swapEvenOdd)⟩ := by
  have keyed := Options.keyedBy_readOptions source
  have options := options_compile instanceName source
  refine ⟨keyed, options, ?_⟩
  rw [orientation, options, ← keyed.horizontal, ← keyed.swapEvenOdd]
  rfl

/-- Of two zooms the last one counts, also if it is no number. -/
example : (readOptions ["option zoom 2".toList, "option global".toList, "option zoom far".toList]).zoom = none := by
  decide +kernel

end HexAtlas
