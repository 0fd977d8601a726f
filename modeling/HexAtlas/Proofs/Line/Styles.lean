import HexAtlas.Proofs.Attributes
import HexAtlas.Proofs.Line.Shapes

namespace HexAtlas

/-- A keyword is found exactly in the lines whose first word it is. -/
theorem keyword?_eq {name : String} (solid : name.toList.all (!isBlank ·) = true) (cs : List Char) :
    keyword? name cs = if (word cs).1 = name.toList then some (trim (word cs).2) else none := by
  have whole : (word cs).1 ++ (word cs).2 = cs := List.takeWhile_append_dropWhile
  split
  · rename_i same
    have ends : (word cs).2 = [] ∨ startsBlank (word cs).2 = true := by
      cases tail : (word cs).2 with
      | nil => exact Or.inl rfl
      | cons c rest =>
        have blank := List.head?_dropWhile_not (!isBlank ·) cs
        rw [show cs.dropWhile (!isBlank ·) = c :: rest from tail] at blank
        exact Or.inr (by simpa [startsBlank] using blank)
    rw [same] at whole
    rw [keyword?, ← whole, afterStart?_append, whole]
    simpa using ends.resolve_left
  · rename_i other
    cases found : afterStart? name.toList cs with
    | none => simp [keyword?, found]
    | some rest =>
      have shape := eq_append_of_afterStart? found
      have inside : ¬ (rest = [] ∨ startsBlank rest = true) := by
        intro ends
        have stops : EndsWord rest := by
          intro c atHead
          rcases ends with rfl | blank
          · cases atHead
          · simpa [startsBlank, atHead] using blank
        exact other (by rw [shape, word_append (all_visible_iff.mp solid) stops])
      simp [keyword?, found, inside]

/-- The name of a line that styles: one word that neither a cell nor markup starts with. -/
structure IsStyleName (name : List Char) : Prop where
  nonempty : name ≠ []
  visible : ∀ c ∈ name, isBlank c = false
  start : name.head?.all (fun c => !isDigit c && c ≠ '<') = true

instance (name : List Char) : Decidable (IsStyleName name) :=
  decidable_of_iff (name ≠ [] ∧ name.all (!isBlank ·) = true ∧
      name.head?.all (fun c => !isDigit c && c ≠ '<') = true)
    ⟨fun ⟨nonempty, visible, start⟩ => ⟨nonempty, all_visible_iff.mp visible, start⟩,
      fun ⟨nonempty, visible, start⟩ => ⟨nonempty, all_visible_iff.mpr visible, start⟩⟩

variable {name : List Char} {key : String} {cs : List Char}

theorem endsWord_space (cs : List Char) : EndsWord (' ' :: cs) := by
  rintro c ⟨⟩
  rfl

theorem isGap_space : IsGap [' '] := isGap_of_all rfl

theorem trim_space (cs : List Char) : trim (' ' :: cs) = trim cs := by
  rw [trim, trim, ← List.singleton_append, trimStart_append isGap_space.blank]

/-- The first word of a line and the keyword that is sought behind it. -/
theorem named?_append (own : IsStyleName name) (first : cs.head?.all (!isBlank ·) = true) :
    named? key (name ++ ' ' :: cs) = (keyword? key cs).map fun rest => (String.ofList name, rest) := by
  have start : trimStart (' ' :: cs) = cs :=
    trimStart_gap isGap_space.blank fun c atHead => by simpa [atHead] using first
  rw [named?, word_append own.visible (endsWord_space cs)]
  simp [own.nonempty, start]

theorem keyword?_append (solid : key.toList.all (!isBlank ·) = true) (cs : List Char) :
    keyword? key (key.toList ++ ' ' :: cs) = some (trim cs) := by
  rw [keyword?_eq solid, word_append (all_visible_iff.mp solid) (endsWord_space cs), if_pos rfl, trim_space]

theorem keyword?_append_of_ne (solid : key.toList.all (!isBlank ·) = true)
    (visible : name.all (!isBlank ·) = true) (other : name ≠ key.toList) (cs : List Char) :
    keyword? key (name ++ ' ' :: cs) = none := by
  rw [keyword?_eq solid, word_append (all_visible_iff.mp visible) (endsWord_space cs), if_neg other]

namespace Attributes

variable {pairs : List (String × String)}

theorem exists_print_eq (pair : String × String) (more : List (String × String)) :
    ∃ tail, print (pair :: more) = pair.1.toList ++ '=' :: tail := by
  cases more with
  | nil => exact ⟨_, by simp [print, printPair]; rfl⟩
  | cons next rest => exact ⟨_, by simp [print, printPair]; rfl⟩

theorem getLast?_print (pair : String × String) (more : List (String × String)) :
    (print (pair :: more)).getLast? = some '"' := by
  induction more generalizing pair with
  | nil =>
    have shape : print [pair] = (pair.1.toList ++ "=\"".toList ++ pair.2.toList) ++ ['"'] := by
      simp [print, printPair]
    rw [shape, List.getLast?_concat]
  | cons next rest ih =>
    have later := ih next
    simp only [print, List.map_cons, List.intercalate_cons_cons] at later ⊢
    rw [List.getLast?_append, later, Option.some_or]

theorem head?_print (sound : ∀ pair ∈ pairs, Writable pair) : (print pairs).head?.all (!isBlank ·) = true := by
  cases pairs with
  | nil => rfl
  | cons pair more =>
    have own := sound pair List.mem_cons_self
    obtain ⟨tail, shape⟩ := exists_print_eq pair more
    obtain ⟨c, rest, key⟩ := List.exists_cons_of_ne_nil own.nonempty
    rw [shape, key]
    simpa using own.visible c (key ▸ List.mem_cons_self)

theorem trim_print (sound : ∀ pair ∈ pairs, Writable pair) : trim (print pairs) = print pairs := by
  refine trim_eq_self (head?_print sound) ?_
  cases pairs with
  | nil => rfl
  | cons pair more =>
    rw [getLast?_print]
    rfl

/-- The first word of some pairs is no keyword, as it has a sign of equality. -/
theorem keyword?_print (sound : ∀ pair ∈ pairs, Writable pair) {key : String}
    (solid : key.toList.all (!isBlank ·) = true) (filled : key.toList ≠ []) (plain : '=' ∉ key.toList) :
    keyword? key (print pairs) = none := by
  rw [keyword?_eq solid, if_neg]
  cases pairs with
  | nil => exact Ne.symm filled
  | cons pair more =>
    obtain ⟨tail, shape⟩ := exists_print_eq pair more
    rw [shape, word_fst_append (sound pair List.mem_cons_self).visible]
    intro same
    refine plain (same ▸ List.mem_append_right _ ?_)
    exact List.mem_cons_self

end Attributes

namespace Line

theorem recognize?_of_not_digit {line : List Char} (start : line.head?.any isDigit = false) :
    recognize? line = (fill? line <|> definition? line <|> shape? line <|> letters? line) := by
  have started : ¬ ∃ c, line.head? = some c ∧ isDigit c = true := by
    rintro ⟨c, atHead, digit⟩
    rw [atHead, Option.any_some, digit] at start
    cases start
  have region : Region.parse? line = none := by
    cases read : Region.parse? line with
    | none => rfl
    | some r => exact absurd (Region.digit_of_parse? read) started
  have path : PathLine.parse? line = none := by
    cases read : PathLine.parse? line with
    | none => rfl
    | some p => exact absurd (PathLine.digit_of_parse? read) started
  simp [recognize?, region, path]

theorem recognize?_named (own : IsStyleName name) (cs : List Char) :
    recognize? (name ++ cs) = (fill? (name ++ cs) <|> shape? (name ++ cs) <|> letters? (name ++ cs)) := by
  obtain ⟨c, rest, rfl⟩ := List.exists_cons_of_ne_nil own.nonempty
  have start := own.start
  simp only [List.head?_cons, Option.all_some, Bool.and_eq_true, Bool.not_eq_true', decide_eq_true_eq] at start
  have markup : definition? (c :: rest ++ cs) = none := by simp [definition?, start.2]
  rw [recognize?_of_not_digit (by simpa using start.1), markup]
  rfl

variable {pairs : List (String × String)}

theorem recognize?_fill (own : IsStyleName name) (sound : ∀ pair ∈ pairs, Attributes.Writable pair) :
    recognize? (name ++ ' ' :: ("attributes".toList ++ ' ' :: Attributes.print pairs)) =
      some (fill (String.ofList name) (Table.ofList pairs)) := by
  have read : fill? (name ++ ' ' :: ("attributes".toList ++ ' ' :: Attributes.print pairs)) =
      some (fill (String.ofList name) (Table.ofList pairs)) := by
    rw [fill?, named?_append own (by rfl), keyword?_append (by decide), Attributes.trim_print sound]
    simp [Attributes.parse_print sound]
  rw [recognize?_named own, read]
  rfl

theorem recognize?_path (own : IsStyleName name) (cs : List Char) :
    recognize? (name ++ ' ' :: ("path".toList ++ ' ' :: cs)) =
      some (match keyword? "attributes" (trim cs) with
        | some rest => stroke (String.ofList name) (Attributes.parse rest)
        | none => geometry (String.ofList name) (String.ofList (trim cs))) := by
  have other : fill? (name ++ ' ' :: ("path".toList ++ ' ' :: cs)) = none := by
    rw [fill?, named?_append own (by rfl), keyword?_append_of_ne (by decide) (by decide) (by decide)]
    rfl
  have read : named? "path" (name ++ ' ' :: ("path".toList ++ ' ' :: cs)) = some (String.ofList name, trim cs) := by
    rw [named?_append own (by rfl), keyword?_append (by decide)]
    rfl
  rw [recognize?_named own, other, shape?, read]
  rfl

theorem recognize?_stroke (own : IsStyleName name) (sound : ∀ pair ∈ pairs, Attributes.Writable pair) :
    recognize? (name ++ ' ' :: ("path".toList ++ ' ' :: ("attributes".toList ++ ' ' :: Attributes.print pairs))) =
      some (stroke (String.ofList name) (Table.ofList pairs)) := by
  have found : keyword? "attributes" (trim ("attributes".toList ++ ' ' :: Attributes.print pairs)) =
      some (Attributes.print pairs) := by
    cases pairs with
    | nil => decide
    | cons pair more =>
      rw [trim_eq_self (by rfl) (by rw [List.getLast?_append, List.getLast?_cons, Attributes.getLast?_print]; rfl),
        keyword?_append (by decide), Attributes.trim_print sound]
  rw [recognize?_path own, found]
  simp only [Attributes.parse_print sound]

/-- Letters of one kind, which no earlier shape takes. -/
theorem recognize?_letters (sound : ∀ pair ∈ pairs, Attributes.Writable pair) {kind : String}
    (own : IsStyleName kind.toList) :
    recognize? (kind.toList ++ ' ' :: Attributes.print pairs) =
      letters? (kind.toList ++ ' ' :: Attributes.print pairs) := by
  have first := Attributes.head?_print sound
  have fill : fill? (kind.toList ++ ' ' :: Attributes.print pairs) = none := by
    rw [fill?, named?_append own first, Attributes.keyword?_print sound (by decide) (by decide) (by decide)]
    rfl
  have shape : shape? (kind.toList ++ ' ' :: Attributes.print pairs) = none := by
    rw [shape?, named?_append own first, Attributes.keyword?_print sound (by decide) (by decide) (by decide)]
    rfl
  rw [recognize?_named own, fill, shape]
  rfl

/-- Names, keywords and pairs that are written as a line are read as what they were. -/
theorem recognize?_styled {name : String} (own : IsStyleName name.toList)
    (sound : ∀ pair ∈ pairs, Attributes.Writable pair) {outline : String}
    (first : outline.toList.head?.all (!isBlank ·) = true) (last : outline.toList.getLast?.all (!isBlank ·) = true)
    (plain : (word outline.toList).1 ≠ "attributes".toList) :
    recognize? ((name ++ " attributes ").toList ++ Attributes.print pairs) = some (fill name (Table.ofList pairs)) ∧
      recognize? ((name ++ " path attributes ").toList ++ Attributes.print pairs) =
        some (stroke name (Table.ofList pairs)) ∧
      recognize? (name ++ " path " ++ outline).toList = some (geometry name outline) ∧
      recognize? ("text ".toList ++ Attributes.print pairs) = some (text (Table.ofList pairs)) ∧
      recognize? ("glow ".toList ++ Attributes.print pairs) = some (glow (Table.ofList pairs)) ∧
      recognize? ("label ".toList ++ Attributes.print pairs) = some (label (Table.ofList pairs)) := by
  have geometry : recognize? (name ++ " path " ++ outline).toList = some (geometry name outline) := by
    have read := recognize?_path own outline.toList
    rw [trim_eq_self first last, keyword?_eq (by decide), if_neg plain] at read
    simpa using read
  have read := Attributes.parse_print sound
  have trimmed := Attributes.trim_print sound
  have solidText : "text".toList.all (!isBlank ·) = true := by decide
  have solidGlow : "glow".toList.all (!isBlank ·) = true := by decide
  have solidLabel : "label".toList.all (!isBlank ·) = true := by decide
  refine ⟨?_, ?_, geometry, ?_, ?_, ?_⟩
  · simpa using recognize?_fill own sound
  · simpa using recognize?_stroke own sound
  · have found := keyword?_append solidText (Attributes.print pairs)
    rw [show "text ".toList ++ Attributes.print pairs = "text".toList ++ ' ' :: Attributes.print pairs from rfl,
      recognize?_letters sound (by decide), letters?, found, trimmed, Option.map_some, read]
    rfl
  · have found := keyword?_append solidGlow (Attributes.print pairs)
    have other := keyword?_append_of_ne solidText solidGlow (by decide) (Attributes.print pairs)
    rw [show "glow ".toList ++ Attributes.print pairs = "glow".toList ++ ' ' :: Attributes.print pairs from rfl,
      recognize?_letters sound (by decide), letters?, other, found, trimmed, Option.map_some, read]
    rfl
  · have found := keyword?_append solidLabel (Attributes.print pairs)
    have noText := keyword?_append_of_ne solidText solidLabel (by decide) (Attributes.print pairs)
    have noGlow := keyword?_append_of_ne solidGlow solidLabel (by decide) (Attributes.print pairs)
    rw [show "label ".toList ++ Attributes.print pairs = "label".toList ++ ' ' :: Attributes.print pairs from rfl,
      recognize?_letters sound (by decide), letters?, noText, noGlow, found, trimmed, Option.map_some, read]
    rfl

/-- A name and keys that are keywords themselves, a key that is set twice, and an outline with a keyword inside. -/
theorem recognize?_styled_keywords :
    let pairs := [("path", "attributes x=y"), ("attributes", ""), ("path", "#666")]
    IsStyleName "path".toList ∧ (∀ pair ∈ pairs, Attributes.Writable pair) ∧
      (word "M 0,0 attributes z".toList).1 ≠ "attributes".toList ∧
      recognize? "path attributes path=\"attributes x=y\" attributes=\"\" path=\"#666\"".toList =
        some (fill "path" ⟨[("path", "#666"), ("attributes", "")]⟩) ∧
      recognize? "path path M 0,0 attributes z".toList = some (geometry "path" "M 0,0 attributes z") := by
  intro pairs
  have own : IsStyleName "path".toList := by decide
  have sound : ∀ pair ∈ pairs, Attributes.Writable pair := by decide
  have plain : (word "M 0,0 attributes z".toList).1 ≠ "attributes".toList := by decide
  have table : Table.ofList pairs = ⟨[("path", "#666"), ("attributes", "")]⟩ := by decide
  have filling : ("path" ++ " attributes ").toList ++ Attributes.print pairs =
      "path attributes path=\"attributes x=y\" attributes=\"\" path=\"#666\"".toList := by
    rw [String.toList_append]
    rfl
  have outlining : "path" ++ " path " ++ "M 0,0 attributes z" = "path path M 0,0 attributes z" := by simp
  obtain ⟨filled, -, outlined, -⟩ :=
    recognize?_styled own sound (by decide) (by decide) plain
  rw [filling, table] at filled
  rw [outlining] at outlined
  exact ⟨own, sound, plain, filled, outlined⟩

end Line

end HexAtlas
