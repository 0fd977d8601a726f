import HexAtlas.Line.Step

namespace HexAtlas

/-- One cell of a map with its label and its tags in the order of the line. -/
structure Region where
  hex : Hex
  variant : String
  label : Option String
  size : Option String
  types : List String
deriving DecidableEq, Repr, Inhabited

namespace Region

def defaultVariant : String := "00"

/-- The name of the outline of a cell, the same for every region of the cell. -/
def id (r : Region) : String := "hex." ++ toString r.hex.x ++ "." ++ toString r.hex.y

end Region

/-- Digits with at most one point among them, then letters or percent signs: `20`, `1.5em`. -/
def isSize (token : List Char) : Bool :=
  let number := token.takeWhile fun c => isDigit c || c = '.'
  let unit := token.dropWhile fun c => isDigit c || c = '.'
  number.head?.any isDigit && number.count '.' ≤ 1 && unit.all fun c => c.isAlpha || c = '%'

/-- A label in the rest of a line, with the text on both sides of it. -/
structure LabelFound where
  before : List Char
  text : List Char
  size : Option (List Char)
  after : List Char
deriving DecidableEq, Repr

/-- The first quoted text that is not empty, together with the size that may follow it. -/
def findLabel? (cs : List Char) : Option LabelFound :=
  match _h : cutAt? '"' cs with
  | none => none
  | some (before, quoted) =>
    match _hq : cutAt? '"' quoted with
    | none => none
    | some ([], after) =>
      (findLabel? after).map fun found => { found with before := before ++ '"' :: '"' :: found.before }
    | some (text, after) =>
      let (token, rest) := word (trimStart after)
      if isSize token then some ⟨before, text, some token, rest⟩ else some ⟨before, text, none, after⟩
termination_by cs.length
decreasing_by
  have outer := congrArg List.length (eq_append_of_cutAt? _h)
  have inner := congrArg List.length (eq_append_of_cutAt? _hq)
  simp only [List.length_append, List.length_cons, List.length_nil] at outer inner
  omega

theorem count_word (c : Char) (cs : List Char) : (word cs).1.count c + (word cs).2.count c = cs.count c := by
  rw [← List.count_append]
  exact congrArg (List.count c) List.takeWhile_append_dropWhile

theorem count_trimStart_le (c : Char) (cs : List Char) : (trimStart cs).count c ≤ cs.count c :=
  (List.dropWhile_suffix isBlank).sublist.count_le c

/-- A label takes its two quotes out of the text. -/
theorem LabelFound.count_quotes {cs : List Char} {found : LabelFound} (h : findLabel? cs = some found) :
    found.before.count '"' + found.after.count '"' + 2 ≤ cs.count '"' := by
  fun_induction findLabel? cs generalizing found with
  | case1 | case2 => cases h
  | case3 cs before quoted cut after close ih =>
    obtain ⟨inner, atInner, rfl⟩ := Option.map_eq_some_iff.mp h
    have := ih atInner
    rw [eq_append_of_cutAt? cut, eq_append_of_cutAt? close]
    simp only [List.count_append, List.count_cons_self, List.nil_append]
    omega
  | case4 cs before quoted cut text after _ close token rest split _ =>
    cases h
    have whole := count_word '"' (trimStart after)
    have blanks := count_trimStart_le '"' after
    rw [split] at whole
    rw [eq_append_of_cutAt? cut, eq_append_of_cutAt? close]
    simp only [List.count_append, List.count_cons_self] at whole ⊢
    omega
  | case5 cs before quoted cut text after _ close token rest split _ =>
    cases h
    rw [eq_append_of_cutAt? cut, eq_append_of_cutAt? close]
    simp only [List.count_append, List.count_cons_self]
    omega

/-- The last label of a text with its size, and the text with a blank in the place of every label. -/
def takeLabels (last : Option (List Char × Option (List Char))) (cs : List Char) :
    Option (List Char × Option (List Char)) × List Char :=
  match _h : findLabel? cs with
  | none => (last, cs)
  | some found => takeLabels (some (found.text, found.size)) (found.before ++ ' ' :: found.after)
termination_by cs.count '"'
decreasing_by
  have := LabelFound.count_quotes _h
  simp only [List.count_append, List.count_cons]
  have : (' ' == '"') = false := by decide
  simp only [this]
  simp
  omega

def startsBlank (cs : List Char) : Bool := cs.head?.any isBlank

/-- Reads a region line. A line with a step among its tags describes a path and is refused. -/
def Region.parse? (line : List Char) : Option Region := do
  let (x, rest) ← twoDigits? line
  let (y, rest) ← twoDigits? rest
  let (variant, rest) := match twoDigits? rest with
    | some (_, after) => (String.ofList (rest.take 2), after)
    | none => (defaultVariant, rest)
  if rest ≠ [] && !startsBlank rest then none
  else
    let (label, rest) := takeLabels none rest
    let tags := words rest
    if tags.any fun tag => (Step.parse? tag).isSome then none
    else some {
      hex := ⟨x, y⟩
      variant
      label := label.map fun (text, _) => String.ofList text
      size := label.bind fun (_, size) => size.map String.ofList
      types := tags.map String.ofList }

end HexAtlas
