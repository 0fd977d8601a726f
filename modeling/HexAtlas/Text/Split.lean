import HexAtlas.Text.Blank

namespace HexAtlas

/-- The text before and after the first `c`. -/
def cutAt? (c : Char) : List Char → Option (List Char × List Char)
  | [] => none
  | d :: rest =>
    if d = c then some ([], rest) else (cutAt? c rest).map fun (before, after) => (d :: before, after)

theorem eq_append_of_cutAt? {c : Char} {cs before after : List Char} (h : cutAt? c cs = some (before, after)) :
    cs = before ++ c :: after := by
  induction cs generalizing before with
  | nil => cases h
  | cons d rest ih =>
    unfold cutAt? at h
    split at h
    · cases h
      simp_all
    · obtain ⟨⟨front, tail⟩, found, same⟩ := Option.map_eq_some_iff.mp h
      cases same
      simp [ih found]

/-- The text after `start`, if it begins with that. -/
def afterStart? : (start cs : List Char) → Option (List Char)
  | [], cs => some cs
  | _ :: _, [] => none
  | s :: start, c :: cs => if s = c then afterStart? start cs else none

theorem eq_append_of_afterStart? {start cs rest : List Char} (h : afterStart? start cs = some rest) :
    cs = start ++ rest := by
  fun_induction afterStart? start cs with
  | case1 => cases h; rfl
  | case2 => cases h
  | case3 s start cs ih => rw [ih h]; rfl
  | case4 => cases h

/-- The text before and after the first place where `part` stands. -/
def splitAt? (part : List Char) : List Char → Option (List Char × List Char)
  | [] => (afterStart? part []).map fun after => ([], after)
  | c :: rest =>
    match afterStart? part (c :: rest) with
    | some after => some ([], after)
    | none => (splitAt? part rest).map fun (before, after) => (c :: before, after)

theorem eq_append_of_splitAt? {part cs before after : List Char} (h : splitAt? part cs = some (before, after)) :
    cs = before ++ part ++ after := by
  induction cs generalizing before with
  | nil =>
    simp only [splitAt?, Option.map_eq_some_iff, Prod.mk.injEq] at h
    obtain ⟨tail, start, rfl, rfl⟩ := h
    exact eq_append_of_afterStart? start
  | cons c rest ih =>
    unfold splitAt? at h
    split at h
    · rename_i tail start
      cases h
      exact eq_append_of_afterStart? start
    · obtain ⟨⟨front, tail⟩, found, same⟩ := Option.map_eq_some_iff.mp h
      cases same
      simp [ih found]

def contains (part cs : List Char) : Bool := (splitAt? part cs).isSome

/-- The texts between the characters `c`; one more than there are of these. -/
def splitAll (c : Char) : List Char → List (List Char)
  | [] => [[]]
  | d :: rest =>
    if d = c then [] :: splitAll c rest
    else match splitAll c rest with
      | [] => [[d]]
      | piece :: more => (d :: piece) :: more

/-- The text before `tail`, if it ends with that. -/
def beforeEnd? (tail cs : List Char) : Option (List Char) :=
  (afterStart? tail.reverse cs.reverse).map List.reverse

/-- The lines of a text. A line feed ends a line and takes a carriage return right before it along; a last line
that nothing ends keeps its carriage return, and an empty one is not there. -/
def lines (cs : List Char) : List (List Char) :=
  if cs = [] then []
  else
    match _h : cutAt? '\n' cs with
    | none => [cs]
    | some (line, rest) => (if line.getLast? = some '\r' then line.dropLast else line) :: lines rest
termination_by cs.length
decreasing_by
  have := congrArg List.length (eq_append_of_cutAt? _h)
  simp only [List.length_append, List.length_cons] at this
  omega

def byteCount (cs : List Char) : Nat := cs.foldl (fun n c => n + c.utf8Size) 0

end HexAtlas
