import HexAtlas.Text.Split

namespace HexAtlas

/-- Names in markup are declared by `id`, and referred to by `href` or by `url`. -/
inductive ReferenceKind where
  | id
  | href
  | url
deriving DecidableEq, Repr

namespace ReferenceKind

/-- What stands before a name of the kind, and the character that ends the name. -/
def openings : List (ReferenceKind × List Char × Char) := [
  (id, "id=\"".toList, '"'),
  (id, "id='".toList, '\''),
  (href, "href=\"#".toList, '"'),
  (href, "href='#".toList, '\''),
  (url, "url(#".toList, ')')]

/-- Whether the kind's opening may come after a character. Attributes stand after a blank, a link also after the
colon of its prefix. -/
def mayFollow (kind : ReferenceKind) (before : Option Char) : Bool :=
  match kind with
  | id => before.any isPlainBlank
  | href => before.any fun c => isPlainBlank c || c = ':'
  | url => true

end ReferenceKind

inductive Piece where
  | plain (text : List Char)
  | name (kind : ReferenceKind) (text : List Char)
deriving DecidableEq, Repr

namespace Piece

def text : Piece → List Char
  | plain text => text
  | name _ text => text

end Piece

/-- A name with what stands before it and what follows, which begins with the end of the name. -/
structure NameFound where
  kind : ReferenceKind
  opening : List Char
  name : List Char
  rest : List Char
deriving DecidableEq, Repr

/-- A nonempty name up to its end. -/
def nameUntil? (stop : Char) (cs : List Char) : Option (List Char × List Char) :=
  match cutAt? stop cs with
  | some (c :: name, after) => some (c :: name, stop :: after)
  | _ => none

/-- A name whose opening stands at the front of a text. -/
def findName? (before : Option Char) (cs : List Char) : Option NameFound :=
  ReferenceKind.openings.findSome? fun (kind, opening, stop) =>
    if kind.mayFollow before then do
      let body ← afterStart? opening cs
      let (name, rest) ← nameUntil? stop body
      some ⟨kind, opening, name, rest⟩
    else none

theorem eq_append_of_nameUntil? {stop : Char} {cs name rest : List Char}
    (h : nameUntil? stop cs = some (name, rest)) :
    cs = name ++ rest ∧ name ≠ [] ∧ rest.head? = some stop := by
  unfold nameUntil? at h
  split at h
  · rename_i c tail after cut
    cases h
    exact ⟨eq_append_of_cutAt? cut, by simp, rfl⟩
  · cases h

/-- What is found at the front of a text is a part of that text. -/
theorem NameFound.eq_append {before : Option Char} {cs : List Char} {found : NameFound}
    (h : findName? before cs = some found) :
    cs = found.opening ++ found.name ++ found.rest ∧ found.name ≠ [] := by
  obtain ⟨⟨kind, opening, stop⟩, _, accepted⟩ := List.exists_of_findSome?_eq_some h
  simp only at accepted
  split at accepted
  · obtain ⟨body, start, accepted⟩ := Option.bind_eq_some_iff.mp accepted
    obtain ⟨⟨name, rest⟩, cut, accepted⟩ := Option.bind_eq_some_iff.mp accepted
    cases accepted
    obtain ⟨parts, nonempty, _⟩ := eq_append_of_nameUntil? cut
    exact ⟨by rw [eq_append_of_afterStart? start, parts, List.append_assoc], nonempty⟩
  · cases accepted

/-- The pieces of markup that comes after the character `before`. -/
def piecesAfter (before : Option Char) (cs : List Char) : List Piece :=
  match cs with
  | [] => []
  | c :: rest =>
    match _h : findName? before (c :: rest) with
    | some found =>
      .plain found.opening :: .name found.kind found.name :: piecesAfter found.name.getLast? found.rest
    | none => .plain [c] :: piecesAfter (some c) rest
termination_by cs.length
decreasing_by
  · obtain ⟨parts, nonempty⟩ := NameFound.eq_append _h
    have := congrArg List.length parts
    have := List.length_pos_iff.mpr nonempty
    simp only [List.length_append] at *
    omega
  · simp

def pieces (markup : List Char) : List Piece := piecesAfter none markup

theorem flatMap_piecesAfter (before : Option Char) (cs : List Char) :
    (piecesAfter before cs).flatMap Piece.text = cs := by
  fun_induction piecesAfter before cs with
  | case1 => rfl
  | case2 before c rest found h ih =>
    simp only [List.flatMap_cons, Piece.text, ih]
    rw [(NameFound.eq_append h).1, List.append_assoc]
  | case3 before c rest _ ih => simp [Piece.text, ih]

theorem flatMap_pieces (markup : List Char) : (pieces markup).flatMap Piece.text = markup :=
  flatMap_piecesAfter none markup

/-- A name with its place in the markup, in bytes. -/
structure Reference where
  kind : ReferenceKind
  name : List Char
  start : Nat
  stop : Nat
deriving DecidableEq, Repr

/-- The names among pieces whose first one starts at `place`. -/
def referencesFrom (place : Nat) : List Piece → List Reference
  | [] => []
  | .plain text :: rest => referencesFrom (place + byteCount text) rest
  | .name kind text :: rest =>
    ⟨kind, text, place, place + byteCount text⟩ :: referencesFrom (place + byteCount text) rest

def references (markup : List Char) : List Reference := referencesFrom 0 (pieces markup)

end HexAtlas
