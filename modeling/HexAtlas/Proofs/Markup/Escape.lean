import HexAtlas.Proofs.Markup.TagText
import HexAtlas.Proofs.Text.Replace

namespace HexAtlas

/-- The characters that do not stand for themselves in markup, with what is written for them. -/
def entities : List (Char × List Char) :=
  [('&', "&amp;".toList), ('<', "&lt;".toList), ('>', "&gt;".toList), ('"', "&quot;".toList)]

/-- One pass over a text for each entity, in their order. -/
def replaceEntities (cs : List Char) : List Char :=
  entities.foldl (fun text (mark, entity) => replaceAll [mark] entity text) cs

theorem replaceEntities_singleton (c : Char) : replaceEntities [c] = escapeChar c := by
  simp only [replaceEntities, entities, List.foldl_cons, List.foldl_nil]
  rw [replaceAll_singleton '&', replaceAll_singleton '<', replaceAll_singleton '>', replaceAll_singleton '"',
    List.flatMap_singleton]
  by_cases special : c ∈ ['&', '<', '>', '"']
  · simp only [List.mem_cons, List.not_mem_nil, or_false] at special
    rcases special with rfl | rfl | rfl | rfl
    all_goals rfl
  · rw [escapeChar_eq_self special]
    simp only [List.mem_cons, List.not_mem_nil, or_false, not_or] at special
    obtain ⟨ampersand, opening, closing, quote⟩ := special
    rw [if_neg ampersand, List.flatMap_singleton, if_neg opening, List.flatMap_singleton, if_neg closing,
      List.flatMap_singleton, if_neg quote]

/-- The passes one after the other escape each character on its own. -/
theorem escape_eq_replaceEntities (cs : List Char) : escape cs = replaceEntities cs := by
  have alone := foldl_replaceAll_eq_flatMap entities cs
  exact (List.flatMap_congr fun c _ => (replaceEntities_singleton c).symm).trans alone.symm

/-- An escaped character is an entity, with the ampersand only at its front, or has no ampersand. -/
theorem escapeChar_cases (c : Char) :
    (∃ body, (c, '&' :: body) ∈ entities ∧ escapeChar c = '&' :: body ∧ '&' ∉ body) ∨ '&' ∉ escapeChar c := by
  by_cases special : c ∈ ['&', '<', '>', '"']
  · left
    simp only [List.mem_cons, List.not_mem_nil, or_false] at special
    rcases special with rfl | rfl | rfl | rfl
    · exact ⟨"amp;".toList, by decide, rfl, by decide⟩
    · exact ⟨"lt;".toList, by decide, rfl, by decide⟩
    · exact ⟨"gt;".toList, by decide, rfl, by decide⟩
    · exact ⟨"quot;".toList, by decide, rfl, by decide⟩
  · right
    rw [escapeChar_eq_self special, List.mem_singleton]
    exact fun same => special (same ▸ List.mem_cons_self)

/-- Every ampersand of an escaped text begins an entity. -/
theorem exists_entity_of_escape {cs before after : List Char} (h : escape cs = before ++ '&' :: after) :
    ∃ entity ∈ entities, entity.2 <+: '&' :: after := by
  induction cs generalizing before with
  | nil => exact absurd h.symm (List.append_ne_nil_of_right_ne_nil before (List.cons_ne_nil _ _))
  | cons c rest ih =>
    rw [escape_cons] at h
    rcases escapeChar_cases c with ⟨body, listed, written, free⟩ | free
    · rw [written, List.cons_append] at h
      cases before with
      | nil => exact ⟨_, listed, escape rest, h⟩
      | cons d more =>
        -- the ampersand stands behind the entity of the first character
        obtain ⟨inner, -, behind⟩ := exists_append_of_not_mem body (List.cons.inj h).2.symm free
        exact ih behind
    · obtain ⟨inner, -, behind⟩ := exists_append_of_not_mem (escapeChar c) h.symm free
      exact ih behind

/-- What is written for a text so that it can be read back. -/
structure IsEscaped (text written : List Char) : Prop where
  passes : written = replaceEntities text
  /-- Brackets and quotes are not written as themselves. -/
  plain : ∀ mark ∈ ['<', '>', '"'], mark ∉ written
  entity : ∀ before after, written = before ++ '&' :: after → ∃ entity ∈ entities, entity.2 <+: '&' :: after
  /-- One pass over the entities gives back the text. -/
  read : unescape written = text

theorem isEscaped_escape (cs : List Char) : IsEscaped cs (escape cs) where
  passes := escape_eq_replaceEntities cs
  plain := fun _ special => not_mem_escape special cs
  entity := fun _ _ => exists_entity_of_escape
  read := unescape_escape cs

/-- Escaping can be undone, also in a text that holds entities, and escapes the parts of a text on their own. -/
theorem isEscaped_escape_append (a b : List Char) :
    IsEscaped a (escape a) ∧ escape (a ++ b) = escape a ++ escape b :=
  ⟨isEscaped_escape a, List.flatMap_append⟩

/-- An entity in the text is escaped itself. -/
example : escape "a < &lt;".toList = "a &lt; &amp;lt;".toList := rfl

end HexAtlas
