import HexAtlas.Blocks
import HexAtlas.Proofs.Text.Cut
import Mathlib.Data.List.TakeWhile

namespace HexAtlas

/-- A fence that closes a block opens none. -/
theorem trim_ne_fence_of_isOpeningFence {line : List Char} (h : isOpeningFence line = true) :
    trim line ≠ fence := by
  intro closes
  obtain ⟨info, found, language⟩ := (Option.any_eq_true _ _).mp h
  rw [trim, eq_append_of_afterStart? found, trimEnd, List.reverse_append, List.dropWhile_append] at closes
  split at closes
  · rename_i blank
    have all := List.dropWhile_eq_nil_iff.mp (List.isEmpty_iff.mp blank)
    have nothing : trimStart info = [] :=
      List.dropWhile_eq_nil_iff.mpr fun c member => all c (List.mem_reverse.mpr member)
    rw [trim, nothing] at language
    exact absurd language (by decide)
  · rename_i solid
    have length := congrArg List.length closes
    rw [List.length_reverse, List.length_append, List.length_reverse] at length
    have filled := List.length_pos_iff.mpr fun empty => solid (List.isEmpty_iff.mpr empty)
    omega

/-- A document by its prose lines and blocks. -/
inductive Page where
  | done
  | prose (line : List Char) (rest : Page)
  | block (opening : List Char) (content : List (List Char)) (closing : List Char) (rest : Page)
  /-- A block at the end of the document that nothing closes. -/
  | unclosed (opening : List Char) (content : List (List Char))

namespace Page

def lines : Page → List (List Char)
  | done => []
  | prose line rest => line :: rest.lines
  | block opening content closing rest => opening :: (content ++ closing :: rest.lines)
  | unclosed opening content => opening :: content

/-- The page as a text, every line ended by a line feed. -/
def text (page : Page) : List Char := page.lines.flatMap (· ++ ['\n'])

/-- No prose line opens a block, and no line of a block closes it. -/
def WellFormed : Page → Prop
  | done => True
  | prose line rest => isOpeningFence line = false ∧ rest.WellFormed
  | block opening content closing rest =>
    isOpeningFence opening = true ∧ (∀ line ∈ content, trim line ≠ fence) ∧ trim closing = fence ∧ rest.WellFormed
  | unclosed opening content => isOpeningFence opening = true ∧ ∀ line ∈ content, trim line ≠ fence

/-- The blocks of the page, if its first line has the number `n`. -/
def blocks (n : Nat) : Page → List MapBlock
  | done => []
  | prose _ rest => rest.blocks (n + 1)
  | block _ content _ rest => ⟨n + 1, content⟩ :: rest.blocks (n + content.length + 2)
  | unclosed _ content => [⟨n + 1, content⟩]

/-- Every document is a page. -/
theorem exists_lines_eq (document : List (List Char)) : ∃ page : Page, page.WellFormed ∧ page.lines = document := by
  induction length : document.length using Nat.strong_induction_on generalizing document with
  | _ n ih =>
    subst length
    cases document with
    | nil => exact ⟨done, trivial, rfl⟩
    | cons line rest =>
      cases opens : isOpeningFence line with
      | false =>
        obtain ⟨page, sound, rfl⟩ := ih _ (Nat.lt_succ_self _) rest rfl
        exact ⟨prose line page, ⟨opens, sound⟩, rfl⟩
      | true =>
        obtain ⟨content, tail, rfl, inside, stop⟩ := exists_run (fun line => decide (trim line ≠ fence)) rest
        simp only [decide_eq_true_eq] at inside
        cases tail with
        | nil => exact ⟨unclosed line content, ⟨opens, inside⟩, by rw [lines, List.append_nil]⟩
        | cons closing after =>
          have closes : trim closing = fence := by simpa using stop closing rfl
          have shorter : after.length < (line :: (content ++ closing :: after)).length := by
            simp only [List.length_cons, List.length_append]
            omega
          obtain ⟨page, sound, rfl⟩ := ih _ shorter after rfl
          exact ⟨block line content closing page, ⟨opens, inside, closes, sound⟩, rfl⟩

/-- What stands in a block up to its closing fence. -/
theorem takeWhile_open (tail : List (List Char)) {content : List (List Char)}
    (inside : ∀ line ∈ content, trim line ≠ fence) (stop : ∀ line, tail.head? = some line → trim line = fence) :
    (content ++ tail).takeWhile (fun line => !isClosingFence line) = content :=
  (run_append (fun line member => by simpa [isClosingFence] using inside line member)
    fun line atHead => by simpa [isClosingFence] using stop line atHead).1

/-- The blocks that are found in the lines of a page are its own. -/
theorem blocksFrom_lines {page : Page} (h : page.WellFormed) (n : Nat) :
    blocksFrom n page.lines = page.blocks n := by
  induction page generalizing n with
  | done => rw [lines, blocksFrom, blocks]
  | prose line rest ih =>
    obtain ⟨plain, sound⟩ := h
    rw [lines, blocksFrom, plain, blocks, ← ih sound]
    rfl
  | block opening content closing rest ih =>
    obtain ⟨opens, inside, closes, sound⟩ := h
    have taken := takeWhile_open (closing :: rest.lines) inside fun line atHead => by cases atHead; exact closes
    have behind : (content ++ closing :: rest.lines).drop (content.length + 1) = rest.lines := by
      rw [← List.drop_drop, List.drop_left, List.drop_one, List.tail_cons]
    rw [lines, blocksFrom, if_pos opens, taken, blocks, ← ih sound]
    simp only [behind]
  | unclosed opening content =>
    obtain ⟨opens, inside⟩ := h
    have taken := takeWhile_open [] inside (by simp)
    rw [List.append_nil] at taken
    rw [lines, blocksFrom, if_pos opens, taken, blocks]
    simp only [List.drop_eq_nil_of_le (Nat.le_succ _), blocksFrom]

end Page

/-- The line of the number `n`, counted from one, is a line of the block. -/
def MapBlock.Covers (b : MapBlock) (n : Nat) : Prop := b.line ≤ n ∧ n < b.line + b.content.length

/-- The block starts right behind an opening fence and takes the lines up to the first closing fence, or all that
are left. -/
structure MapBlock.StandsIn (document : List (List Char)) (b : MapBlock) : Prop where
  opened : ∃ n opening, b.line = n + 2 ∧ document[n]? = some opening ∧ isOpeningFence opening = true
  content : b.content = (document.drop (b.line - 1)).takeWhile fun line => trim line ≠ fence
  source : b.source = b.content.flatMap fun line => line ++ ['\n']

/-- The blocks of a document, in their order. Between two of them are at least the fences of both, and an opening
fence that is no line of a block begins one. -/
structure Extracted (document : List (List Char)) (blocks : List MapBlock) : Prop where
  stands : ∀ b ∈ blocks, b.StandsIn document
  apart : blocks.Pairwise fun b c => b.line + b.content.length + 1 < c.line
  complete : ∀ n opening, document[n]? = some opening → isOpeningFence opening = true →
    ∃ b ∈ blocks, b.line = n + 2 ∨ b.Covers (n + 1)

namespace Page

theorem standsIn (front tail : List (List Char)) {content : List (List Char)} {opening : List Char}
    (opens : isOpeningFence opening = true) (inside : ∀ line ∈ content, trim line ≠ fence)
    (stop : ∀ line, tail.head? = some line → trim line = fence) :
    (⟨front.length + 2, content⟩ : MapBlock).StandsIn (front ++ opening :: (content ++ tail)) where
  opened := ⟨front.length, opening, rfl, by simp, opens⟩
  content := by
    have behind : (front ++ opening :: (content ++ tail)).drop (front.length + 1) = content ++ tail := by
      rw [← List.drop_drop, List.drop_left, List.drop_one, List.tail_cons]
    have taken := takeWhile_open tail inside stop
    simp only [isClosingFence, ← decide_not] at taken
    exact (taken.symm.trans (congrArg _ behind.symm))
  source := rfl

theorem standsIn_of_mem_blocks {page : Page} (h : page.WellFormed) (front : List (List Char)) :
    ∀ b ∈ page.blocks (front.length + 1), b.StandsIn (front ++ page.lines) := by
  induction page generalizing front with
  | done => exact List.forall_mem_nil _
  | prose line rest ih =>
    have later := ih h.2 (front ++ [line])
    rwa [List.length_append, List.append_assoc] at later
  | block opening content closing rest ih =>
    obtain ⟨opens, inside, closes, sound⟩ := h
    have later := ih sound (front ++ opening :: (content ++ [closing]))
    rintro b (_ | ⟨_, member⟩)
    · exact standsIn front (closing :: rest.lines) opens inside fun line atHead => by cases atHead; exact closes
    · have own : front ++ opening :: (content ++ [closing]) ++ rest.lines =
          front ++ (block opening content closing rest).lines := by simp [lines]
      have count :
        (front ++ opening :: (content ++ [closing])).length + 1 = front.length + 1 + content.length + 2 := by
        simp only [List.length_append, List.length_cons, List.length_nil]
        omega
      rw [← own]
      exact later b (count ▸ member)
  | unclosed opening content =>
    have stands := standsIn front [] h.1 h.2 (by simp)
    rw [List.append_nil] at stands
    exact fun b member => List.mem_singleton.mp member ▸ stands

theorem lt_line_of_mem_blocks {page : Page} {n : Nat} : ∀ b ∈ page.blocks n, n < b.line := by
  induction page generalizing n with
  | done => exact List.forall_mem_nil _
  | prose line rest ih => exact fun b member => (Nat.lt_succ_self n).trans (ih b member)
  | block opening content closing rest ih =>
    rintro b (_ | ⟨_, member⟩)
    · exact Nat.lt_succ_self n
    · have later := ih b member
      omega
  | unclosed opening content =>
    intro b member
    rw [List.mem_singleton.mp member]
    exact Nat.lt_succ_self n

theorem apart_blocks (page : Page) (n : Nat) :
    (page.blocks n).Pairwise fun b c => b.line + b.content.length + 1 < c.line := by
  induction page generalizing n with
  | done => exact List.Pairwise.nil
  | prose line rest ih => exact ih (n + 1)
  | block opening content closing rest ih =>
    refine List.pairwise_cons.mpr ⟨fun b member => ?_, ih _⟩
    have later := lt_line_of_mem_blocks b member
    show n + 1 + content.length + 1 < b.line
    omega
  | unclosed opening content => exact List.pairwise_singleton _ _

theorem exists_block_of_isOpeningFence {page : Page} (h : page.WellFormed) (n : Nat) {i : Nat} {opening : List Char}
    (listed : page.lines[i]? = some opening) (opens : isOpeningFence opening = true) :
    ∃ b ∈ page.blocks n, b.line = n + i + 1 ∨ b.Covers (n + i) := by
  induction page generalizing n i with
  | done => cases listed
  | prose line rest ih =>
    obtain ⟨plain, sound⟩ := h
    cases i with
    | zero =>
      cases listed
      rw [plain] at opens
      cases opens
    | succ i =>
      obtain ⟨b, member, found⟩ := ih sound (n + 1) listed
      rw [show n + 1 + i = n + (i + 1) by omega] at found
      exact ⟨b, member, found⟩
  | block first content closing rest ih =>
    obtain ⟨_, inside, closes, sound⟩ := h
    cases i with
    | zero => exact ⟨_, List.mem_cons_self, Or.inl rfl⟩
    | succ i =>
      rcases Nat.lt_trichotomy i content.length with within | last | beyond
      · refine ⟨_, List.mem_cons_self, Or.inr ⟨?_, ?_⟩⟩
        · show n + 1 ≤ n + (i + 1)
          omega
        · show n + (i + 1) < n + 1 + content.length
          omega
      · subst last
        rw [lines, List.getElem?_cons_succ, List.getElem?_append_right le_rfl, Nat.sub_self] at listed
        cases listed
        exact absurd closes (trim_ne_fence_of_isOpeningFence opens)
      · obtain ⟨k, rfl⟩ := Nat.exists_eq_add_of_lt beyond
        rw [lines, List.getElem?_cons_succ, List.getElem?_append_right (by omega),
          show content.length + k + 1 - content.length = k + 1 by omega, List.getElem?_cons_succ] at listed
        obtain ⟨b, member, found⟩ := ih sound (n + content.length + 2) listed
        rw [show n + content.length + 2 + k = n + (content.length + k + 1 + 1) by omega] at found
        exact ⟨b, List.mem_cons_of_mem _ member, found⟩
  | unclosed first content =>
    cases i with
    | zero => exact ⟨_, List.mem_cons_self, Or.inl rfl⟩
    | succ i =>
      obtain ⟨within, _⟩ := List.getElem?_eq_some_iff.mp listed
      have within : i < content.length := Nat.lt_of_succ_lt_succ within
      refine ⟨_, List.mem_cons_self, Or.inr ⟨?_, ?_⟩⟩
      · show n + 1 ≤ n + (i + 1)
        omega
      · show n + (i + 1) < n + 1 + content.length
        omega

theorem extracted_blocks {page : Page} (h : page.WellFormed) : Extracted page.lines (page.blocks 1) where
  stands := standsIn_of_mem_blocks h []
  apart := apart_blocks page 1
  complete := fun n _ listed opens => by
    obtain ⟨b, member, found⟩ := exists_block_of_isOpeningFence h 1 listed opens
    rw [Nat.add_comm 1 n] at found
    exact ⟨b, member, found⟩

end Page

/-- The blocks of a document are where its fences say. So blocks that are set into a page between fences and prose
come out of it again, each with the number of its first line, in whatever way the lines of the page are ended. -/
theorem extracted_mapBlocks :
    (∀ document, Extracted (lines document) (mapBlocks document)) ∧
      ∀ page : Page, page.WellFormed →
        (∀ document, lines document = page.lines → mapBlocks document = page.blocks 1) ∧
          ((∀ line ∈ page.lines, '\n' ∉ line ∧ line.getLast? ≠ some '\r') →
            mapBlocks page.text = page.blocks 1) := by
  have found : ∀ page : Page, page.WellFormed → ∀ document, lines document = page.lines →
      mapBlocks document = page.blocks 1 := by
    intro page sound document same
    rw [mapBlocks, same, Page.blocksFrom_lines sound]
  refine ⟨fun document => ?_, fun page sound => ⟨found page sound, fun bare => ?_⟩⟩
  · obtain ⟨page, sound, same⟩ := Page.exists_lines_eq (lines document)
    rw [found page sound document same.symm, ← same]
    exact Page.extracted_blocks sound
  · exact found page sound page.text
      (lines_flatMap (fun line member => (bare line member).1) fun line member => (bare line member).2)

/-- Prose with a block of another language, a block with an opening fence among its lines, an empty block right
behind it, and one that nothing closes. -/
theorem extracted_mapBlocks_guide :
    let page : Page := .prose "```rust".toList <| .prose "```".toList <|
      .block " ```text-mapper ".toList ["0101 hill".toList, "```text-mapper".toList] "``` ".toList <|
      .block "```text-mapper".toList [] "```".toList <| .unclosed "``` text-mapper".toList ["0102 sea".toList]
    page.WellFormed ∧ (∀ line ∈ page.lines, '\n' ∉ line ∧ line.getLast? ≠ some '\r') ∧
      mapBlocks page.text =
        [⟨4, ["0101 hill".toList, "```text-mapper".toList]⟩, ⟨8, []⟩, ⟨10, ["0102 sea".toList]⟩] := by
  intro page
  have sound : page.WellFormed := by simp only [page, Page.WellFormed]; decide +kernel
  have bare : ∀ line ∈ page.lines, '\n' ∉ line ∧ line.getLast? ≠ some '\r' := by decide +kernel
  exact ⟨sound, bare, (extracted_mapBlocks.2 page sound).2 bare⟩

end HexAtlas
