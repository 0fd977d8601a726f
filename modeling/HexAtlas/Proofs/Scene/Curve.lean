import HexAtlas.Proofs.Grid.Box
import HexAtlas.Proofs.Scene.Layout
import HexAtlas.Proofs.Text.Numeral

namespace HexAtlas

/-- Both coordinates are numbers, and none is infinite. -/
structure Point.IsFinite (p : Point) : Prop where
  x : p.x.isFinite
  y : p.y.isFinite

theorem Binary.same_iff {f : NumberFormat} (roomy : f.Roomy) {v w : Binary f} (finite : v.isFinite)
    (finite' : w.isFinite) (plain : ¬v.IsMinusZero) (plain' : ¬w.IsMinusZero) : v.same w ↔ v = w := by
  rcases v with _ | _ | ⟨m, s⟩ <;> rcases w with _ | _ | ⟨n, t⟩ <;> simp [isFinite] at finite finite'
  rw [same, beq_iff_eq]
  exact ⟨finite_eq_finite roomy plain plain', congrArg value⟩

theorem Point.same_iff {p q : Point} (finite : p.IsFinite) (finite' : q.IsFinite) (plain : p.Plain)
    (plain' : q.Plain) :
    p.same q ↔ p = q := by
  rw [same, Bool.and_eq_true, Binary.same_iff NumberFormat.roomy_double finite.x finite'.x plain.x plain'.x,
    Binary.same_iff NumberFormat.roomy_double finite.y finite'.y plain.y plain'.y]
  cases p
  cases q
  rw [mk.injEq]

/-- More than two points, and the last one is the first one. -/
def IsLoop (points : List Point) : Prop := 2 < points.length ∧ points.head? = points.getLast?

instance (points : List Point) : Decidable (IsLoop points) := inferInstanceAs (Decidable (_ ∧ _))

theorem isClosed_iff {points : List Point} (finite : ∀ p ∈ points, p.IsFinite) (plain : ∀ p ∈ points, p.Plain) :
    isClosed points ↔ IsLoop points := by
  cases points with
  | nil => simp [isClosed, IsLoop]
  | cons first rest =>
    have head : (first :: rest).head? = some first := rfl
    have last := List.getLast?_eq_some_getLast (List.cons_ne_nil first rest)
    have member := List.getLast_mem (List.cons_ne_nil first rest)
    have equal := Point.same_iff (finite first List.mem_cons_self) (finite _ member)
      (plain first List.mem_cons_self) (plain _ member)
    rw [isClosed, IsLoop, head, last, Option.some_inj, ← equal, and_comm]
    exact (Bool.and_eq_true _ _).to_iff.trans (and_congr_right' decide_eq_true_iff)

/-- The number lies halfway between two others, up to roundings. Where these are at most `2 ^ k` in size, it is off
by a few units in the last place of such numbers. Sizes near the end of the format are left out: two such numbers
may lie further apart than any number of it is large. -/
def Halfway (v w m : Double) : Prop :=
  ∀ k : ℤ, -1022 ≤ k → k ≤ 1021 → |v.value| ≤ 2 ^ k → |w.value| ≤ 2 ^ k →
    m.isFinite ∧ |m.value - (v.value + w.value) / 2| ≤ 2 ^ k / 2 ^ 51

theorem halfway_add_mul {v w : Double} (finite : v.isFinite) (finite' : w.isFinite) :
    Halfway v w (v + (w - v) * hundredths 50) := by
  intro k low high small small'
  have roomy := NumberFormat.roomy_double
  have half : (hundredths 50).isFinite ∧ (hundredths 50).value = 1 / 2 := by decide +kernel
  have grow (j : ℕ) : (2 : ℚ) ^ (k + j) = 2 ^ k * 2 ^ j := by rw [zpow_add₀ two_ne_zero, zpow_natCast]
  have room {q : ℚ} {j : ℕ} (few : j ≤ 2) (below : |q| < 2 ^ (k + j)) :
    |q| < 2 ^ (NumberFormat.double.ceiling - 1) :=
    below.trans_le (zpow_le_zpow_right₀ (by norm_num) (by simp only [NumberFormat.double]; omega))
  have error {x : Double} {q : ℚ} {j : ℕ} (rounds : x.Rounds q) (some : 1 ≤ j) (below : |q| < 2 ^ (k + j)) :
      |x.value - q| ≤ 2 ^ k * 2 ^ j / 2 ^ 53 / 2 := by
    rw [← grow]
    exact rounds.error_le (by simp only [NumberFormat.double]; omega) below
  have pos : (0 : ℚ) < 2 ^ k := by positivity
  rw [abs_le] at small small'
  -- the segment is rounded, then its half, then the place where the half ends
  have whole : |w.value - v.value| < 2 ^ (k + (2 : ℕ)) := by rw [grow, abs_lt]; constructor <;> linarith
  have segment := Binary.rounds_sub roomy finite' finite (room le_rfl whole)
  have near := abs_le.mp (error segment one_le_two whole)
  have short : |(w - v).value * (hundredths 50).value| < 2 ^ (k + (1 : ℕ)) := by
    rw [grow, half.2, abs_lt]; constructor <;> linarith
  have step := Binary.rounds_mul roomy segment.finite half.1 (room one_le_two short)
  have near' := abs_le.mp (error step le_rfl short)
  rw [half.2] at near'
  have between : |v.value + ((w - v) * hundredths 50).value| < 2 ^ (k + (1 : ℕ)) := by
    rw [grow, abs_lt]; constructor <;> linarith
  have sum := Binary.rounds_add roomy finite step.finite (room one_le_two between)
  have near'' := abs_le.mp (error sum le_rfl between)
  exact ⟨sum.finite, abs_le.mpr (by constructor <;> linarith)⟩

/-- Both coordinates lie halfway between those of two points. -/
structure Point.IsMiddle (p q m : Point) : Prop where
  x : Halfway p.x q.x m.x
  y : Halfway p.y q.y m.y

theorem isMiddle_middle {p q : Point} (finite : p.IsFinite) (finite' : q.IsFinite) : p.IsMiddle q (middle p q) :=
  ⟨halfway_add_mul finite.x finite'.x, halfway_add_mul finite.y finite'.y⟩

namespace CurveCommand

/-- The letter in front of the points of a command. -/
def letter : CurveCommand → Char
  | move _ => 'M'
  | cubic .. => 'C'
  | smooth .. => 'S'
  | line _ => 'L'

def controls : CurveCommand → List Point
  | cubic a b _ => [a, b]
  | smooth a _ => [a]
  | move _ | line _ => []

/-- The point to which a command draws. -/
def finish : CurveCommand → Point
  | move p | cubic _ _ p | smooth _ p | line p => p

/-- The letter, the control points, and the point to which the command draws. -/
theorem toList_text (c : CurveCommand) :
    c.text.toList = c.letter :: (c.controls.flatMap fun p => p.text.toList ++ [' ']) ++ c.finish.text.toList := by
  cases c <;> simp [text, letter, controls, finish]

def isLetter (c : Char) : Bool := c ∈ ['M', 'C', 'S', 'L']

theorem isLetter_letter (c : CurveCommand) : isLetter c.letter := by cases c <;> rfl

end CurveCommand

open CurveCommand

theorem isLetter_of_isDigit {c : Char} (digit : isDigit c) : isLetter c = false := by
  rw [Bool.eq_false_iff]
  intro letter
  simp only [isLetter, List.mem_cons, List.not_mem_nil, or_false, decide_eq_true_iff] at letter
  rcases letter with rfl | rfl | rfl | rfl <;> cases digit

theorem Binary.filter_isLetter_signed (negative : Bool) {cs : List Char} (none : cs.filter isLetter = []) :
    (signed negative cs).filter isLetter = [] := by
  cases negative with
  | false => exact none
  | true => exact none

theorem Binary.filter_isLetter_fixed {f : NumberFormat} (places : Nat) (v : Binary f) :
    (v.fixed places).filter isLetter = [] := by
  cases v with
  | nan => rfl
  | infinite negative => exact filter_isLetter_signed negative rfl
  | finite negative s =>
    have plain (n k : ℕ) : ∀ c ∈ List.replicate k '0' ++ digits n, isLetter c = false := by
      intro c member
      rcases List.mem_append.mp member with zero | digit
      · rw [List.eq_of_mem_replicate zero]
        rfl
      · exact isLetter_of_isDigit (isDigit_of_mem_digits digit)
    refine filter_isLetter_signed negative (List.filter_eq_nil_iff.mpr fun c member => ?_)
    rw [Bool.not_eq_true]
    -- the point is set among the digits unless there are no places
    split at member
    · exact plain _ _ c member
    · rcases List.mem_append.mp member with whole | part
      · exact plain _ _ c (List.mem_of_mem_take whole)
      · rcases List.mem_cons.mp part with rfl | part
        · rfl
        · exact plain _ _ c (List.mem_of_mem_drop part)

theorem Point.filter_isLetter_text (p : Point) : p.text.toList.filter isLetter = [] := by
  rw [text, String.toList_ofList, List.filter_append, List.filter_cons_of_neg (by decide),
    Binary.filter_isLetter_fixed, Binary.filter_isLetter_fixed, List.nil_append]

theorem CurveCommand.filter_isLetter_text (c : CurveCommand) : c.text.toList.filter isLetter = [c.letter] := by
  have controls : (c.controls.flatMap fun p => p.text.toList ++ [' ']).filter isLetter = [] := by
    rw [List.filter_flatMap, List.flatMap_eq_nil_iff]
    intro p member
    rw [List.filter_append, p.filter_isLetter_text]
    rfl
  rw [toList_text, List.filter_append, List.filter_cons_of_pos c.isLetter_letter, controls,
    c.finish.filter_isLetter_text, List.append_nil]

/-- The letters in the text of some commands are those of the commands. -/
theorem filter_isLetter_intercalate (commands : List CurveCommand) :
    (" ".intercalate (commands.map CurveCommand.text)).toList.filter isLetter = commands.map letter := by
  rw [String.toList_intercalate, List.map_map]
  induction commands with
  | nil => rfl
  | cons c rest ih =>
    cases rest with
    | nil => rw [List.map_singleton, List.intercalate_singleton]; exact c.filter_isLetter_text
    | cons next rest =>
      rw [List.map_cons, List.map_cons, List.intercalate_cons_cons, ← List.map_cons, List.filter_append,
        List.filter_append, ih]
      exact congrArg (· ++ [] ++ (next :: rest).map letter) c.filter_isLetter_text

/-- A curve has a start, pieces, and maybe a straight piece to some last point. -/
structure SmoothCurve where
  start : Point
  pieces : List CurveCommand
  stub : Option Point

namespace SmoothCurve

def commands (c : SmoothCurve) : List CurveCommand := .move c.start :: c.pieces ++ c.stub.toList.map .line

def text (c : SmoothCurve) : String := " ".intercalate (c.commands.map CurveCommand.text)

/-- There is a piece for each two points in turn, and it ends in the middle of these. -/
structure Follows (c : SmoothCurve) (points : List Point) : Prop where
  letters : c.pieces.map letter = 'C' :: List.replicate (points.length - 2) 'S'
  middles : c.pieces.map finish = List.zipWith middle points points.tail
  loop : IsLoop points → (c.pieces.map finish).getLast? = some c.start ∧ c.stub = none
  way : ¬IsLoop points → points.head? = some c.start ∧ points.getLast? = c.stub

theorem Follows.map_letter_commands {c : SmoothCurve} {points : List Point} (h : c.Follows points)
    (two : 2 ≤ points.length) : c.commands.map letter =
      'M' :: 'C' :: List.replicate (points.length - 2) 'S' ++ if IsLoop points then [] else ['L'] := by
  have stub : c.stub.toList.map (letter ∘ .line) = if IsLoop points then [] else ['L'] := by
    split
    next loop => rw [(h.loop loop).2]; rfl
    next way =>
      have some : points ≠ [] := List.ne_nil_of_length_pos (by omega)
      rw [← (h.way way).2, List.getLast?_eq_some_getLast some]
      rfl
  rw [commands, List.map_append, List.map_cons, h.letters, List.map_map, stub]
  rfl

end SmoothCurve

/-- Pieces through all segments. The first of them has no piece before it that would give it a control point. -/
def piecesFrom (control first second : Point) (rest : List Point) : List CurveCommand :=
  .cubic control (bend first second) (middle first second) :: smoothPieces second rest

theorem map_letter_smoothPieces (p : Point) (rest : List Point) :
    (smoothPieces p rest).map letter = List.replicate rest.length 'S' := by
  induction rest generalizing p with
  | nil => rfl
  | cons next rest ih => rw [smoothPieces, List.map_cons, ih, List.length_cons, List.replicate_succ]; rfl

theorem map_finish_smoothPieces (p : Point) (rest : List Point) :
    (smoothPieces p rest).map finish = List.zipWith middle (p :: rest) rest := by
  induction rest generalizing p with
  | nil => rfl
  | cons next rest ih => rw [smoothPieces, List.map_cons, ih, List.zipWith_cons_cons]; rfl

theorem getLast?_zipWith_tail {α β : Type} (f : α → α → β) (a : α) (rest : List α) :
    (List.zipWith f (a :: rest) rest).getLast? = rest.getLast?.map (f (rest.dropLast.getLastD a)) := by
  induction rest generalizing a with
  | nil => rfl
  | cons b rest ih =>
    cases rest with
    | nil => rfl
    | cons c rest =>
      rw [List.zipWith_cons_cons, List.zipWith_cons_cons, List.getLast?_cons_cons, ← List.zipWith_cons_cons, ih,
        List.getLast?_cons_cons, List.dropLast_cons_cons, List.getLastD_cons]

section

variable {first second : Point} {rest : List Point}

theorem map_letter_piecesFrom (control : Point) :
    (piecesFrom control first second rest).map letter = 'C' :: List.replicate rest.length 'S' :=
  congrArg (_ :: ·) (map_letter_smoothPieces second rest)

theorem map_finish_piecesFrom (control : Point) : (piecesFrom control first second rest).map finish =
    List.zipWith middle (first :: second :: rest) (second :: rest) :=
  congrArg (_ :: ·) (map_finish_smoothPieces second rest)

/-- The curve through a loop comes back from the point before the last one. -/
theorem exists_follows_of_loop (closed : isClosed (first :: second :: rest))
    (loop : IsLoop (first :: second :: rest)) :
    ∃ c : SmoothCurve, c.Follows (first :: second :: rest) ∧ curve (first :: second :: rest) = c.commands := by
  let before := (second :: rest).dropLast.getLastD first
  refine ⟨⟨middle before first, piecesFrom (before.partway first (hundredths 70)) first second rest, none⟩,
    ⟨map_letter_piecesFrom _, map_finish_piecesFrom _, fun _ => ⟨?_, rfl⟩, absurd loop⟩, ?_⟩
  · rw [map_finish_piecesFrom, getLast?_zipWith_tail, ← List.getLast?_cons_cons, ← loop.2]
    rfl
  · rw [curve, if_pos closed, if_pos closed]
    rfl

theorem exists_follows_of_not_loop (closed : ¬isClosed (first :: second :: rest))
    (loop : ¬IsLoop (first :: second :: rest)) :
    ∃ c : SmoothCurve, c.Follows (first :: second :: rest) ∧ curve (first :: second :: rest) = c.commands := by
  refine ⟨⟨first, piecesFrom (bend first second) first second rest, some (rest.getLastD second)⟩,
    ⟨map_letter_piecesFrom _, map_finish_piecesFrom _, fun h => absurd h loop, fun _ => ⟨rfl, ?_⟩⟩, ?_⟩
  · rw [List.getLast?_cons_cons, List.getLast?_cons, List.getLastD_eq_getLast?]
  · rw [curve, if_neg closed, if_neg closed]
    rfl

end

theorem exists_follows {points : List Point} (finite : ∀ p ∈ points, p.IsFinite) (plain : ∀ p ∈ points, p.Plain)
    (two : 2 ≤ points.length) : ∃ c : SmoothCurve, c.Follows points ∧ curve points = c.commands := by
  match points with
  | [] | [_] => simp at two
  | first :: second :: rest =>
    have closed := isClosed_iff finite plain
    by_cases loop : IsLoop (first :: second :: rest)
    · exact exists_follows_of_loop (closed.mpr loop) loop
    · exact exists_follows_of_not_loop (closed.not.mpr loop) loop

def outAndBack : List Point := [⟨0, 0⟩, ⟨100, 0⟩, ⟨0, 0⟩]

end HexAtlas
