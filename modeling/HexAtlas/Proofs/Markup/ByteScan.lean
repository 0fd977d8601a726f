import HexAtlas.Proofs.Markup.FoundName
import HexAtlas.Proofs.Markup.MarkedPieces
import HexAtlas.Proofs.Text.Bytes

namespace HexAtlas

open ReferenceKind

namespace ByteScan

def isQuote (b : UInt8) : Bool := b = '"'.toUInt8 || b = '\''.toUInt8

def isPlainBlank (b : UInt8) : Bool := [' ', '\t', '\n', '\x0c', '\r'].any fun c => b = c.toUInt8

/-- The length of a nonempty run of bytes before the first `stop`. -/
def run? (stop : UInt8) (bs : List UInt8) : Option Nat := (bs.findIdx? (· = stop)).filter (0 < ·)

/-- The length of what stands before a quoted name, the quote and the hash that a fragment takes, and of the
name. -/
def quoted? (fragment : Bool) (bs : List UInt8) : Option (Nat × Nat) := do
  let quote ← bs.head?
  if isQuote quote then
    if fragment then
      if bs[1]? = some '#'.toUInt8 then (run? quote (bs.drop 2)).map (2, ·) else none
    else (run? quote (bs.drop 1)).map (1, ·)
  else none

def idStart : List UInt8 := bytes "id=".toList

def hrefStart : List UInt8 := bytes "href=".toList

def urlStart : List UInt8 := bytes "url(#".toList

/-- The kind of a name whose opening stands at the front, and the lengths of the opening and of the name. -/
def name? (before : Option UInt8) (bs : List UInt8) : Option (ReferenceKind × Nat × Nat) :=
  let spaced := before.any isPlainBlank
  if spaced && idStart.isPrefixOf bs then
    (quoted? false (bs.drop 3)).map fun (opening, name) => (id, 3 + opening, name)
  else if (spaced || before = some ':'.toUInt8) && hrefStart.isPrefixOf bs then
    (quoted? true (bs.drop 5)).map fun (opening, name) => (href, 5 + opening, name)
  else if urlStart.isPrefixOf bs then (run? ')'.toUInt8 (bs.drop 5)).map (url, 5, ·)
  else none

theorem pos_of_name? {before : Option UInt8} {bs : List UInt8} {kind : ReferenceKind} {opening name : Nat}
    (h : name? before bs = some (kind, opening, name)) : 0 < opening + name := by
  unfold name? at h
  simp only at h
  split_ifs at h
  all_goals
    obtain ⟨_, _, same⟩ := Option.map_eq_some_iff.mp h
    cases same
    omega

/-- The names from the byte at `place` on, each with the place of its first byte and of the first one behind it. -/
def scanFrom (bs : List UInt8) (place : Nat) : List (ReferenceKind × Nat × Nat) :=
  if place < bs.length then
    match _h : name? (bs.take place).getLast? (bs.drop place) with
    | some (kind, opening, name) =>
      (kind, place + opening, place + opening + name) :: scanFrom bs (place + opening + name)
    | none => scanFrom bs (place + 1)
  else []
termination_by bs.length - place
decreasing_by
  · have := pos_of_name? _h
    omega
  · omega

def scan (bs : List UInt8) : List (ReferenceKind × Nat × Nat) := scanFrom bs 0

theorem run?_eq_some_iff {stop : UInt8} {bs : List UInt8} {n : Nat} :
    run? stop bs = some n ↔
      ∃ name rest, bs = name ++ stop :: rest ∧ stop ∉ name ∧ name ≠ [] ∧ n = name.length := by
  rw [run?, Option.filter_eq_some_iff, List.findIdx?_eq_some_iff_getElem]
  constructor
  · rintro ⟨⟨short, found, earlier⟩, filled⟩
    refine ⟨bs.take n, bs.drop (n + 1), ?_, ?_, ?_, ?_⟩
    · rw [← of_decide_eq_true found, List.getElem_cons_drop, List.take_append_drop]
    · intro member
      obtain ⟨k, below, same⟩ := List.getElem_of_mem member
      rw [List.length_take] at below
      rw [List.getElem_take] at same
      exact earlier k (by omega) (decide_eq_true same)
    · exact List.ne_nil_of_length_pos (by rw [List.length_take]; simp at filled; omega)
    · rw [List.length_take]
      omega
  · rintro ⟨name, rest, rfl, free, filled, rfl⟩
    refine ⟨⟨by simp, by simp, fun k below => ?_⟩, by simpa using List.length_pos_iff.mpr filled⟩
    rw [List.getElem_append_left below, decide_eq_true_eq]
    exact fun same => free (same ▸ List.getElem_mem below)

/-- Whether an opening of the kind may come after a byte. -/
def mayFollow (kind : ReferenceKind) (before : Option UInt8) : Bool :=
  match kind with
  | .id => before.any isPlainBlank
  | .href => before.any isPlainBlank || before = some ':'.toUInt8
  | .url => true

/-- A name stands between the bytes of an opening and of its stop. -/
structure NameAt (before : Option UInt8) (bs : List UInt8) (entry : ReferenceKind × List Char × Char)
    (name rest : List UInt8) : Prop where
  allowed : mayFollow entry.1 before = true
  parts : bs = bytes entry.2.1 ++ (name ++ entry.2.2.toUInt8 :: rest)
  nonempty : name ≠ []
  free : entry.2.2.toUInt8 ∉ name

section Branches

variable {before : Option UInt8} {bs : List UInt8} {name : Nat}

theorem name?_of_id (allowed : mayFollow .id before = true) (start : idStart.isPrefixOf bs = true)
    (found : quoted? false (bs.drop 3) = some (1, name)) : name? before bs = some (.id, 4, name) := by
  rw [mayFollow] at allowed
  simp only [name?, allowed, start, found, Bool.and_self, if_true, Option.map_some]

theorem name?_of_href (allowed : mayFollow .href before = true) (other : idStart.isPrefixOf bs = false)
    (start : hrefStart.isPrefixOf bs = true) (found : quoted? true (bs.drop 5) = some (2, name)) :
    name? before bs = some (.href, 7, name) := by
  rw [mayFollow] at allowed
  simp only [name?, allowed, other, start, found, Bool.and_false, Bool.false_eq_true, Bool.and_self, if_false,
    if_true, Option.map_some]

theorem name?_of_url (other : idStart.isPrefixOf bs = false) (other' : hrefStart.isPrefixOf bs = false)
    (start : urlStart.isPrefixOf bs = true) (found : run? ')'.toUInt8 (bs.drop 5) = some name) :
    name? before bs = some (.url, 5, name) := by
  simp only [name?, other, other', start, found, Bool.and_false, Bool.false_eq_true, if_false, if_true,
    Option.map_some]

end Branches

/-- A name between an opening and its stop is the one found. -/
theorem name?_of_nameAt {before : Option UInt8} {bs name rest : List UInt8}
    {entry : ReferenceKind × List Char × Char} (member : entry ∈ openings) (h : NameAt before bs entry name rest) :
    name? before bs = some (entry.1, (bytes entry.2.1).length, name.length) := by
  have cut : run? entry.2.2.toUInt8 (name ++ entry.2.2.toUInt8 :: rest) = some name.length :=
    run?_eq_some_iff.mpr ⟨name, rest, rfl, h.free, h.nonempty, rfl⟩
  have allowed := h.allowed
  rw [h.parts]
  generalize name ++ entry.2.2.toUInt8 :: rest = body at cut
  simp only [openings, List.mem_cons, List.not_mem_nil, or_false] at member
  rcases member with rfl | rfl | rfl | rfl | rfl
  · exact name?_of_id allowed rfl (congrArg (Option.map (1, ·)) cut)
  · exact name?_of_id allowed rfl (congrArg (Option.map (1, ·)) cut)
  · exact name?_of_href allowed rfl rfl (congrArg (Option.map (2, ·)) cut)
  · exact name?_of_href allowed rfl rfl (congrArg (Option.map (2, ·)) cut)
  · exact name?_of_url rfl rfl rfl cut

theorem exists_of_quoted? {fragment : Bool} {bs : List UInt8} {found : Nat × Nat}
    (h : quoted? fragment bs = some found) :
    ∃ quote ∈ ['"', '\''], ∃ name rest,
      bs = quote.toUInt8 :: (bytes (if fragment then ['#'] else []) ++ (name ++ quote.toUInt8 :: rest)) ∧
        quote.toUInt8 ∉ name ∧ name ≠ [] := by
  obtain ⟨b, atHead, h⟩ := Option.bind_eq_some_iff.mp h
  obtain ⟨body, rfl⟩ := List.head?_eq_some_iff.mp atHead
  split at h
  · rename_i isQuote
    simp only [ByteScan.isQuote, Bool.or_eq_true, decide_eq_true_eq] at isQuote
    obtain ⟨quote, member, rfl⟩ : ∃ quote ∈ ['"', '\''], b = quote.toUInt8 := by
      rcases isQuote with rfl | rfl
      · exact ⟨'"', by simp, rfl⟩
      · exact ⟨'\'', by simp, rfl⟩
    split at h
    · rename_i isFragment
      split at h
      · rename_i hash
        obtain ⟨n, cut, -⟩ := Option.map_eq_some_iff.mp h
        obtain ⟨name, rest, behind, free, filled, -⟩ := run?_eq_some_iff.mp cut
        refine ⟨quote, member, name, rest, ?_, free, filled⟩
        cases body with
        | nil => cases hash
        | cons c more =>
          obtain rfl : c = '#'.toUInt8 := Option.some.inj hash
          rw [if_pos isFragment, ← behind]
          rfl
      · cases h
    · rename_i notFragment
      obtain ⟨n, cut, -⟩ := Option.map_eq_some_iff.mp h
      obtain ⟨name, rest, behind, free, filled, -⟩ := run?_eq_some_iff.mp cut
      refine ⟨quote, member, name, rest, ?_, free, filled⟩
      rw [if_neg notFragment, ← behind]
      rfl
  · cases h

theorem exists_nameAt_of_name? {before : Option UInt8} {bs : List UInt8} {found : ReferenceKind × Nat × Nat}
    (h : name? before bs = some found) : ∃ entry ∈ openings, ∃ name rest, NameAt before bs entry name rest := by
  have begun : ∀ {start : List UInt8}, start.isPrefixOf bs = true → bs = start ++ bs.drop start.length :=
    fun start => (List.prefix_iff_eq_append.mp (List.isPrefixOf_iff_prefix.mp start)).symm
  have quote_cases : ∀ {quote : Char}, quote ∈ ['"', '\''] → quote = '"' ∨ quote = '\'' := by simp
  unfold name? at h
  simp only at h
  split at h
  · rename_i start
    obtain ⟨spaced, start⟩ := Bool.and_eq_true_iff.mp start
    obtain ⟨_, quoted, -⟩ := Option.map_eq_some_iff.mp h
    obtain ⟨quote, member, name, rest, behind, free, filled⟩ := exists_of_quoted? quoted
    have parts := (begun start).trans (congrArg (idStart ++ ·) behind)
    rcases quote_cases member with rfl | rfl
    · exact ⟨(.id, "id=\"".toList, '"'), by decide, name, rest, spaced, parts, filled, free⟩
    · exact ⟨(.id, "id='".toList, '\''), by decide, name, rest, spaced, parts, filled, free⟩
  · split at h
    · rename_i start
      obtain ⟨allowed, start⟩ := Bool.and_eq_true_iff.mp start
      obtain ⟨_, quoted, -⟩ := Option.map_eq_some_iff.mp h
      obtain ⟨quote, member, name, rest, behind, free, filled⟩ := exists_of_quoted? quoted
      have parts := (begun start).trans (congrArg (hrefStart ++ ·) behind)
      rcases quote_cases member with rfl | rfl
      · exact ⟨(.href, "href=\"#".toList, '"'), by decide, name, rest, allowed, parts, filled, free⟩
      · exact ⟨(.href, "href='#".toList, '\''), by decide, name, rest, allowed, parts, filled, free⟩
    · split at h
      · rename_i start
        obtain ⟨_, cut, -⟩ := Option.map_eq_some_iff.mp h
        obtain ⟨name, rest, behind, free, filled, -⟩ := run?_eq_some_iff.mp cut
        have parts := (begun start).trans (congrArg (urlStart ++ ·) behind)
        exact ⟨(.url, "url(#".toList, ')'), by decide, name, rest, rfl, parts, filled, free⟩
      · cases h

theorem isAscii_of_mem_openings {entry : ReferenceKind × List Char × Char} (h : entry ∈ openings) :
    (∀ c ∈ entry.2.1, IsAscii c) ∧ IsAscii entry.2.2 := by
  have all : openings.all (fun entry => entry.2.1.all (IsAscii ·) && IsAscii entry.2.2) = true := by decide
  simpa using List.all_eq_true.mp all entry h

theorem any_isPlainBlank_bytes (cs : List Char) :
    (bytes cs).getLast?.any isPlainBlank = cs.getLast?.any HexAtlas.isPlainBlank := by
  have ascii : ∀ c ∈ [' ', '\t', '\n', '\x0c', '\r'], IsAscii c := by simp [IsAscii]
  rw [Bool.eq_iff_iff, Option.any_eq_true, Option.any_eq_true]
  constructor
  · rintro ⟨b, last, blank⟩
    obtain ⟨c, member, same⟩ := List.any_eq_true.mp blank
    obtain rfl := of_decide_eq_true same
    refine ⟨c, (getLast?_bytes_eq_iff (ascii c member)).mp last, ?_⟩
    simpa [HexAtlas.isPlainBlank, or_assoc] using member
  · rintro ⟨c, last, blank⟩
    have member : c ∈ [' ', '\t', '\n', '\x0c', '\r'] := by simpa [HexAtlas.isPlainBlank, or_assoc] using blank
    exact ⟨c.toUInt8, (getLast?_bytes_eq_iff (ascii c member)).mpr last,
      List.any_eq_true.mpr ⟨c, member, decide_eq_true rfl⟩⟩

/-- The last byte before a place tells as much as the last character there. -/
theorem mayFollow_bytes (kind : ReferenceKind) (cs : List Char) :
    mayFollow kind (bytes cs).getLast? = kind.mayFollow cs.getLast? := by
  cases kind with
  | id => exact any_isPlainBlank_bytes cs
  | href =>
    have colon : decide ((bytes cs).getLast? = some ':'.toUInt8) = cs.getLast?.any (· = ':') := by
      rw [Bool.eq_iff_iff, decide_eq_true_eq, getLast?_bytes_eq_iff (by decide), Option.any_eq_true]
      simp
    rw [mayFollow, any_isPlainBlank_bytes, colon]
    cases last : cs.getLast? <;> simp [ReferenceKind.mayFollow]
  | url => rfl

/-- At a character, the bytes of a text have the name that the text has there. -/
theorem name?_bytes (front back : List Char) :
    name? (bytes front).getLast? (bytes back) =
      (findName? front.getLast? back).map
        fun found => (found.kind, byteCount found.opening, byteCount found.name) := by
  cases here : findName? front.getLast? back with
  | some found =>
    obtain ⟨entry, member, place⟩ := exists_at_of_findName? here
    obtain ⟨after, rest⟩ := List.head?_eq_some_iff.mp place.stop
    have ascii := (isAscii_of_mem_openings member).2
    have named : NameAt (bytes front).getLast? (bytes back) entry (bytes found.name) (bytes after) := by
      refine ⟨?_, ?_, ?_, ?_⟩
      · rw [mayFollow_bytes, place.allowed]
      · rw [place.parts, rest, bytes_append, bytes_append, bytes_cons_of_isAscii ascii]
      · exact bytes_eq_nil_iff.not.mpr place.nonempty
      · exact (toUInt8_mem_bytes_iff ascii).not.mpr place.free
    rw [name?_of_nameAt member named, Option.map_some, place.kind, place.opening, length_bytes, length_bytes]
  | none =>
    rw [Option.map_none]
    by_contra other
    obtain ⟨_, some⟩ := Option.ne_none_iff_exists'.mp other
    obtain ⟨entry, member, name, rest, named⟩ := exists_nameAt_of_name? some
    obtain ⟨ascii, stop⟩ := isAscii_of_mem_openings member
    obtain ⟨body, rfl, behind⟩ := exists_of_bytes_eq_append ascii named.parts
    obtain ⟨name, rest, rfl, rfl, rfl⟩ := exists_append_of_bytes stop behind
    have place : NameFound.At ⟨entry.1, entry.2.1, name, entry.2.2 :: rest⟩ front.getLast?
        (entry.2.1 ++ (name ++ entry.2.2 :: rest)) entry :=
      ⟨by rw [← mayFollow_bytes, named.allowed], rfl, rfl, rfl, bytes_eq_nil_iff.not.mp named.nonempty,
        (toUInt8_mem_bytes_iff stop).not.mp named.free, rfl⟩
    rw [findName?_of_at member place] at here
    cases here

theorem scanFrom_length (bs : List UInt8) : scanFrom bs bs.length = [] := by
  rw [scanFrom, if_neg (Nat.lt_irrefl _)]

theorem scanFrom_missing {front back : List UInt8} {b : UInt8} (h : name? front.getLast? (b :: back) = none) :
    scanFrom (front ++ b :: back) front.length = scanFrom (front ++ b :: back) (front.length + 1) := by
  rw [scanFrom, if_pos (by simp), List.take_left, List.drop_left]
  split
  · rename_i found
    rw [h] at found
    cases found
  · rfl

theorem scanFrom_found {front back : List UInt8} {kind : ReferenceKind} {opening name : Nat}
    (h : name? front.getLast? back = some (kind, opening, name)) (filled : back ≠ []) :
    scanFrom (front ++ back) front.length =
      (kind, front.length + opening, front.length + opening + name) ::
        scanFrom (front ++ back) (front.length + opening + name) := by
  have short : front.length < (front ++ back).length := by
    rw [List.length_append]
    exact Nat.lt_add_of_pos_right (List.length_pos_iff.mpr filled)
  rw [scanFrom, if_pos short, List.take_left, List.drop_left]
  split
  · rename_i found
    rw [h] at found
    cases found
    rfl
  · rename_i missing
    rw [h] at missing
    cases missing

/-- No name begins at a byte beyond the ASCII range. -/
theorem name?_of_le {b : UInt8} (h : 128 ≤ b.toNat) (before : Option UInt8) (rest : List UInt8) :
    name? before (b :: rest) = none := by
  by_contra other
  obtain ⟨_, some⟩ := Option.ne_none_iff_exists'.mp other
  obtain ⟨entry, member, _, _, named⟩ := exists_nameAt_of_name? some
  have filled : ∀ entry ∈ openings, entry.2.1 ≠ [] := by decide
  obtain ⟨c, more, opening⟩ := List.exists_cons_of_ne_nil (filled entry member)
  have ascii : IsAscii c := (isAscii_of_mem_openings member).1 c (opening ▸ List.mem_cons_self)
  have parts := named.parts
  rw [opening, bytes_cons_of_isAscii ascii] at parts
  rw [(List.cons.inj parts).1, toNat_toUInt8 ascii] at h
  exact absurd ascii (Nat.not_lt.mpr h)

theorem scanFrom_skip (front : List UInt8) {inner : List UInt8} (h : ∀ b ∈ inner, 128 ≤ b.toNat)
    (back : List UInt8) :
    scanFrom (front ++ (inner ++ back)) front.length =
      scanFrom (front ++ (inner ++ back)) (front.length + inner.length) := by
  induction inner generalizing front with
  | nil => rfl
  | cons b more ih =>
    obtain ⟨first, others⟩ := List.forall_mem_cons.mp h
    have later := ih (front ++ [b]) others
    rw [List.append_assoc, List.singleton_append, List.length_append, List.length_singleton] at later
    rw [List.cons_append, scanFrom_missing (name?_of_le first _ _), later, List.length_cons]
    congr 1
    omega

/-- Only the first byte of a character may be one of the ASCII range. -/
theorem exists_utf8EncodeChar_eq (c : Char) :
    ∃ b inner, String.utf8EncodeChar c = b :: inner ∧ ∀ b ∈ inner, 128 ≤ b.toNat := by
  by_cases ascii : IsAscii c
  · exact ⟨c.toUInt8, [], utf8EncodeChar_of_isAscii ascii, List.forall_mem_nil _⟩
  · obtain ⟨b, inner, parts⟩ := List.exists_cons_of_ne_nil (String.utf8EncodeChar_ne_nil (c := c))
    exact ⟨b, inner, parts, fun _ member => le_of_mem_utf8EncodeChar ascii (parts ▸ List.mem_cons_of_mem b member)⟩

/-- From a character on, the scan finds the names of the pieces of the text. -/
theorem scanFrom_bytes (front back : List Char) :
    scanFrom (bytes (front ++ back)) (byteCount front) =
      (referencesFrom (byteCount front) (piecesAfter front.getLast? back)).map
        fun r => (r.kind, r.start, r.stop) := by
  generalize last : front.getLast? = before
  fun_induction piecesAfter before back generalizing front with
  | case1 before => rw [List.append_nil, ← length_bytes, scanFrom_length]; rfl
  | case2 before c rest found h ih =>
    obtain ⟨parts, nonempty⟩ := NameFound.eq_append h
    have place : (front ++ (found.opening ++ found.name)).getLast? = found.name.getLast? := by
      rw [← List.append_assoc, List.getLast?_append_of_ne_nil _ nonempty]
    have here := name?_bytes front (c :: rest)
    rw [last, h, Option.map_some] at here
    have later := ih _ place
    rw [byteCount_append, byteCount_append, ← Nat.add_assoc, List.append_assoc, ← parts] at later
    rw [bytes_append, ← length_bytes, scanFrom_found here (bytes_eq_nil_iff.not.mpr (List.cons_ne_nil c rest)),
      ← bytes_append, length_bytes, later]
    rfl
  | case3 before c rest h ih =>
    obtain ⟨b, inner, parts, high⟩ := exists_utf8EncodeChar_eq c
    have here := name?_bytes front (c :: rest)
    rw [last, h, Option.map_none, bytes_cons, parts, List.cons_append] at here
    have text : bytes (front ++ c :: rest) = bytes front ++ b :: (inner ++ bytes rest) := by
      rw [bytes_append, bytes_cons, parts, List.cons_append]
    -- the other bytes of the character are passed one by one
    have passed := scanFrom_skip (bytes front ++ [b]) high (bytes rest)
    rw [List.append_assoc, List.singleton_append, ← text] at passed
    have size : (bytes front ++ [b]).length + inner.length = byteCount (front ++ [c]) := by
      rw [← length_bytes, bytes_append, bytes_cons, parts, bytes_nil]
      simp only [List.length_append, List.length_cons, List.length_nil]
      omega
    have later := ih (front ++ [c]) List.getLast?_concat
    rw [List.append_assoc, List.singleton_append] at later
    calc scanFrom (bytes (front ++ c :: rest)) (byteCount front)
        = scanFrom (bytes (front ++ c :: rest)) (bytes front ++ [b]).length := by
          rw [text, ← length_bytes, scanFrom_missing here, List.length_append, List.length_singleton]
      _ = scanFrom (bytes (front ++ c :: rest)) (byteCount (front ++ [c])) := by rw [passed, size]
      _ = _ := by rw [later, byteCount_append]; rfl

theorem scan_bytes (cs : List Char) :
    scan (bytes cs) = (references cs).map fun r => (r.kind, r.start, r.stop) :=
  scanFrom_bytes [] cs

end ByteScan

/-- The name is the part of the text between its places, and stands behind an opening of its kind and before the
stop that belongs to that, the first one behind the opening. -/
structure Reference.StandsIn (r : Reference) (cs : List Char) : Prop where
  slice : IsSlice cs r.start r.stop r.name
  ordered : r.start < r.stop
  bounded : ∃ opening stop before after, (r.kind, opening, stop) ∈ openings ∧
    cs = before ++ (opening ++ (r.name ++ stop :: after)) ∧ r.start = byteCount (before ++ opening) ∧
      r.kind.mayFollow before.getLast? = true ∧ stop ∉ r.name

/-- What is found at a place of a text stands there. -/
theorem standsIn_of_findName? {front back : List Char} {found : NameFound}
    (h : findName? front.getLast? back = some found) :
    Reference.StandsIn ⟨found.kind, found.name, byteCount (front ++ found.opening),
      byteCount (front ++ found.opening) + byteCount found.name⟩ (front ++ back) := by
  obtain ⟨entry, member, place⟩ := exists_at_of_findName? h
  obtain ⟨after, rest⟩ := List.head?_eq_some_iff.mp place.stop
  have parts : front ++ back = (front ++ found.opening) ++ (found.name ++ found.rest) := by
    rw [place.parts, place.opening, List.append_assoc]
  refine ⟨parts ▸ isSlice_append _ _ _, Nat.lt_add_of_pos_right (byteCount_pos place.nonempty), ?_⟩
  refine ⟨found.opening, entry.2.2, front, after, ?_, ?_, rfl, ?_, place.free⟩
  · rw [place.kind, place.opening]
    exact member
  · rw [place.parts, place.opening, rest]
  · rw [place.kind]
    exact place.allowed

/-- Names from a place of a text on stand in it, begin behind that place, and do not meet. -/
theorem standsIn_of_mem_referencesFrom (front back : List Char) :
    let found := referencesFrom (byteCount front) (piecesAfter front.getLast? back)
    (∀ r ∈ found, r.StandsIn (front ++ back) ∧ byteCount front ≤ r.start) ∧
      found.Pairwise fun r later => r.stop ≤ later.start := by
  generalize last : front.getLast? = before
  fun_induction piecesAfter before back generalizing front with
  | case1 => exact ⟨List.forall_mem_nil _, .nil⟩
  | case2 before c rest found h ih =>
    obtain ⟨parts, nonempty⟩ := NameFound.eq_append h
    have place : (front ++ (found.opening ++ found.name)).getLast? = found.name.getLast? := by
      rw [← List.append_assoc, List.getLast?_append_of_ne_nil _ nonempty]
    obtain ⟨later, apart⟩ := ih _ place
    have own := standsIn_of_findName? (last ▸ h)
    rw [List.append_assoc, ← parts] at later
    rw [byteCount_append, byteCount_append, ← Nat.add_assoc] at later apart
    rw [byteCount_append] at own
    refine ⟨List.forall_mem_cons.mpr ⟨⟨own, Nat.le_add_right _ _⟩, fun r member => ?_⟩,
      List.pairwise_cons.mpr ⟨fun r member => (later r member).2, apart⟩⟩
    obtain ⟨stands, behind⟩ := later r member
    exact ⟨stands, by omega⟩
  | case3 before c rest h ih =>
    obtain ⟨later, apart⟩ := ih (front ++ [c]) List.getLast?_concat
    rw [List.append_assoc, List.singleton_append] at later
    rw [byteCount_append] at later apart
    refine ⟨fun r member => ?_, apart⟩
    obtain ⟨stands, behind⟩ := later r member
    exact ⟨stands, by omega⟩

/-- Every name found in markup is a part of it between boundaries of characters, with an opening of its kind before
it and the stop that belongs to that behind it, none of them inside; the names follow each other without meeting. A
scan of the bytes finds the same names in the same places. -/
theorem standsIn_pairwise_references (markup : List Char) :
    (∀ r ∈ references markup, r.StandsIn markup) ∧
      (references markup).Pairwise (fun r later => r.stop ≤ later.start) ∧
      ByteScan.scan (bytes markup) = (references markup).map fun r => (r.kind, r.start, r.stop) := by
  obtain ⟨stands, apart⟩ := standsIn_of_mem_referencesFrom [] markup
  exact ⟨fun r member => (stands r member).1, apart, ByteScan.scan_bytes markup⟩

end HexAtlas
