import HexAtlas.Text.Split
import Mathlib.Data.List.Basic

namespace HexAtlas

theorem foldl_byteCount (n : Nat) (cs : List Char) : cs.foldl (fun n c => n + c.utf8Size) n = n + byteCount cs := by
  unfold byteCount
  induction cs generalizing n with
  | nil => rfl
  | cons c rest ih =>
    rw [List.foldl_cons, List.foldl_cons, ih, ih (0 + c.utf8Size)]
    omega

theorem byteCount_cons (c : Char) (rest : List Char) : byteCount (c :: rest) = c.utf8Size + byteCount rest := by
  rw [byteCount, List.foldl_cons, foldl_byteCount]
  omega

theorem byteCount_append (front back : List Char) :
    byteCount (front ++ back) = byteCount front + byteCount back := by
  rw [byteCount, List.foldl_append, foldl_byteCount, foldl_byteCount]
  omega

theorem byteCount_pos {cs : List Char} (h : cs ≠ []) : 0 < byteCount cs := by
  obtain ⟨c, rest, rfl⟩ := List.exists_cons_of_ne_nil h
  rw [byteCount_cons]
  have := c.utf8Size_pos
  omega

theorem byteCount_le {cs ds : List Char} (within : cs.Sublist ds) : byteCount cs ≤ byteCount ds := by
  induction within with
  | slnil => exact Nat.le_refl _
  | cons c _ ih =>
    rw [byteCount_cons]
    exact Nat.le_add_left_of_le ih
  | cons_cons c _ ih =>
    rw [byteCount_cons, byteCount_cons]
    exact Nat.add_le_add_left ih _

/-- The text in UTF-8. -/
def bytes (cs : List Char) : List UInt8 := cs.flatMap String.utf8EncodeChar

@[simp] theorem bytes_nil : bytes [] = [] := rfl

theorem bytes_cons (c : Char) (rest : List Char) : bytes (c :: rest) = String.utf8EncodeChar c ++ bytes rest := rfl

theorem bytes_append (front back : List Char) : bytes (front ++ back) = bytes front ++ bytes back :=
  List.flatMap_append

theorem length_bytes (cs : List Char) : (bytes cs).length = byteCount cs := by
  induction cs with
  | nil => rfl
  | cons c rest ih => rw [bytes_cons, List.length_append, String.length_utf8EncodeChar, byteCount_cons, ih]

theorem utf8ByteSize_ofList (cs : List Char) : (String.ofList cs).utf8ByteSize = byteCount cs := by
  rw [← length_bytes, ← String.size_toByteArray, String.toByteArray_ofList, List.utf8Encode]
  simp [bytes]

/-- A part of a text by the places of its first byte and of the first one behind it, which are boundaries between
characters. -/
structure IsSlice (cs : List Char) (start stop : Nat) (part : List Char) : Prop where
  begins : String.Pos.Raw.IsValid (String.ofList cs) ⟨start⟩
  ends : String.Pos.Raw.IsValid (String.ofList cs) ⟨stop⟩
  within : stop ≤ byteCount cs
  bytes_eq : (bytes cs).extract start stop = bytes part

theorem isValid_byteCount (front back : List Char) :
    String.Pos.Raw.IsValid (String.ofList (front ++ back)) ⟨byteCount front⟩ := by
  refine String.Pos.Raw.isValid_ofList.mpr ⟨front.length, ?_⟩
  rw [List.take_left, utf8ByteSize_ofList]

theorem isSlice_append (before part after : List Char) :
    IsSlice (before ++ (part ++ after)) (byteCount before) (byteCount before + byteCount part) part where
  begins := isValid_byteCount before _
  ends := by
    have inner := isValid_byteCount (before ++ part) after
    rwa [byteCount_append, List.append_assoc] at inner
  within := by
    rw [byteCount_append, byteCount_append]
    omega
  bytes_eq := by
    rw [bytes_append, bytes_append, ← length_bytes, ← length_bytes]
    simp [List.extract]

/-- The characters that are a single byte. -/
def IsAscii (c : Char) : Prop := c.toNat < 128

instance (c : Char) : Decidable (IsAscii c) := inferInstanceAs (Decidable (_ < _))

theorem utf8EncodeChar_of_isAscii {c : Char} (h : IsAscii c) : String.utf8EncodeChar c = [c.toUInt8] := by
  have small : c.val.toNat ≤ 127 := Nat.le_of_lt_succ h
  rw [String.utf8EncodeChar, if_pos small]
  rfl

/-- All bytes of other characters lie above the ASCII range. -/
theorem le_of_mem_utf8EncodeChar {c : Char} (h : ¬IsAscii c) {b : UInt8} (member : b ∈ String.utf8EncodeChar c) :
    128 ≤ b.toNat := by
  have large : ¬c.val.toNat ≤ 127 := fun small => h (Nat.lt_succ_of_le small)
  rw [String.utf8EncodeChar, if_neg large] at member
  split at member
  · simp at member
    rcases member with rfl | rfl <;> simp <;> omega
  · split at member
    · simp at member
      rcases member with rfl | rfl | rfl <;> simp <;> omega
    · simp at member
      rcases member with rfl | rfl | rfl | rfl <;> simp <;> omega

theorem bytes_cons_of_isAscii {c : Char} (h : IsAscii c) (rest : List Char) :
    bytes (c :: rest) = c.toUInt8 :: bytes rest := by
  rw [bytes_cons, utf8EncodeChar_of_isAscii h, List.singleton_append]

theorem toNat_toUInt8 {c : Char} (h : IsAscii c) : c.toUInt8.toNat = c.toNat := by
  have small : c.toNat < 128 := h
  exact Nat.mod_eq_of_lt (show c.toNat < 256 by omega)

theorem toUInt8_inj {a b : Char} (left : IsAscii a) (right : IsAscii b) (same : a.toUInt8 = b.toUInt8) : a = b := by
  have codes := congrArg UInt8.toNat same
  rw [toNat_toUInt8 left, toNat_toUInt8 right] at codes
  exact Char.ext (UInt32.toNat_inj.mp codes)

/-- A byte of the ASCII range stands for its character and is part of no other one. -/
theorem toUInt8_mem_utf8EncodeChar_iff {a c : Char} (h : IsAscii a) :
    a.toUInt8 ∈ String.utf8EncodeChar c ↔ c = a := by
  constructor
  · intro member
    by_cases ascii : IsAscii c
    · rw [utf8EncodeChar_of_isAscii ascii, List.mem_singleton] at member
      exact (toUInt8_inj h ascii member).symm
    · have above := le_of_mem_utf8EncodeChar ascii member
      rw [toNat_toUInt8 h] at above
      exact absurd h (Nat.not_lt.mpr above)
  · rintro rfl
    rw [utf8EncodeChar_of_isAscii h]
    exact List.mem_singleton_self _

theorem toUInt8_mem_bytes_iff {a : Char} (h : IsAscii a) {cs : List Char} : a.toUInt8 ∈ bytes cs ↔ a ∈ cs := by
  simp only [bytes, List.mem_flatMap, toUInt8_mem_utf8EncodeChar_iff h, exists_eq_right]

theorem bytes_eq_nil_iff {cs : List Char} : bytes cs = [] ↔ cs = [] := by
  cases cs with
  | nil => simp
  | cons c rest => simp [bytes_cons, String.utf8EncodeChar_ne_nil]

/-- Where a byte of the ASCII range stands, the text has its character. -/
theorem exists_append_of_bytes {a : Char} (h : IsAscii a) {cs : List Char} {xs ys : List UInt8}
    (shape : bytes cs = xs ++ a.toUInt8 :: ys) :
    ∃ front back, cs = front ++ a :: back ∧ bytes front = xs ∧ bytes back = ys := by
  induction cs generalizing xs with
  | nil => simp at shape
  | cons c rest ih =>
    rw [bytes_cons] at shape
    by_cases own : c = a
    · subst own
      rw [utf8EncodeChar_of_isAscii h, List.singleton_append] at shape
      cases xs with
      | nil => exact ⟨[], rest, rfl, rfl, (List.cons.inj shape).2⟩
      | cons x more =>
        obtain ⟨rfl, later⟩ := List.cons.inj shape
        obtain ⟨front, back, rfl, rfl, rfl⟩ := ih later
        exact ⟨c :: front, back, rfl, bytes_cons_of_isAscii h front, rfl⟩
    · have free : a.toUInt8 ∉ String.utf8EncodeChar c :=
        fun member => own ((toUInt8_mem_utf8EncodeChar_iff h).mp member)
      obtain ⟨inner, rfl, later⟩ : ∃ inner, xs = String.utf8EncodeChar c ++ inner ∧
          bytes rest = inner ++ a.toUInt8 :: ys := by
        rcases List.append_eq_append_iff.mp shape with ⟨inner, rfl, later⟩ | ⟨inner, whole, later⟩
        · exact ⟨inner, rfl, later⟩
        · cases inner with
          | nil => exact ⟨[], by simpa using whole.symm, by simpa using later.symm⟩
          | cons x more =>
            obtain ⟨rfl, -⟩ := List.cons.inj later
            exact absurd (whole ▸ by simp) free
      obtain ⟨front, back, rfl, rfl, rfl⟩ := ih later
      exact ⟨c :: front, back, rfl, rfl, rfl⟩

/-- A text whose bytes start with those of ASCII characters starts with these. -/
theorem exists_of_bytes_eq_append {start : List Char} (ascii : ∀ c ∈ start, IsAscii c) {cs : List Char}
    {rest : List UInt8} (shape : bytes cs = bytes start ++ rest) :
    ∃ back, cs = start ++ back ∧ bytes back = rest := by
  induction start generalizing cs with
  | nil => exact ⟨cs, rfl, shape⟩
  | cons a more ih =>
    obtain ⟨first, others⟩ := List.forall_mem_cons.mp ascii
    rw [bytes_cons_of_isAscii first, ← List.nil_append (_ :: _ ++ _), List.cons_append] at shape
    obtain ⟨front, back, rfl, none, later⟩ := exists_append_of_bytes first shape
    obtain rfl := bytes_eq_nil_iff.mp none
    obtain ⟨back, rfl, rfl⟩ := ih others later
    exact ⟨back, rfl, rfl⟩

theorem getLast?_bytes_eq_iff {a : Char} (h : IsAscii a) {cs : List Char} :
    (bytes cs).getLast? = some a.toUInt8 ↔ cs.getLast? = some a := by
  constructor
  · intro last
    obtain ⟨xs, shape⟩ := List.getLast?_eq_some_iff.mp last
    obtain ⟨front, back, rfl, -, none⟩ := exists_append_of_bytes h shape
    obtain rfl := bytes_eq_nil_iff.mp none
    exact List.getLast?_concat
  · intro last
    obtain ⟨front, rfl⟩ := List.getLast?_eq_some_iff.mp last
    rw [bytes_append, bytes_cons_of_isAscii h]
    exact List.getLast?_concat

end HexAtlas
