import DeclManual.Proofs.Text.Lines
import DeclManual.Text.Encoding

/-!
# The bytes of a text

The bytes of a text in UTF-8, read as the characters of Latin-1, are again a text.  An ASCII
character is its own byte and no other byte is ASCII, so a test that only looks for ASCII
characters finds the same ones in either text, at the offsets of their bytes.
-/

namespace DeclManual
namespace Text

variable {text first second : List Char} {c b : Char} {p : Char → Bool} {place : Nat}

/-- The bytes of a character in UTF-8, each as the character with its number. -/
def encodedChar (c : Char) : List Char :=
  (String.utf8EncodeChar c).map fun byte => Char.ofNat byte.toNat

/-- The bytes of a text in UTF-8, each as the character with its number. -/
def encoded (text : List Char) : List Char :=
  text.flatMap encodedChar

@[simp] theorem encoded_nil : encoded [] = [] := rfl

@[simp] theorem encoded_cons : encoded (c :: text) = encodedChar c ++ encoded text := rfl

@[simp] theorem encoded_append : encoded (first ++ second) = encoded first ++ encoded second :=
  List.flatMap_append

/-- A byte is the number of the character made of it. -/
theorem toNat_ofNat_byte (byte : UInt8) : (Char.ofNat byte.toNat).toNat = byte.toNat := by
  have valid : byte.toNat.isValidChar := .inl (by have := byte.toNat_lt; omega)
  rw [Char.ofNat, dif_pos valid]
  rfl

/-- The bytes of an array are listed from any place on. -/
theorem toList_loop (bytes : ByteArray) (place : Nat) (before : List UInt8) :
    ByteArray.toList.loop bytes place before = before.reverse ++ bytes.data.toList.drop place := by
  fun_induction ByteArray.toList.loop bytes place before with
  | case1 place before inside hypothesis =>
      have inList : place < bytes.data.toList.length := inside
      rw [hypothesis, List.drop_eq_getElem_cons inList, List.reverse_cons, List.append_assoc]
      have isByte : bytes.get! place = bytes.data.toList[place] :=
        getElem!_pos bytes.data place inside
      rw [isByte]
      rfl
  | case2 place before outside =>
      rw [List.drop_eq_nil_of_le (Nat.le_of_not_lt outside), List.append_nil]

/-- The bytes of a text, read as Latin-1. -/
theorem toList_ofLatin1_toUTF8 (text : String) :
    (ofLatin1 text.toUTF8).toList = encoded text.toList := by
  rw [ofLatin1, String.toList_ofList, ByteArray.toList, toList_loop, List.reverse_nil,
    List.nil_append, List.drop_zero, String.toUTF8_eq_toByteArray, ← String.utf8Encode_toList,
    List.utf8Encode, List.toList_data_toByteArray, List.map_flatMap]
  rfl

/-! ## ASCII -/

/-- An `ASCII` character is one byte. -/
theorem encodedChar_of_ascii (ascii : c.toNat < 128) : encodedChar c = [c] := by
  have small : c.val.toNat ≤ 127 := Nat.le_of_lt_succ ascii
  rw [encodedChar, String.utf8EncodeChar, if_pos small, List.map_singleton, UInt8.toNat_ofNat',
    Nat.mod_eq_of_lt (by omega)]
  exact congrArg (· :: []) (Char.ofNat_toNat c)

/-- Every byte of another character is above `ASCII`. -/
theorem encodedChar_of_not_ascii (other : 128 ≤ c.toNat) (listed : b ∈ encodedChar c) :
    128 ≤ b.toNat := by
  obtain ⟨byte, isByte, rfl⟩ := List.mem_map.1 listed
  rw [toNat_ofNat_byte]
  have large : ¬ c.val.toNat ≤ 127 := Nat.not_le_of_lt other
  rw [String.utf8EncodeChar, if_neg large] at isByte
  have isLarge (n : Nat) (below : n < 256) (above : 128 ≤ n) : 128 ≤ (UInt8.ofNat n).toNat := by
    rw [UInt8.toNat_ofNat', Nat.mod_eq_of_lt below]
    exact above
  -- the first byte is at least 192, and every further one at least 128
  split at isByte
  · simp only [List.mem_cons, List.not_mem_nil, or_false] at isByte
    rcases isByte with rfl | rfl <;> exact isLarge _ (by omega) (by omega)
  · split at isByte
    · simp only [List.mem_cons, List.not_mem_nil, or_false] at isByte
      rcases isByte with rfl | rfl | rfl <;> exact isLarge _ (by omega) (by omega)
    · simp only [List.mem_cons, List.not_mem_nil, or_false] at isByte
      rcases isByte with rfl | rfl | rfl | rfl <;> exact isLarge _ (by omega) (by omega)

theorem encodedChar_ne_nil (c : Char) : encodedChar c ≠ [] := by
  rw [encodedChar, Ne, List.map_eq_nil_iff]
  exact String.utf8EncodeChar_ne_nil

theorem length_encodedChar (c : Char) : (encodedChar c).length = c.utf8Size := by
  rw [encodedChar, List.length_map, String.length_utf8EncodeChar]

/-- An `ASCII` character in front is a byte in front. -/
theorem encoded_cons_of_ascii (ascii : c.toNat < 128) (rest : List Char) :
    encoded (c :: rest) = c :: encoded rest := by
  rw [encoded_cons, encodedChar_of_ascii ascii, List.singleton_append]

theorem encoded_of_ascii (ascii : ∀ c ∈ text, c.toNat < 128) : encoded text = text := by
  induction text with
  | nil => rfl
  | cons c rest hypothesis =>
      obtain ⟨isAscii, ascii⟩ := List.forall_mem_cons.1 ascii
      rw [encoded_cons_of_ascii isAscii, hypothesis ascii]

/-- The empty text alone has no bytes. -/
@[simp] theorem encoded_eq_nil_iff : encoded text = [] ↔ text = [] := by
  cases text with
  | nil => exact Iff.rfl
  | cons c rest => simp [encodedChar_ne_nil]

/-- An `ASCII` byte is in the encoding of its own character alone. -/
theorem mem_encodedChar_of_ascii (ascii : b.toNat < 128) : b ∈ encodedChar c ↔ b = c := by
  rcases Nat.lt_or_ge c.toNat 128 with isAscii | other
  · rw [encodedChar_of_ascii isAscii, List.mem_singleton]
  · constructor
    · intro listed
      exact absurd (encodedChar_of_not_ascii other listed) (Nat.not_le_of_lt ascii)
    · rintro rfl
      exact absurd other (Nat.not_le_of_lt ascii)

/-- An ASCII character stands in the bytes of a text just when it stands in the text. -/
theorem mem_encoded_of_ascii (ascii : b.toNat < 128) : b ∈ encoded text ↔ b ∈ text := by
  induction text with
  | nil => exact Iff.rfl
  | cons first rest hypothesis =>
      rw [encoded_cons, List.mem_append, hypothesis, List.mem_cons, mem_encodedChar_of_ascii ascii]

/-- Only the first byte of a character may be ASCII. -/
theorem exists_encodedChar_eq_cons (c : Char) :
    ∃ b bytes, encodedChar c = b :: bytes ∧ ∀ further ∈ bytes, 128 ≤ further.toNat := by
  obtain ⟨b, bytes, isChar⟩ := List.exists_cons_of_ne_nil (encodedChar_ne_nil c)
  refine ⟨b, bytes, isChar, fun further listed => ?_⟩
  rcases Nat.lt_or_ge c.toNat 128 with ascii | other
  · rw [encodedChar_of_ascii ascii] at isChar
    rw [← (List.cons.inj isChar).2] at listed
    exact absurd listed List.not_mem_nil
  · exact encodedChar_of_not_ascii other (isChar ▸ List.mem_cons_of_mem b listed)

/-- A text that does not start with an ASCII character has bytes that do not either. -/
theorem exists_encoded_cons_eq_cons_of_ne
    (ascii : b.toNat < 128)
    (other : c ≠ b)
    (rest : List Char) :
    ∃ first bytes, encoded (c :: rest) = first :: bytes ∧ first ≠ b := by
  obtain ⟨first, bytes, isChar, -⟩ := exists_encodedChar_eq_cons c
  refine ⟨first, bytes ++ encoded rest, by rw [encoded_cons, isChar, List.cons_append], ?_⟩
  rintro rfl
  exact other ((mem_encodedChar_of_ascii ascii).1 (isChar ▸ List.mem_cons_self)).symm

/-! ## Tests for ASCII characters -/

/-- A test that does not tell apart characters outside ASCII. -/
def IsAsciiTest (p : Char → Bool) : Prop :=
  ∀ c b, 128 ≤ c.toNat → 128 ≤ b.toNat → p c = p b

/-- A test that only ASCII characters pass. -/
theorem IsAsciiTest.of_ascii (ascii : ∀ c, p c = true → c.toNat < 128) : IsAsciiTest p := by
  have fails (c : Char) (other : 128 ≤ c.toNat) : p c = false := by
    rw [← Bool.not_eq_true]
    exact fun holds => absurd (ascii c holds) (Nat.not_lt_of_le other)
  intro c b other other'
  rw [fails c other, fails b other']

/-- All bytes of a character are tested as the character is. -/
theorem IsAsciiTest.encodedChar (test : IsAsciiTest p) (listed : b ∈ encodedChar c) :
    p b = p c := by
  rcases Nat.lt_or_ge c.toNat 128 with ascii | other
  · rw [encodedChar_of_ascii ascii, List.mem_singleton] at listed
    rw [listed]
  · exact test b c (encodedChar_of_not_ascii other listed) other

/-- The bytes in front that pass are those of the characters that do. -/
theorem IsAsciiTest.takeWhile (test : IsAsciiTest p) (text : List Char) :
    (encoded text).takeWhile p = encoded (text.takeWhile p) := by
  induction text with
  | nil => rfl
  | cons c rest hypothesis =>
      cases holds : p c with
      | true =>
          rw [List.takeWhile_cons_of_pos holds, encoded_cons, encoded_cons,
            List.takeWhile_append_of_pos fun b listed => (test.encodedChar listed).trans holds,
            hypothesis]
      | false =>
          rw [List.takeWhile_cons_of_neg (by rw [holds]; exact Bool.false_ne_true), encoded_cons]
          obtain ⟨b, bytes, isChar⟩ := List.exists_cons_of_ne_nil (encodedChar_ne_nil c)
          have fails : p b = false :=
            (test.encodedChar (isChar ▸ List.mem_cons_self)).trans holds
          rw [isChar, List.cons_append,
            List.takeWhile_cons_of_neg (by rw [fails]; exact Bool.false_ne_true), encoded_nil]

/-- The bytes past those that pass are those of the other characters. -/
theorem IsAsciiTest.dropWhile (test : IsAsciiTest p) (text : List Char) :
    (encoded text).dropWhile p = encoded (text.dropWhile p) := by
  refine (List.append_right_inj (encoded (text.takeWhile p))).1 ?_
  rw [← encoded_append, List.takeWhile_append_dropWhile, ← test.takeWhile,
    List.takeWhile_append_dropWhile]

/-- The first byte is tested as the first character is. -/
theorem IsAsciiTest.head? (test : IsAsciiTest p) (text : List Char) :
    (encoded text).head?.map p = text.head?.map p := by
  cases text with
  | nil => rfl
  | cons c rest =>
      obtain ⟨b, bytes, isChar⟩ := List.exists_cons_of_ne_nil (encodedChar_ne_nil c)
      rw [encoded_cons, isChar]
      exact congrArg some (test.encodedChar (isChar ▸ List.mem_cons_self))

/-! ## Offsets -/

/-- The offset of the byte that a position of a text stands for. -/
def byteOffset (text : List Char) (place : Nat) : Nat :=
  byteLength (text.take place)

theorem length_encoded (text : List Char) : (encoded text).length = byteLength text := by
  induction text with
  | nil => rfl
  | cons c rest hypothesis =>
      rw [encoded_cons, List.length_append, length_encodedChar, hypothesis]
      rfl

theorem size_ofList (text : List Char) :
    (String.ofList text).utf8ByteSize = byteLength text := by
  rw [← String.size_toByteArray, String.toByteArray_ofList, List.utf8Encode, List.size_toByteArray,
    ← length_encoded, encoded, List.length_flatMap, List.length_flatMap]
  simp only [encodedChar, List.length_map]

theorem byteLength_append (first second : List Char) :
    byteLength (first ++ second) = byteLength first + byteLength second := by
  rw [← length_encoded, ← length_encoded, ← length_encoded, encoded_append, List.length_append]

@[simp] theorem byteOffset_zero (text : List Char) : byteOffset text 0 = 0 := rfl

theorem byteOffset_cons_succ (c : Char) (text : List Char) (place : Nat) :
    byteOffset (c :: text) (place + 1) = c.utf8Size + byteOffset text place := rfl

theorem byteOffset_length (text : List Char) : byteOffset text text.length = byteLength text := by
  rw [byteOffset, List.take_length]

theorem byteOffset_length_append (first second : List Char) :
    byteOffset (first ++ second) first.length = byteLength first := by
  rw [byteOffset, List.take_left]

/-- Offsets add up, the second one in what is left. -/
theorem byteOffset_add (text : List Char) (place further : Nat) :
    byteOffset text (place + further) =
      byteOffset text place + byteOffset (text.drop place) further := by
  rw [byteOffset, List.take_add, byteLength_append]
  rfl

/-- A later place has no smaller offset. -/
theorem byteOffset_mono (text : List Char) {place other : Nat} (less : place ≤ other) :
    byteOffset text place ≤ byteOffset text other := by
  obtain ⟨further, rfl⟩ := Nat.exists_eq_add_of_le less
  rw [byteOffset_add]
  exact Nat.le_add_right _ _

/-- The later of two places has the larger of their offsets. -/
theorem byteOffset_max (text : List Char) (place other : Nat) :
    byteOffset text (max place other) = max (byteOffset text place) (byteOffset text other) := by
  rcases Nat.le_total place other with less | less
  · rw [Nat.max_eq_right less, Nat.max_eq_right (byteOffset_mono text less)]
  · rw [Nat.max_eq_left less, Nat.max_eq_left (byteOffset_mono text less)]

/-- Within a text the start alone has the offset zero. -/
theorem byteOffset_eq_zero_iff (inside : place ≤ text.length) :
    byteOffset text place = 0 ↔ place = 0 := by
  rw [byteOffset, ← length_encoded, List.length_eq_zero_iff, encoded_eq_nil_iff,
    ← List.length_eq_zero_iff, List.length_take_of_le inside]

/-- Within a text offsets are in the order of their places. -/
theorem byteOffset_lt_iff {other : Nat} (inside : other ≤ text.length) :
    byteOffset text place < byteOffset text other ↔ place < other := by
  refine ⟨fun less => Nat.lt_of_not_le fun order =>
    absurd (byteOffset_mono text order) (Nat.not_le_of_lt less), fun less => ?_⟩
  obtain ⟨further, rfl⟩ := Nat.exists_eq_add_of_le (Nat.le_of_lt less)
  have positive : byteOffset (text.drop place) further ≠ 0 := by
    rw [Ne, byteOffset_eq_zero_iff (by rw [List.length_drop]; omega)]
    omega
  rw [byteOffset_add]
  omega

/-- Past the offset of a place the bytes of the rest stand. -/
theorem drop_byteOffset (text : List Char) (place : Nat) :
    (encoded text).drop (byteOffset text place) = encoded (text.drop place) := by
  have parts : encoded text = encoded (text.take place) ++ encoded (text.drop place) := by
    rw [← encoded_append, List.take_append_drop]
  rw [parts, byteOffset, ← length_encoded, List.drop_left]

/-- The offset of a position stands between two characters. -/
theorem isValid_byteOffset (text : String) (place : Nat) :
    String.Pos.Raw.IsValid text ⟨byteOffset text.toList place⟩ := by
  refine String.Pos.Raw.isValid_iff_exists_append.2
    ⟨String.ofList (text.toList.take place), String.ofList (text.toList.drop place), ?_, ?_⟩
  · rw [← String.ofList_append, List.take_append_drop, String.ofList_toList]
  · exact congrArg _ (size_ofList _).symm

/-- The bytes between the offsets of two positions are those of the text between them. -/
theorem extract_byteOffset (text : String) {start stop : Nat} (order : start ≤ stop) :
    text.toUTF8.extract (byteOffset text.toList start) (byteOffset text.toList stop) =
      (String.ofList ((text.toList.drop start).take (stop - start))).toUTF8 := by
  obtain ⟨length, rfl⟩ := Nat.exists_eq_add_of_le order
  have parts : text = String.ofList (text.toList.take start) ++
      (String.ofList ((text.toList.drop start).take length) ++
        String.ofList ((text.toList.drop start).drop length)) := by
    rw [← String.ofList_append, List.take_append_drop, ← String.ofList_append,
      List.take_append_drop, String.ofList_toList]
  have isBytes := congrArg String.toByteArray parts
  rw [String.toByteArray_append, String.toByteArray_append] at isBytes
  have inFront : byteOffset text.toList start =
      (String.ofList (text.toList.take start)).toByteArray.size := by
    rw [String.size_toByteArray, size_ofList, byteOffset]
  have inside : byteOffset (text.toList.drop start) length =
      (String.ofList ((text.toList.drop start).take length)).toByteArray.size := by
    rw [String.size_toByteArray, size_ofList, byteOffset]
  rw [Nat.add_sub_cancel_left, byteOffset_add, inFront, inside, String.toUTF8_eq_toByteArray,
    String.toUTF8_eq_toByteArray, isBytes]
  exact (ByteArray.extract_append_size_add (i := 0)).trans (ByteArray.extract_append_eq_left rfl)

end Text
end DeclManual
