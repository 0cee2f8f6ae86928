import ClaudeCodeConnect.Core.Lines

/-!
# Text and its UTF-8 form

Rust's `str` is a sequence of Unicode scalar values stored as UTF-8, sliced and measured in bytes.
Here a text is its list of characters; `len` is its length in bytes and `bytes` the bytes
themselves, and a byte offset is one in the sense of `Core.Offsets` with `Char.utf8Size` as the
weight.

* `fromUtf8_bytes`, `fromUtf8_eq_some_iff` -- decoding is inverse to encoding and defined on nothing
  else; both come from the core library's decoder.
* `mem_bytes_ascii_iff`, `getLast?_bytes_ascii_iff` -- an ASCII byte in the encoding is that
  character and never part of another one, so looking for `b'\n'` in the bytes is looking for `'\n'`
  in the text.
* `bytes_slice` -- a byte range that starts and ends on boundaries is the encoding
  of the characters between them.
-/

namespace Connect

/-- Rust's `String` and `&str`: a sequence of Unicode scalar values. -/
abbrev Text := List Char

namespace Text

/-- `str::len`: the length in bytes. -/
def len (s : Text) : ℕ := weight Char.utf8Size s

/-- `str::as_bytes`. -/
def bytes (s : Text) : List UInt8 := s.flatMap String.utf8EncodeChar

/-- `String::from_utf8`: the text these bytes encode, if they encode one.  As in the library, bytes
that are all ASCII are not decoded any further. -/
def fromUtf8 (bs : List UInt8) : Option Text :=
  let ascii := bs.map fun b => Char.ofNat b.toNat
  if bytes ascii = bs then some ascii else bs.toByteArray.utf8Decode?.map Array.toList

@[simp] lemma len_nil : len [] = 0 := rfl

@[simp] lemma len_append (s t : Text) : len (s ++ t) = len s + len t := weight_append s t

@[simp] lemma bytes_nil : bytes [] = [] := rfl

@[simp] lemma bytes_cons (c : Char) (s : Text) :
    bytes (c :: s) = String.utf8EncodeChar c ++ bytes s := rfl

@[simp] lemma bytes_append (s t : Text) : bytes (s ++ t) = bytes s ++ bytes t :=
  List.flatMap_append

lemma utf8Size_pos (c : Char) : 0 < c.utf8Size := c.utf8Size_pos

@[simp] lemma length_bytes (s : Text) : (bytes s).length = len s := by
  induction s with
  | nil => rfl
  | cons c s ih => simpa [len] using ih

/-! ## Decoding

`String::from_utf8` undoes `as_bytes`, and accepts nothing else. -/

lemma utf8Decode?_bytes (s : Text) :
    (bytes s).toByteArray.utf8Decode?.map Array.toList = some s := by
  have h : (bytes s).toByteArray.utf8Decode? = some s.toArray := List.utf8Decode?_utf8Encode
  rw [h, Option.map_some]

/-- It is the core library's decoder. -/
lemma fromUtf8_eq (bs : List UInt8) :
    fromUtf8 bs = bs.toByteArray.utf8Decode?.map Array.toList := by
  rw [fromUtf8]
  split_ifs with hascii
  · conv_rhs => rw [← hascii]
    exact (utf8Decode?_bytes _).symm
  · rfl

@[simp] theorem fromUtf8_bytes (s : Text) : fromUtf8 (bytes s) = some s := by
  rw [fromUtf8_eq, utf8Decode?_bytes]

theorem fromUtf8_eq_some_iff {bs : List UInt8} {s : Text} :
    fromUtf8 bs = some s ↔ bs = bytes s := by
  constructor
  · intro h
    rw [fromUtf8_eq, Option.map_eq_some_iff] at h
    obtain ⟨cs, hcs, rfl⟩ := h
    have henc := ByteArray.utf8Encode_get_utf8Decode? (b := bs.toByteArray) (h := by rw [hcs]; rfl)
    simp only [hcs, Option.get_some] at henc
    exact (List.toByteArray_inj.mp henc).symm
  · rintro rfl
    exact fromUtf8_bytes s

/-! ## ASCII bytes

A byte below 128 in the encoding of a text is a character of it, so what looks for a newline among
the bytes finds the newlines of the text. -/

/-- Every byte of a character that takes more than one has its high bit set. -/
lemma le_of_mem_utf8EncodeChar {c : Char} {b : UInt8} (hc : c.utf8Size ≠ 1)
    (hb : b ∈ String.utf8EncodeChar c) : 128 ≤ b.toNat := by
  have hor : ∀ x m : UInt8, 128 ≤ m.toNat → 128 ≤ (x ||| m).toNat := by
    intro x m hm
    rw [UInt8.toNat_or]
    exact Nat.le_trans hm Nat.right_le_or
  have hpos := c.utf8Size_pos
  have hle := c.utf8Size_le_four
  have hsize : c.utf8Size = 2 ∨ c.utf8Size = 3 ∨ c.utf8Size = 4 := by omega
  rcases hsize with h | h | h
  · rw [String.utf8EncodeChar_eq_cons_cons h] at hb
    simp only [List.mem_cons, List.not_mem_nil, or_false] at hb
    rcases hb with rfl | rfl <;> exact hor _ _ (by decide)
  · rw [String.utf8EncodeChar_eq_cons_cons_cons h] at hb
    simp only [List.mem_cons, List.not_mem_nil, or_false] at hb
    rcases hb with rfl | rfl | rfl <;> exact hor _ _ (by decide)
  · rw [String.utf8EncodeChar_eq_cons_cons_cons_cons h] at hb
    simp only [List.mem_cons, List.not_mem_nil, or_false] at hb
    rcases hb with rfl | rfl | rfl | rfl <;> exact hor _ _ (by decide)

/-- An ASCII character, as the byte that encodes it. -/
structure Ascii where
  char : Char
  byte : UInt8
  lt : byte.toNat < 128
  eq : char.toNat = byte.toNat

lemma Ascii.encode (a : Ascii) : String.utf8EncodeChar a.char = [a.byte] := by
  have hlt := a.lt
  have heq := a.eq
  have hval : a.char.val.toNat = a.byte.toNat := heq
  have hsize : a.char.utf8Size = 1 := by
    rw [Char.utf8Size_eq_one_iff, UInt32.le_iff_toNat_le]
    show a.char.val.toNat ≤ 127
    omega
  rw [String.utf8EncodeChar_eq_singleton hsize]
  congr 1
  apply UInt8.toNat_inj.mp
  rw [UInt32.toNat_toUInt8, hval]
  omega

/-- **An ASCII byte is that character.**  It occurs in the encoding of no other. -/
theorem mem_utf8EncodeChar_ascii_iff (a : Ascii) {c : Char} :
    a.byte ∈ String.utf8EncodeChar c ↔ c = a.char := by
  have hlt := a.lt
  constructor
  · intro h
    have hsize : c.utf8Size = 1 := by
      by_contra hc
      have := le_of_mem_utf8EncodeChar hc h
      omega
    rw [String.utf8EncodeChar_eq_singleton hsize, List.mem_singleton] at h
    rw [Char.utf8Size_eq_one_iff, UInt32.le_iff_toNat_le] at hsize
    have hc : c.val.toNat ≤ 127 := hsize
    apply Char.toNat_inj.mp
    rw [a.eq, h, UInt32.toNat_toUInt8]
    show c.val.toNat = c.val.toNat % 2 ^ 8
    omega
  · rintro rfl
    simp [a.encode]

theorem mem_bytes_ascii_iff (a : Ascii) {s : Text} : a.byte ∈ bytes s ↔ a.char ∈ s := by
  simp only [bytes, List.mem_flatMap]
  constructor
  · rintro ⟨c, hc, hb⟩
    rwa [← (mem_utf8EncodeChar_ascii_iff a).mp hb]
  · intro h
    exact ⟨a.char, h, (mem_utf8EncodeChar_ascii_iff a).mpr rfl⟩

/-- The last byte of a text is an ASCII byte exactly when its last character is that character. -/
theorem getLast?_bytes_ascii_iff (a : Ascii) {s : Text} {c : Char} :
    (bytes (s ++ [c])).getLast? = some a.byte ↔ c = a.char := by
  have hne : String.utf8EncodeChar c ≠ [] := by
    have h : (String.utf8EncodeChar c).length ≠ 0 := by
      rw [String.length_utf8EncodeChar]
      have := c.utf8Size_pos
      omega
    intro hnil
    exact h (by rw [hnil]; rfl)
  have hlast : (bytes (s ++ [c])).getLast? = (String.utf8EncodeChar c).getLast? := by
    rw [bytes_append, bytes_cons, bytes_nil, List.append_nil,
      List.getLast?_append_of_ne_nil _ hne]
  rw [hlast]
  constructor
  · intro h
    exact (mem_utf8EncodeChar_ascii_iff a).mp (List.mem_of_getLast? h)
  · rintro rfl
    simp [a.encode]

/-- `b'\n'`. -/
def newline : Ascii := ⟨'\n', 10, by decide, by decide⟩

/-- `b'\r'`. -/
def carriageReturn : Ascii := ⟨'\r', 13, by decide, by decide⟩

lemma utf8Size_ascii (a : Ascii) : a.char.utf8Size = 1 := by
  rw [← String.length_utf8EncodeChar, a.encode]; rfl

/-! ## Byte ranges

The bytes of a slice are the slice of the bytes, and the byte before an offset is the end of the
character before it. -/

/-- The byte just before an offset that ends a nonempty part. -/
lemma getElem?_bytes_pred {a m b : Text} (hm : m ≠ []) :
    (bytes (a ++ m ++ b))[len a + len m - 1]? = (bytes m).getLast? := by
  obtain ⟨c, m, rfl⟩ := List.exists_cons_of_ne_nil hm
  have hpos : 0 < (bytes (c :: m)).length := by
    rw [length_bytes, len, weight_cons]
    have := c.utf8Size_pos
    omega
  have hlen := length_bytes (c :: m)
  have ha := length_bytes a
  rw [bytes_append, bytes_append, List.append_assoc, List.getElem?_append_right (by omega),
    List.getElem?_append_left (by omega), List.getLast?_eq_getElem?]
  congr 1
  omega

/-- A byte range that starts and ends on boundaries holds the encoding of what lies between. -/
lemma bytes_slice (a m b : Text) :
    ((bytes (a ++ m ++ b)).drop (len a)).take (len m) = bytes m := by
  rw [bytes_append, bytes_append, List.append_assoc, ← length_bytes a, List.drop_left,
    ← length_bytes m, List.take_left]

end Text

end Connect
