import Mathlib.Data.List.Basic
import Offside.Device
import Offside.Text.Run

set_option autoImplicit false

namespace Offside

def encode (text : List Char) : List UInt8 := text.flatMap String.utf8EncodeChar

theorem encode_string (text : String) : text.toUTF8.data.toList = encode text.toList := by
  rw [String.toUTF8_eq_toByteArray]
  conv_lhs => rw [← String.ofList_toList (s := text)]
  rw [String.toByteArray_ofList, List.utf8Encode, List.toList_data_toByteArray]
  rfl

theorem encode_array (text : List Char) : ByteArray.mk (encode text).toArray = text.utf8Encode := by
  apply ByteArray.ext
  rw [List.utf8Encode, List.data_toByteArray]
  rfl

theorem encode_single (c : Char) : encode [c] = String.utf8EncodeChar c := List.append_nil _

theorem encode_length (text : List Char) : (encode text).length = Span.byteSize text := by
  induction text with
  | nil => rfl
  | cons c rest ih =>
      rw [encode, List.flatMap_cons, List.length_append, String.length_utf8EncodeChar, Span.byteSize]
      exact congrArg (c.utf8Size + ·) ih

theorem character_byte (front : List Char) (c : Char) (back : List Char) (inner : Nat) (inside : inner < c.utf8Size) :
    (encode (front ++ c :: back))[Span.byteSize front + inner]? = (String.utf8EncodeChar c)[inner]? := by
  have parted : encode (front ++ c :: back) = encode front ++ (String.utf8EncodeChar c ++ encode back) := by
    rw [encode, List.flatMap_append, List.flatMap_cons]
    rfl
  rw [parted, ← encode_length, List.getElem?_append_right (Nat.le_add_right _ _), Nat.add_sub_cancel_left,
    List.getElem?_append_left (by rwa [String.length_utf8EncodeChar])]

theorem marked_byte (byte : UInt8) :
    byte ||| 0x80 ≠ 0x20 ∧ byte ||| 0xc0 ≠ 0x20 ∧ byte ||| 0xe0 ≠ 0x20 ∧ byte ||| 0xf0 ≠ 0x20 := by
  have checked : ∀ value ∈ List.range 256, UInt8.ofNat value ||| 0x80 ≠ 0x20 ∧ UInt8.ofNat value ||| 0xc0 ≠ 0x20 ∧
      UInt8.ofNat value ||| 0xe0 ≠ 0x20 ∧ UInt8.ofNat value ||| 0xf0 ≠ 0x20 := by decide +kernel
  have found := checked byte.toNat (List.mem_range.mpr byte.toNat_lt)
  rwa [UInt8.ofNat_toNat] at found

-- No byte of another character looks like a space: all bytes of a longer one are marked.
theorem space_byte (c : Char) (member : 0x20 ∈ String.utf8EncodeChar c) : c = ' ' := by
  rcases Char.utf8Size_eq c with one | two | three | four
  · rw [String.utf8EncodeChar_eq_singleton one, List.mem_singleton] at member
    have small := UInt32.le_iff_toNat_le.mp (Char.utf8Size_eq_one_iff.mp one)
    have low := congrArg UInt8.toNat member
    rw [UInt32.toNat_toUInt8] at low
    apply Char.ext
    apply UInt32.toNat_inj.mp
    change c.val.toNat ≤ 127 at small
    change 32 = c.val.toNat % 256 at low
    change c.val.toNat = 32
    omega
  · rw [String.utf8EncodeChar_eq_cons_cons two] at member
    simp [Ne.symm (marked_byte _).1, Ne.symm (marked_byte _).2.1] at member
  · rw [String.utf8EncodeChar_eq_cons_cons_cons three] at member
    simp [Ne.symm (marked_byte _).1, Ne.symm (marked_byte _).2.2.1] at member
  · rw [String.utf8EncodeChar_eq_cons_cons_cons_cons four] at member
    simp [Ne.symm (marked_byte _).1, Ne.symm (marked_byte _).2.2.2] at member

namespace Device

theorem width_marked (byte : UInt8) : width (byte &&& 0x1f ||| 0xc0) = 2 ∧ width (byte &&& 0x0f ||| 0xe0) = 3 ∧
    width (byte &&& 0x07 ||| 0xf0) = 4 := by
  have checked : ∀ value ∈ List.range 256, width (UInt8.ofNat value &&& 0x1f ||| 0xc0) = 2 ∧
      width (UInt8.ofNat value &&& 0x0f ||| 0xe0) = 3 ∧ width (UInt8.ofNat value &&& 0x07 ||| 0xf0) = 4 := by
    decide +kernel
  have found := checked byte.toNat (List.mem_range.mpr byte.toNat_lt)
  rwa [UInt8.ofNat_toNat] at found

theorem width_single (c : Char) (single : c.utf8Size = 1) : width c.val.toUInt8 = 1 := by
  have small : c.val ≤ 127 := Char.utf8Size_eq_one_iff.mp single
  have below : c.val.toUInt8 < 0x80 := by
    rw [UInt8.lt_iff_toNat_lt, UInt32.toNat_toUInt8]
    rw [UInt32.le_iff_toNat_le] at small
    change c.val.toNat ≤ 127 at small
    change c.val.toNat % 256 < 128
    omega
  rw [width, if_pos below]

theorem width_encoded (c : Char) :
    ∃ lead more, String.utf8EncodeChar c = lead :: more ∧ more.length = width lead - 1 := by
  rcases Char.utf8Size_eq c with one | two | three | four
  · exact ⟨_, _, String.utf8EncodeChar_eq_singleton one, by rw [width_single c one]; rfl⟩
  · exact ⟨_, _, String.utf8EncodeChar_eq_cons_cons two, by rw [(width_marked _).1]; rfl⟩
  · exact ⟨_, _, String.utf8EncodeChar_eq_cons_cons_cons three, by rw [(width_marked _).2.1]; rfl⟩
  · exact ⟨_, _, String.utf8EncodeChar_eq_cons_cons_cons_cons four, by rw [(width_marked _).2.2]; rfl⟩

theorem decode_encoded (c : Char) : decode (String.utf8EncodeChar c) = some c := by
  have bytes : ByteArray.mk (String.utf8EncodeChar c).toArray = [c].utf8Encode := by
    rw [← encode_single, encode_array]
  rw [decode, bytes, List.utf8DecodeChar?_utf8Encode_singleton]
  exact if_pos (String.length_utf8EncodeChar c).symm

theorem read_bytes_encoded (c : Char) (rest : List UInt8) :
    readBytes (String.utf8EncodeChar c ++ rest) = (.ok c, rest) := by
  obtain ⟨lead, more, bytes, size⟩ := width_encoded c
  have taken : (more ++ rest).take (width lead - 1) = more := by rw [← size, List.take_left]
  have dropped : (more ++ rest).drop (width lead - 1) = rest := by rw [← size, List.drop_left]
  have enough : ¬ more.length < width lead - 1 := by omega
  have meant : decode (lead :: more) = some c := by rw [← bytes, decode_encoded]
  rw [bytes, List.cons_append, readBytes]
  simp only [taken, dropped, enough, if_false, meant]

end Device

end Offside
