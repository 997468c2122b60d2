import Mathlib.Data.List.Basic

/-! # UTF-8

Where the ASCII bytes of an encoded text come from: each is the encoding of its character, and no
other encoding contains it, so a text may be taken apart at ASCII characters before or after it is
encoded.
-/

namespace Utf8

/-- The bytes of a text. -/
def encode (text : List Char) : List UInt8 := text.flatMap String.utf8EncodeChar

@[simp] theorem encode_nil : encode [] = [] := rfl

@[simp] theorem encode_cons (c : Char) (text : List Char) :
    encode (c :: text) = String.utf8EncodeChar c ++ encode text := List.flatMap_cons

theorem encode_append (first second : List Char) :
    encode (first ++ second) = encode first ++ encode second := List.flatMap_append

/-- The encoding is that of the string. -/
theorem encode_toList (text : String) : encode text.toList = text.toByteArray.data.toList := by
  rw [← String.utf8Encode_toList]
  simp only [List.utf8Encode, List.data_toByteArray, List.toList_toArray]
  rfl

/-- Different texts have different encodings. -/
theorem encode_injective : Function.Injective encode := by
  intro first second same
  apply String.ofList_injective
  apply String.toByteArray_inj.mp
  apply ByteArray.ext
  apply Array.toList_inj.mp
  rw [← encode_toList, ← encode_toList, String.toList_ofList, String.toList_ofList, same]

/-- The character of an ASCII byte is encoded as that byte. -/
theorem encodeChar_ascii {c : Char} (ascii : c.toNat < 128) :
    String.utf8EncodeChar c = [UInt8.ofNat c.toNat] := by
  have single : c.utf8Size = 1 := by
    rw [Char.utf8Size_eq_one_iff, UInt32.le_iff_toNat_le]
    exact Nat.le_of_lt_succ ascii
  rw [String.utf8EncodeChar_eq_singleton single]
  rfl

theorem toNat_ofNat {n : Nat} (small : n < 256) : (UInt8.ofNat n).toNat = n := by
  rw [UInt8.toNat_ofNat']
  exact Nat.mod_eq_of_lt small

/-- Every byte of the encoding of another character is high. -/
theorem high_encodeChar {c : Char} (other : ¬c.toNat < 128) {byte : UInt8}
    (member : byte ∈ String.utf8EncodeChar c) : 128 ≤ byte.toNat := by
  have large : ¬c.val.toNat ≤ 0x7f := fun small => other (Nat.lt_succ_of_le small)
  have continuation (n : Nat) : 128 ≤ (UInt8.ofNat (n % 0x40 + 0x80)).toNat := by
    rw [toNat_ofNat (by omega)]
    exact Nat.le_add_left _ _
  rw [String.utf8EncodeChar] at member
  rw [if_neg large] at member
  split at member
  · rcases List.mem_cons.mp member with rfl | member
    · rw [toNat_ofNat (by omega)]
      omega
    · cases List.mem_singleton.mp member
      exact continuation _
  · split at member
    · rcases List.mem_cons.mp member with rfl | member
      · rw [toNat_ofNat (by omega)]
        omega
      · rcases List.mem_cons.mp member with rfl | member
        · exact continuation _
        · cases List.mem_singleton.mp member
          exact continuation _
    · rcases List.mem_cons.mp member with rfl | member
      · rw [toNat_ofNat (by omega)]
        omega
      · rcases List.mem_cons.mp member with rfl | member
        · exact continuation _
        · rcases List.mem_cons.mp member with rfl | member
          · exact continuation _
          · cases List.mem_singleton.mp member
            exact continuation _

/-- **An ASCII byte is in the encoding of its own character only.** -/
theorem mem_encodeChar {c : Char} {byte : UInt8} (ascii : byte.toNat < 128) :
    byte ∈ String.utf8EncodeChar c ↔ c.toNat = byte.toNat := by
  by_cases small : c.toNat < 128
  · rw [encodeChar_ascii small, List.mem_singleton]
    constructor
    · rintro rfl
      exact (toNat_ofNat (by omega)).symm
    · intro same
      rw [same, UInt8.ofNat_toNat]
  · constructor
    · intro member
      exact absurd ascii (Nat.not_lt.mpr (high_encodeChar small member))
    · intro same
      exact absurd (same ▸ ascii) small

/-- The bytes of an ASCII text are the codes of its characters. -/
theorem mem_encode {text : List Char} (ascii : ∀ c ∈ text, c.toNat < 128) {byte : UInt8}
    (member : byte ∈ encode text) : ∃ c ∈ text, byte.toNat = c.toNat := by
  obtain ⟨c, inside, encoded⟩ := List.mem_flatMap.mp member
  have small := ascii c inside
  rw [encodeChar_ascii small, List.mem_singleton] at encoded
  exact ⟨c, inside, encoded ▸ toNat_ofNat (by omega)⟩

/-- Elements without the separator go in front of the first part. -/
theorem splitOn_behind {separator : UInt8} {front : List UInt8} (apart : separator ∉ front)
    (rest : List UInt8) : (front ++ rest).splitOn separator =
      (rest.splitOn separator).modifyHead (front ++ ·) := by
  induction front with
  | nil => exact (List.modifyHead_id ▸ rfl)
  | cons byte front recurse =>
      rw [List.mem_cons, not_or] at apart
      rw [List.cons_append, List.splitOn_cons_eq_if_modifyHead,
        if_neg (by simpa using Ne.symm apart.1), recurse apart.2, List.modifyHead_modifyHead]
      rfl

/-- **A text is split at an ASCII character before or after it is encoded.** -/
theorem splitOn_encode {separator : Char} (ascii : separator.toNat < 128) (text : List Char) :
    (encode text).splitOn (UInt8.ofNat separator.toNat) =
      (text.splitOn separator).map encode := by
  have code : (UInt8.ofNat separator.toNat).toNat = separator.toNat := toNat_ofNat (by omega)
  induction text with
  | nil => rfl
  | cons c text recurse =>
      rw [encode_cons, List.splitOn_cons_eq_if_modifyHead]
      by_cases here : c = separator
      · subst here
        rw [if_pos (beq_self_eq_true _), encodeChar_ascii ascii, List.singleton_append,
          List.splitOn_cons_eq_if_modifyHead, if_pos (beq_self_eq_true _), recurse]
        rfl
      · have apart : UInt8.ofNat separator.toNat ∉ String.utf8EncodeChar c := by
          rw [mem_encodeChar (code.symm ▸ ascii), code]
          exact fun same => here (Char.toNat_inj.mp same)
        rw [if_neg (by simpa using here), splitOn_behind apart, recurse]
        cases text.splitOn separator with
        | nil => rfl
        | cons name names => rfl

end Utf8
