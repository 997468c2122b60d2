import AetherArch.Format
import AetherArch.Library.Utf8

/-! # Fields of archive records

Little-endian integers, fixed byte strings and UTF-8 text, as they are written and read.
-/

namespace AetherArch

/-- A reader of archive records. -/
abbrev Reader := ByteReader AetherError

namespace Reader

def readExact (count : Nat) : Reader (FixedBytes count) :=
  ByteReader.readExact (.io .unexpectedEof) count

/-- A check that reads nothing. -/
def failIf (wrong : Prop) [Decidable wrong] (error : AetherError) : Reader Unit :=
  ByteReader.lift (Result.failIf wrong error)

def readU8 : Reader UInt8 := do
  let value ← ByteReader.readLittleEndian (.io .unexpectedEof) 1
  pure (UInt8.ofNat value)

def readU16 : Reader UInt16 := do
  let value ← ByteReader.readLittleEndian (.io .unexpectedEof) 2
  pure (UInt16.ofNat value)

def readU32 : Reader UInt32 := do
  let value ← ByteReader.readLittleEndian (.io .unexpectedEof) 4
  pure (UInt32.ofNat value)

def readU64 : Reader UInt64 := do
  let value ← ByteReader.readLittleEndian (.io .unexpectedEof) 8
  pure (UInt64.ofNat value)

end Reader

def writeU8 (value : UInt8) : Bytes := Numeral.toLittleEndian 1 value.toNat

def writeU16 (value : UInt16) : Bytes := Numeral.toLittleEndian 2 value.toNat

def writeU32 (value : UInt32) : Bytes := Numeral.toLittleEndian 4 value.toNat

def writeU64 (value : UInt64) : Bytes := Numeral.toLittleEndian 8 value.toNat

@[simp] theorem length_writeU8 (value : UInt8) : (writeU8 value).length = 1 :=
  Numeral.length_toLittleEndian ..

@[simp] theorem length_writeU16 (value : UInt16) : (writeU16 value).length = 2 :=
  Numeral.length_toLittleEndian ..

@[simp] theorem length_writeU32 (value : UInt32) : (writeU32 value).length = 4 :=
  Numeral.length_toLittleEndian ..

@[simp] theorem length_writeU64 (value : UInt64) : (writeU64 value).length = 8 :=
  Numeral.length_toLittleEndian ..

namespace Reader

open ByteReader

theorem reads_readExact {count : Nat} (bytes : FixedBytes count) :
    Reads (readExact count) bytes.1 bytes :=
  ByteReader.reads_readExact _ bytes

theorem reads_failIf {wrong : Prop} [Decidable wrong] (error : AetherError) (fails : ¬wrong) :
    Reads (failIf wrong error) [] () :=
  reads_lift (Result.failIf_eq_ok.mpr fails)

/-- A byte is read back. -/
theorem reads_readU8 (value : UInt8) : Reads readU8 (writeU8 value) value := by
  have fits : value.toNat < 256 ^ 1 := value.toNat_lt
  refine (reads_readLittleEndian (AetherError.io .unexpectedEof) fits).bind_nil fun rest => ?_
  rw [UInt8.ofNat_toNat]
  rfl

/-- A 16-bit word is read back. -/
theorem reads_readU16 (value : UInt16) : Reads readU16 (writeU16 value) value := by
  have fits : value.toNat < 256 ^ 2 := value.toNat_lt
  refine (reads_readLittleEndian (AetherError.io .unexpectedEof) fits).bind_nil fun rest => ?_
  rw [UInt16.ofNat_toNat]
  rfl

/-- A 32-bit word is read back. -/
theorem reads_readU32 (value : UInt32) : Reads readU32 (writeU32 value) value := by
  have fits : value.toNat < 256 ^ 4 := value.toNat_lt
  refine (reads_readLittleEndian (AetherError.io .unexpectedEof) fits).bind_nil fun rest => ?_
  rw [UInt32.ofNat_toNat]
  rfl

/-- A 64-bit word is read back. -/
theorem reads_readU64 (value : UInt64) : Reads readU64 (writeU64 value) value := by
  have fits : value.toNat < 256 ^ 8 := value.toNat_lt
  refine (reads_readLittleEndian (AetherError.io .unexpectedEof) fits).bind_nil fun rest => ?_
  rw [UInt64.ofNat_toNat]
  rfl

theorem readExact_eq_ok {count : Nat} {input rest : Bytes} {bytes : FixedBytes count} :
    readExact count input = .ok (bytes, rest) ↔ input = bytes.1 ++ rest :=
  ByteReader.readExact_eq_ok_append

/-- A byte that is read was written at the front. -/
theorem readU8_eq_ok {input rest : Bytes} {value : UInt8} :
    readU8 input = .ok (value, rest) ↔ input = writeU8 value ++ rest := by
  constructor
  · intro success
    obtain ⟨found, between, read, same⟩ := bind_eq_ok.mp success
    obtain ⟨fits, rfl⟩ := readLittleEndian_eq_ok_append.mp read
    cases same
    rw [writeU8, UInt8.toNat_ofNat_of_lt' fits]
  · rintro rfl
    exact reads_readU8 value rest

/-- A 16-bit word that is read was written at the front. -/
theorem readU16_eq_ok {input rest : Bytes} {value : UInt16} :
    readU16 input = .ok (value, rest) ↔ input = writeU16 value ++ rest := by
  constructor
  · intro success
    obtain ⟨found, between, read, same⟩ := bind_eq_ok.mp success
    obtain ⟨fits, rfl⟩ := readLittleEndian_eq_ok_append.mp read
    cases same
    rw [writeU16, UInt16.toNat_ofNat_of_lt' fits]
  · rintro rfl
    exact reads_readU16 value rest

/-- A 32-bit word that is read was written at the front. -/
theorem readU32_eq_ok {input rest : Bytes} {value : UInt32} :
    readU32 input = .ok (value, rest) ↔ input = writeU32 value ++ rest := by
  constructor
  · intro success
    obtain ⟨found, between, read, same⟩ := bind_eq_ok.mp success
    obtain ⟨fits, rfl⟩ := readLittleEndian_eq_ok_append.mp read
    cases same
    rw [writeU32, UInt32.toNat_ofNat_of_lt' fits]
  · rintro rfl
    exact reads_readU32 value rest

/-- A 64-bit word that is read was written at the front. -/
theorem readU64_eq_ok {input rest : Bytes} {value : UInt64} :
    readU64 input = .ok (value, rest) ↔ input = writeU64 value ++ rest := by
  constructor
  · intro success
    obtain ⟨found, between, read, same⟩ := bind_eq_ok.mp success
    obtain ⟨fits, rfl⟩ := readLittleEndian_eq_ok_append.mp read
    cases same
    rw [writeU64, UInt64.toNat_ofNat_of_lt' fits]
  · rintro rfl
    exact reads_readU64 value rest

end Reader

/-- A check that passes leaves the stream alone. -/
theorem Reader.failIf_eq_ok {wrong : Prop} [Decidable wrong] {error : AetherError} {done : Unit}
    {input rest : Bytes} :
    failIf wrong error input = .ok (done, rest) ↔ ¬wrong ∧ input = rest := by
  rw [failIf, ByteReader.lift_eq_ok, Result.failIf_eq_ok]

/-- The digest functions records are protected with. -/
structure Hashing where
  blake3 : Bytes → Digest
  keyedHash : Digest → Bytes → Digest
  crc32 : Bytes → UInt32

/-! ## Text -/

/-- The UTF-8 bytes of a text. -/
def asBytes (text : String) : Bytes := text.toByteArray.data.toList

/-- The text of valid UTF-8 bytes. -/
def fromUtf8 (bytes : Bytes) : Option String := String.fromUTF8? ⟨bytes.toArray⟩

theorem asBytes_eq_encode (text : String) : asBytes text = Utf8.encode text.toList :=
  (Utf8.encode_toList text).symm

@[simp] theorem fromUtf8_asBytes (text : String) : fromUtf8 (asBytes text) = some text := by
  have valid : ByteArray.IsValidUTF8 ⟨(asBytes text).toArray⟩ := text.isValidUTF8
  rw [fromUtf8, String.fromUTF8?, dif_pos valid]
  rfl

/-- Only the bytes of a text decode to it. -/
theorem asBytes_of_fromUtf8 {bytes : Bytes} {text : String} (decoded : fromUtf8 bytes = some text) :
    asBytes text = bytes := by
  rw [fromUtf8, String.fromUTF8?] at decoded
  split at decoded
  · cases decoded
    rfl
  · cases decoded

/-- Whether bytes begin the encoding of a character without completing it. -/
def isUtf8Prefix : Bytes → Bool
  | [first] => 0xC2 ≤ first ∧ first ≤ 0xF4
  | [first, second] =>
      first = 0xE0 ∧ 0xA0 ≤ second ∧ second ≤ 0xBF ∨
      0xE1 ≤ first ∧ first ≤ 0xEF ∧ first ≠ 0xED ∧ 0x80 ≤ second ∧ second ≤ 0xBF ∨
      first = 0xED ∧ 0x80 ≤ second ∧ second ≤ 0x9F ∨
      first = 0xF0 ∧ 0x90 ≤ second ∧ second ≤ 0xBF ∨
      0xF1 ≤ first ∧ first ≤ 0xF3 ∧ 0x80 ≤ second ∧ second ≤ 0xBF ∨
      first = 0xF4 ∧ 0x80 ≤ second ∧ second ≤ 0x8F
  | [first, second, third] =>
      0xF0 ≤ first ∧ isUtf8Prefix [first, second] ∧ 0x80 ≤ third ∧ third ≤ 0xBF
  | _ => false

/-- The text of a decoding failure: where the valid part ends, and how many bytes are wrong. -/
def utf8Error (bytes : Bytes) : String :=
  let validUpTo := ((List.range (bytes.length + 1)).filter fun len =>
    (fromUtf8 (bytes.take len)).isSome).getLastD 0
  let rest := bytes.drop validUpTo
  if isUtf8Prefix rest then s!"incomplete utf-8 byte sequence from index {validUpTo}"
  else
    let wrong := ([1, 2, 3].filter fun len => isUtf8Prefix (rest.take len)).getLastD 1
    s!"invalid utf-8 sequence of {wrong} bytes from index {validUpTo}"

/-- Whether a byte index lies between two characters. -/
def isCharBoundary (text : String) (index : Nat) : Bool := String.Pos.Raw.isValid text ⟨index⟩

/-- A character starts where the bytes ahead are valid of themselves. -/
theorem isCharBoundary_iff {text : String} {index : Nat} :
    isCharBoundary text index = true ↔ index ≤ (asBytes text).length ∧
      ByteArray.IsValidUTF8 ⟨((asBytes text).take index).toArray⟩ := by
  have bytes : text.toByteArray.extract 0 index = ⟨((asBytes text).take index).toArray⟩ := by
    apply ByteArray.ext
    rw [ByteArray.data_extract, asBytes, ← Array.toList_inj, Array.toList_extract]
    simp
  rw [isCharBoundary, String.Pos.Raw.isValid_eq_true_iff,
    String.Pos.Raw.isValid_iff_isValidUTF8_extract_zero, bytes]
  rfl

@[simp] theorem isCharBoundary_zero (text : String) : isCharBoundary text 0 = true :=
  String.Pos.Raw.isValid_eq_true_iff.mpr String.Pos.Raw.isValid_zero

/-- Texts that agree up to an index have a boundary there together. -/
theorem isCharBoundary_of_take_eq {first second : String} {index : Nat}
    (same : (asBytes first).take index = (asBytes second).take index)
    (inside : index ≤ (asBytes second).length) (boundary : isCharBoundary first index = true) :
    isCharBoundary second index = true := by
  rw [isCharBoundary_iff] at boundary ⊢
  exact ⟨inside, same ▸ boundary.2⟩

end AetherArch
