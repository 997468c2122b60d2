import AetherArch.Library.Crc
import AetherArch.RecordRoundTrip

/-! # What the checksums of records cover

A checksum is computed again from the record that was read, so it covers what the record says and
not the bytes that say it. Bytes that are read as the same record are told apart by nothing.
-/

namespace AetherArch

open ByteReader (bind_eq_ok lift_eq_ok pure_eq_ok)

/-- A content type is written as the number it was read from. -/
theorem ContentType.toU16_of_fromU16 {value : UInt16} {type : ContentType}
    (known : fromU16 value = .ok type) : type.toU16 = value := by
  rw [fromU16.eq_def] at known
  split at known <;> cases known <;> rfl

/-- A method is written as the number it was read from. -/
theorem CompressionMethod.toU8_of_fromU8 {value : UInt8} {method : CompressionMethod}
    (known : fromU8 value = .ok method) : method.toU8 = value := by
  rw [fromU8.eq_def] at known
  split at known <;> cases known <;> rfl

/-- A checksum that changes when one byte does. -/
def Hashing.DetectsByte (hashing : Hashing) : Prop :=
  ∀ (before after : Bytes) {first second : UInt8}, first ≠ second →
    hashing.crc32 (before ++ first :: after) ≠ hashing.crc32 (before ++ second :: after)

/-- Different words have different bytes. -/
theorem writeU32_injective : Function.Injective writeU32 := by
  intro first second same
  have numbers := congrArg Numeral.littleEndian same
  have fits (value : UInt32) : value.toNat < 256 ^ 4 := value.toNat_lt
  rw [writeU32, writeU32, Numeral.littleEndian_toLittleEndian,
    Numeral.littleEndian_toLittleEndian, Nat.mod_eq_of_lt (fits first),
    Nat.mod_eq_of_lt (fits second)] at numbers
  exact UInt32.toNat_inj.mp numbers

/-! ## Bytes behind a checksum -/

/-- Bytes, their checksum, and what always follows it. -/
def checked (hashing : Hashing) (suffix payload : Bytes) : Bytes :=
  payload ++ (writeU32 (hashing.crc32 payload) ++ suffix)

section

variable {hashing : Hashing} {suffix payload other rest otherRest : Bytes} {position : Nat}
  {byte : UInt8}

/-- **No byte of checked bytes can be exchanged.** -/
theorem Hashing.DetectsByte.getElem?_of_set (detects : hashing.DetectsByte)
    (length : other.length = payload.length)
    (inside : position < (checked hashing suffix payload).length)
    (changed : checked hashing suffix other ++ otherRest =
      (checked hashing suffix payload ++ rest).set position byte) :
    (checked hashing suffix payload ++ rest)[position]? = some byte := by
  have found : (checked hashing suffix other ++ otherRest)[position]? = some byte := by
    rw [changed, List.getElem?_set_self]
    rw [List.length_append]
    exact Nat.lt_add_right _ inside
  simp only [checked, List.append_assoc] at changed
  suffices same : other = payload by
    rw [same, List.getElem?_append_left inside] at found
    rw [List.getElem?_append_left inside, found]
  rcases lt_or_ge position payload.length with within | behind
  · rw [List.set_append_left _ _ within] at changed
    obtain ⟨payloads, later⟩ := List.append_inj changed
      (by rw [length, List.length_set])
    have sums := writeU32_injective (List.append_inj_left later
      (by rw [length_writeU32, length_writeU32]))
    have split : payload.take position ++ payload[position] :: payload.drop (position + 1) =
        payload := by
      rw [List.getElem_cons_drop, List.take_append_drop]
    by_contra different
    rw [payloads, List.set_eq_take_append_cons_drop, if_pos within] at sums different
    refine detects _ _ (fun same => different ?_) (sums.trans (congrArg _ split.symm))
    rw [same, split]
  · rw [List.set_append_right _ _ behind] at changed
    exact List.append_inj_left changed length

end

/-! ## Records -/

/-- Records of a fixed size. -/
inductive RecordKind where
  | blockHeader
  | blockTrailer
  | solidGroup
  | footer
  deriving DecidableEq

namespace RecordKind

section

variable (hashing : Hashing) (archiveOffset : Nat) (blockId : UInt32)

/-- Read a record and write it again. -/
def rewrite : RecordKind → Reader Bytes
  | blockHeader => do
      let header ← BlockHeader.readFromAt hashing archiveOffset
      pure (header.writeTo hashing)
  | blockTrailer => do
      let trailer ← BlockTrailer.readFromWithId hashing blockId
      pure (trailer.writeTo hashing)
  | solidGroup => do
      let entry ← SolidGroupEntry.readFrom
      pure entry.writeTo
  | footer => do
      let footer ← ArchiveFooter.readFrom hashing
      pure (footer.writeTo hashing)

end

def size : RecordKind → Nat
  | blockHeader => BLOCK_HEADER_SIZE
  | blockTrailer => BLOCK_TRAILER_SIZE
  | solidGroup => SOLID_GROUP_ENTRY_SIZE
  | footer => ARCHIVE_FOOTER_SIZE

/-- The bytes a record is written to when it was read from some. -/
def normal : RecordKind → Bytes → Bytes
  | blockHeader, bytes =>
      ((bytes.set 13 (if bytes[13]? = some 0 then 0 else 1)).set 14 0).set 15 0
  | solidGroup, bytes => ((((bytes.set 7 0).set 20 0).set 21 0).set 22 0).set 23 0
  | _, bytes => bytes

/-- Nothing of a record's bytes is ignored. -/
def Plain : RecordKind → Bytes → Prop
  | blockHeader, bytes =>
      (bytes[13]? = some 0 ∨ bytes[13]? = some 1) ∧ bytes[14]? = some 0 ∧ bytes[15]? = some 0
  | solidGroup, bytes =>
      bytes[7]? = some 0 ∧ bytes[20]? = some 0 ∧ bytes[21]? = some 0 ∧ bytes[22]? = some 0 ∧
        bytes[23]? = some 0
  | _, _ => True

/-- Putting a byte at a position changes nothing about the record. -/
def Ignores : RecordKind → Bytes → (position : Nat) → UInt8 → Prop
  | blockHeader, bytes, position, byte =>
      position = 14 ∨ position = 15 ∨ position = 13 ∧ bytes[13]? ≠ some 0 ∧ byte ≠ 0
  | _, _, _, _ => False

end RecordKind

/-- A byte can be exchanged for another. -/
theorem set_writeU8 (value byte : UInt8) : (writeU8 value).set 0 byte = writeU8 byte := by
  have bytes (value : UInt8) : writeU8 value = [value] := by
    rw [writeU8, Numeral.toLittleEndian, Numeral.toLittleEndian, UInt8.ofNat_toNat]
  rw [bytes, bytes]
  rfl

theorem getElem?_writeU8 (value : UInt8) : (writeU8 value)[0]? = some value := by
  rw [writeU8, Numeral.toLittleEndian, UInt8.ofNat_toNat]
  rfl

/-- A word is cleared by clearing its bytes. -/
theorem set_writeU16_zero (value : UInt16) :
    ((writeU16 value).set 0 0).set 1 0 = writeU16 0 := by
  simp only [writeU16, Numeral.toLittleEndian, List.set_cons_zero, List.set_cons_succ]
  rfl

/-- Dropping the high byte of a number narrows it. -/
theorem set_writeU16_one (value : UInt16) :
    (writeU16 value).set 1 0 = writeU16 value.toUInt8.toUInt16 := by
  simp only [writeU16, Numeral.toLittleEndian, List.set_cons_zero, List.set_cons_succ,
    UInt8.toNat_toUInt16, UInt16.toNat_toUInt8]
  have small : value.toNat % 2 ^ 8 / 256 = 0 := Nat.div_eq_of_lt (Nat.mod_lt _ (by decide))
  rw [small]
  congr 1
  apply UInt8.toNat_inj.mp
  rw [UInt8.toNat_ofNat', UInt8.toNat_ofNat', Nat.mod_mod]

/-- So is a word of four bytes. -/
theorem set_writeU32_zero (value : UInt32) :
    ((((writeU32 value).set 0 0).set 1 0).set 2 0).set 3 0 = writeU32 0 := by
  simp only [writeU32, Numeral.toLittleEndian, List.set_cons_zero, List.set_cons_succ]
  rfl

/-- Two bytes are a number. -/
theorem exists_writeU16 {bytes : Bytes} (length : bytes.length = 2) :
    ∃ value, writeU16 value = bytes := by
  refine ⟨UInt16.ofNat (Numeral.littleEndian bytes), ?_⟩
  have below := Numeral.littleEndian_lt bytes
  have written := Numeral.toLittleEndian_littleEndian bytes
  rw [length] at below written
  rw [writeU16, UInt16.toNat_ofNat_of_lt' below, written]

namespace BlockHeader

variable {hashing : Hashing} {archiveOffset : Nat} {input rest : Bytes} {header : BlockHeader}

/-- The bytes of a header with any flag byte and any reserved bytes. -/
def stored (header : BlockHeader) (stateFlag : UInt8) (reserved : UInt16) (rest : Bytes) : Bytes :=
  writeU32 BLOCK_MAGIC ++ (writeU32 header.blockId ++ (writeU32 header.solidGroupId ++
    (writeU8 header.compressionMethod.toU8 ++ (writeU8 stateFlag ++ (writeU16 reserved ++
      (writeU32 header.compressedSize ++ (writeU32 header.uncompressedSize ++ rest)))))))

/-- **What the reader of a block header accepts.** -/
theorem readFromAt_eq_ok : readFromAt hashing archiveOffset input = .ok (header, rest) ↔
    ∃ stateFlag reserved, header.predictorStateFlag = decide (stateFlag ≠ 0) ∧
      input = header.stored stateFlag reserved (writeU32 (header.computeCrc hashing) ++ rest) := by
  constructor
  · intro success
    simp only [readFromAt, bind_eq_ok, Reader.failIf_eq_ok, Reader.readU32_eq_ok,
      Reader.readU8_eq_ok, Reader.readU16_eq_ok, pure_eq_ok, lift_eq_ok] at success
    obtain ⟨magic, _, rfl, _, _, ⟨sameMagic, rfl⟩, blockId, _, rfl, group, _, rfl, method, _, rfl,
      known, _, ⟨methodKnown, rfl⟩, stateFlag, _, rfl, reserved, _, rfl, compressed, _, rfl,
      uncompressed, _, rfl, crc, _, rfl, _, _, ⟨sameCrc, rfl⟩, same⟩ := success
    cases same
    refine ⟨stateFlag, reserved, rfl, ?_⟩
    rw [stored, ← not_not.mp sameMagic, ← not_not.mp sameCrc,
      CompressionMethod.toU8_of_fromU8 methodKnown]
  · rintro ⟨stateFlag, reserved, flag, rfl⟩
    simp only [readFromAt, bind_eq_ok, Reader.failIf_eq_ok, Reader.readU32_eq_ok,
      Reader.readU8_eq_ok, Reader.readU16_eq_ok, pure_eq_ok, lift_eq_ok]
    refine ⟨BLOCK_MAGIC, _, rfl, (), _, ⟨not_not.mpr rfl, rfl⟩, _, _, rfl, _, _, rfl, _, _, rfl,
      _, _, ⟨CompressionMethod.fromU8_toU8 _, rfl⟩, _, _, rfl, _, _, rfl, _, _, rfl, _, _, rfl, _,
      _, rfl, (), _, ⟨not_not.mpr ?_, rfl⟩, ?_⟩
    · rw [← flag]
    · rw [← flag]

/-- The flag of a stored header is its fourteenth byte. -/
theorem getElem?_stored (stateFlag : UInt8) (reserved : UInt16) (rest : Bytes) :
    (header.stored stateFlag reserved rest)[13]? = some stateFlag := by
  simp only [stored, List.getElem?_append, length_writeU32, length_writeU8, Nat.reduceLT,
    ↓reduceIte, Nat.reduceSub, getElem?_writeU8]

/-- A stored header is normalized to the bytes it is written with. -/
theorem normal_stored {stateFlag : UInt8}
    (flag : header.predictorStateFlag = decide (stateFlag ≠ 0))
    (reserved : UInt16) : RecordKind.blockHeader.normal
      (header.stored stateFlag reserved (writeU32 (header.computeCrc hashing) ++ rest)) =
        header.writeTo hashing ++ rest := by
  have written : (if header.predictorStateFlag then (1 : UInt8) else 0) =
      if some stateFlag = some 0 then 0 else 1 := by
    rw [flag]
    by_cases unset : stateFlag = 0
    · rw [if_pos (congrArg some unset), if_neg (by rw [decide_eq_true_eq]; exact not_not.mpr unset)]
    · rw [if_neg (fun same => unset (Option.some.inj same)), if_pos (decide_eq_true unset)]
  rw [RecordKind.normal, getElem?_stored, ← written]
  simp only [stored, List.set_append, List.length_set, length_writeU32, length_writeU8,
    length_writeU16, Nat.reduceLT, ↓reduceIte, Nat.reduceSub, set_writeU8, set_writeU16_zero,
    writeTo, fields, List.append_assoc]

end BlockHeader

/-- A trailer that is read was written at the front. -/
theorem BlockTrailer.readFromWithId_eq_ok {hashing : Hashing} {blockId : UInt32}
    {input rest : Bytes} {trailer : BlockTrailer} :
    readFromWithId hashing blockId input = .ok (trailer, rest) ↔
      input = trailer.writeTo hashing ++ rest := by
  constructor
  · intro success
    simp only [readFromWithId, bind_eq_ok, Reader.failIf_eq_ok, Reader.readU32_eq_ok,
      Reader.readExact_eq_ok, pure_eq_ok] at success
    obtain ⟨digest, _, rfl, crc, _, rfl, _, _, ⟨sameCrc, rfl⟩, same⟩ := success
    cases same
    rw [writeTo, ← not_not.mp sameCrc, List.append_assoc]
  · rintro rfl
    exact trailer.reads hashing blockId rest

/-- A footer that is read was written at the front. -/
theorem ArchiveFooter.readFrom_eq_ok {hashing : Hashing} {input rest : Bytes}
    {footer : ArchiveFooter} :
    readFrom hashing input = .ok (footer, rest) ↔ input = footer.writeTo hashing ++ rest := by
  constructor
  · intro success
    simp only [readFrom, bind_eq_ok, Reader.failIf_eq_ok, Reader.readU32_eq_ok,
      Reader.readU64_eq_ok, pure_eq_ok] at success
    obtain ⟨index, _, rfl, table, _, rfl, blocks, _, rfl, files, _, rfl, crc, _, rfl, magic, _, rfl,
      _, _, ⟨sameMagic, rfl⟩, _, _, ⟨sameCrc, rfl⟩, same⟩ := success
    cases same
    rw [writeTo, ← not_not.mp sameMagic, ← not_not.mp sameCrc]
    simp only [fields, List.append_assoc]
  · rintro rfl
    exact footer.reads hashing rest

/-- A group entry that is read is the normal form of its bytes. -/
theorem SolidGroupEntry.normal_of_readFrom {input rest : Bytes} {entry : SolidGroupEntry}
    (success : readFrom input = .ok (entry, rest)) :
    RecordKind.solidGroup.normal input = entry.writeTo ++ rest := by
  simp only [readFrom, bind_eq_ok, Reader.readU32_eq_ok, Reader.readU16_eq_ok, pure_eq_ok,
    lift_eq_ok] at success
  obtain ⟨group, _, rfl, type, _, rfl, known, _, ⟨typeKnown, rfl⟩, method, _, rfl, knownMethod, _,
    ⟨methodKnown, rfl⟩, first, _, rfl, blocks, _, rfl, files, _, rfl, reserved, _, rfl, same⟩ :=
    success
  cases same
  have narrowed : (writeU16 method).set 1 0 = writeU16 knownMethod.toU8.toUInt16 := by
    rw [CompressionMethod.toU8_of_fromU8 methodKnown, set_writeU16_one]
  simp only [RecordKind.normal, List.set_append, List.length_set, length_writeU32, length_writeU16,
    Nat.reduceLT, ↓reduceIte, Nat.reduceSub, narrowed, set_writeU32_zero, writeTo,
    ContentType.toU16_of_fromU16 typeKnown, List.append_assoc]

namespace RecordKind

variable {hashing : Hashing} {archiveOffset : Nat} {blockId : UInt32} {kind : RecordKind}
  {input bytes rest : Bytes} {position : Nat} {byte : UInt8}

/-- What follows the checksum of a record. -/
def suffix : RecordKind → Bytes
  | footer => writeU32 FOOTER_MAGIC
  | _ => []

/-- **A record that is read has a normal form**, which it is written to. -/
theorem normal_of_rewrite
    (accepted : kind.rewrite hashing archiveOffset blockId input = .ok (bytes, rest)) :
    kind.normal input = bytes ++ rest ∧ bytes.length = kind.size ∧
      (kind ≠ solidGroup → ∃ payload, payload.length + 4 + kind.suffix.length = kind.size ∧
        bytes = checked hashing kind.suffix payload) := by
  cases kind with
  | blockHeader =>
      obtain ⟨header, between, read, same⟩ := bind_eq_ok.mp accepted
      cases same
      obtain ⟨stateFlag, reserved, flag, rfl⟩ := BlockHeader.readFromAt_eq_ok.mp read
      have length : header.fields.length = 24 := by
        simp only [BlockHeader.fields, List.length_append, length_writeU32, length_writeU16,
          length_writeU8]
      refine ⟨BlockHeader.normal_stored flag reserved, ?_, fun _ => ⟨header.fields, ?_, ?_⟩⟩
      · rw [BlockHeader.writeTo, List.length_append, length, length_writeU32]
        rfl
      · rw [length]
        rfl
      · have nothing : blockHeader.suffix = [] := rfl
        rw [checked, nothing, List.append_nil]
        rfl
  | blockTrailer =>
      obtain ⟨trailer, between, read, same⟩ := bind_eq_ok.mp accepted
      cases same
      obtain rfl := BlockTrailer.readFromWithId_eq_ok.mp read
      have length : trailer.contentBlake3.1.length = 32 := trailer.contentBlake3.2
      refine ⟨rfl, ?_, fun _ => ⟨trailer.contentBlake3.1, ?_, ?_⟩⟩
      · rw [BlockTrailer.writeTo, List.length_append, length, length_writeU32]
        rfl
      · rw [length]
        rfl
      · have nothing : blockTrailer.suffix = [] := rfl
        rw [checked, nothing, List.append_nil]
        rfl
  | solidGroup =>
      obtain ⟨entry, between, read, same⟩ := bind_eq_ok.mp accepted
      cases same
      refine ⟨SolidGroupEntry.normal_of_readFrom read, ?_, fun summed => absurd rfl summed⟩
      simp only [SolidGroupEntry.writeTo, List.length_append, length_writeU32, length_writeU16]
      rfl
  | footer =>
      obtain ⟨footer, between, read, same⟩ := bind_eq_ok.mp accepted
      cases same
      obtain rfl := ArchiveFooter.readFrom_eq_ok.mp read
      have length : footer.fields.length = 24 := by
        simp only [ArchiveFooter.fields, List.length_append, length_writeU64, length_writeU32]
      refine ⟨rfl, ?_, fun _ => ⟨footer.fields, ?_, ?_⟩⟩
      · simp only [ArchiveFooter.writeTo, List.length_append, length, length_writeU32]
        rfl
      · rw [length, suffix, length_writeU32]
        rfl
      · rw [checked, suffix, ← List.append_assoc]
        rfl

theorem length_normal (kind : RecordKind) (bytes : Bytes) :
    (kind.normal bytes).length = bytes.length := by
  cases kind <;> simp only [normal, List.length_set]

/-- Putting back what stands there changes nothing. -/
theorem set_of_getElem? (found : input[position]? = some byte) :
    input.set position byte = input := by
  obtain ⟨inside, rfl⟩ := List.getElem?_eq_some_iff.mp found
  exact List.set_getElem_self inside

/-- Bytes are their own normal form when nothing of them is ignored. -/
theorem normal_eq_iff (inside : kind.size ≤ input.length) :
    kind.normal input = input ↔ kind.Plain input := by
  cases kind with
  | blockTrailer => exact iff_of_true rfl trivial
  | footer => exact iff_of_true rfl trivial
  | blockHeader =>
      have size : blockHeader.size = 28 := rfl
      rw [size] at inside
      constructor
      · intro same
        have at13 := congrArg (·[13]?) same
        have at14 := congrArg (·[14]?) same
        have at15 := congrArg (·[15]?) same
        simp only [normal, List.getElem?_set, List.length_set, Nat.reduceEqDiff, ↓reduceIte,
          show 13 < input.length by omega, show 14 < input.length by omega,
          show 15 < input.length by omega] at at13 at14 at15
        refine ⟨?_, at14.symm, at15.symm⟩
        split at at13
        · rename_i unset
          exact .inl unset
        · exact .inr at13.symm
      · rintro ⟨flag, first, second⟩
        have kept : input.set 13 (if input[13]? = some 0 then 0 else 1) = input := by
          apply set_of_getElem?
          rcases flag with unset | set
          · rw [unset, if_pos rfl]
          · rw [set, if_neg (by decide)]
        rw [normal, kept, set_of_getElem? first, set_of_getElem? second]
  | solidGroup =>
      have size : solidGroup.size = 24 := rfl
      rw [size] at inside
      constructor
      · intro same
        have at7 := congrArg (·[7]?) same
        have at20 := congrArg (·[20]?) same
        have at21 := congrArg (·[21]?) same
        have at22 := congrArg (·[22]?) same
        have at23 := congrArg (·[23]?) same
        simp only [normal, List.getElem?_set, List.length_set, Nat.reduceEqDiff, ↓reduceIte,
          show 7 < input.length by omega, show 20 < input.length by omega,
          show 21 < input.length by omega, show 22 < input.length by omega,
          show 23 < input.length by omega] at at7 at20 at21 at22 at23
        exact ⟨at7.symm, at20.symm, at21.symm, at22.symm, at23.symm⟩
      · rintro ⟨at7, at20, at21, at22, at23⟩
        rw [normal, set_of_getElem? at7, set_of_getElem? at20, set_of_getElem? at21,
          set_of_getElem? at22, set_of_getElem? at23]

/-- A byte as it stands in the normal form of a record. -/
def normalByte : RecordKind → (position : Nat) → UInt8 → UInt8
  | blockHeader, position, byte => if position = 13 then (if byte = 0 then 0 else 1) else byte
  | _, _, byte => byte

/-- Normalizing and exchanging a byte commute where the byte is noticed. -/
theorem normal_set (summed : kind ≠ solidGroup) (noticed : ¬kind.Ignores input position byte)
    (inside : position < input.length) :
    kind.normal (input.set position byte) =
      (kind.normal input).set position (kind.normalByte position byte) := by
  cases kind with
  | solidGroup => exact absurd rfl summed
  | blockTrailer => rfl
  | footer => rfl
  | blockHeader =>
      obtain ⟨not14, others⟩ := not_or.mp noticed
      obtain ⟨not15, -⟩ := not_or.mp others
      rw [normal, normal, normalByte, List.set_comm _ _ (Ne.symm not15),
        List.set_comm _ _ (Ne.symm not14)]
      by_cases flag : position = 13
      · subst flag
        rw [List.getElem?_set_self inside, if_pos rfl, List.set_set, List.set_set]
        simp only [Option.some.injEq]
      · rw [if_neg flag, List.getElem?_set_ne flag, List.set_comm _ _ flag]

/-- A byte that stands in a record is not noticed when it is put there again. -/
theorem eq_of_normalByte (summed : kind ≠ solidGroup)
    (noticed : ¬kind.Ignores input position byte)
    (same : (kind.normal input)[position]? = some (kind.normalByte position byte)) :
    input[position]? = some byte := by
  cases kind with
  | solidGroup => exact absurd rfl summed
  | blockTrailer => exact same
  | footer => exact same
  | blockHeader =>
      obtain ⟨not14, others⟩ := not_or.mp noticed
      obtain ⟨not15, notFlag⟩ := not_or.mp others
      rw [normal, normalByte, List.getElem?_set_ne (Ne.symm not15),
        List.getElem?_set_ne (Ne.symm not14)] at same
      by_cases flag : position = 13
      · subst flag
        have inside : 13 < input.length := by
          by_contra outside
          rw [List.getElem?_eq_none (by rw [List.length_set]; omega)] at same
          cases same
        rw [List.getElem?_set_self inside, if_pos rfl, Option.some.injEq] at same
        by_cases unset : byte = 0
        · rw [if_pos unset] at same
          by_contra other
          rw [if_neg (fun zero => other (zero.trans (congrArg some unset.symm)))] at same
          exact absurd same (by decide)
        · rw [if_neg unset] at same
          have wasUnset : input[13]? = some 0 := by
            by_contra wasSet
            exact notFlag ⟨rfl, wasSet, unset⟩
          rw [if_pos wasUnset] at same
          exact absurd same (by decide)
      · rwa [if_neg flag, List.getElem?_set_ne (Ne.symm flag)] at same

/-- **A byte that is exchanged is noticed**, unless the reader ignores it. -/
theorem refused_of_set (detects : hashing.DetectsByte) (summed : kind ≠ solidGroup)
    (accepted : kind.rewrite hashing archiveOffset blockId input = .ok (bytes, rest))
    (inside : position < kind.size) (different : input[position]? ≠ some byte)
    (noticed : ¬kind.Ignores input position byte) (result : Bytes × Bytes) :
    kind.rewrite hashing archiveOffset blockId (input.set position byte) ≠ .ok result := by
  obtain ⟨otherBytes, otherRest⟩ := result
  intro acceptedToo
  obtain ⟨normal, size, sealed⟩ := normal_of_rewrite accepted
  obtain ⟨otherNormal, otherSize, otherSealed⟩ := normal_of_rewrite acceptedToo
  obtain ⟨payload, length, rfl⟩ := sealed summed
  obtain ⟨other, otherLength, rfl⟩ := otherSealed summed
  have within : position < input.length := by
    have total := kind.length_normal input
    rw [normal, List.length_append, size] at total
    omega
  rw [normal_set summed noticed within, normal] at otherNormal
  have found := detects.getElem?_of_set (by omega) (by rw [size]; exact inside) otherNormal.symm
  rw [← normal] at found
  exact different (eq_of_normalByte summed noticed found)

/-- A byte that the reader ignores can be exchanged. -/
theorem rewrite_of_ignored
    (accepted : kind.rewrite hashing archiveOffset blockId input = .ok (bytes, rest))
    (ignored : kind.Ignores input position byte) :
    kind.rewrite hashing archiveOffset blockId (input.set position byte) = .ok (bytes, rest) := by
  cases kind with
  | solidGroup => exact ignored.elim
  | blockTrailer => exact ignored.elim
  | footer => exact ignored.elim
  | blockHeader =>
      obtain ⟨header, between, read, same⟩ := bind_eq_ok.mp accepted
      cases same
      obtain ⟨stateFlag, reserved, flag, rfl⟩ := BlockHeader.readFromAt_eq_ok.mp read
      have accept (changedFlag : UInt8) (changedReserved : UInt16)
          (sameFlag : decide (changedFlag ≠ 0) = decide (stateFlag ≠ 0))
          (changed : (header.stored stateFlag reserved
              (writeU32 (header.computeCrc hashing) ++ rest)).set position byte =
            header.stored changedFlag changedReserved
              (writeU32 (header.computeCrc hashing) ++ rest)) :
          blockHeader.rewrite hashing archiveOffset blockId ((header.stored stateFlag reserved
              (writeU32 (header.computeCrc hashing) ++ rest)).set position byte) =
            .ok (header.writeTo hashing, rest) :=
        bind_eq_ok.mpr ⟨header, rest, BlockHeader.readFromAt_eq_ok.mpr
          ⟨changedFlag, changedReserved, flag.trans sameFlag.symm, changed⟩, rfl⟩
      rcases ignored with rfl | rfl | ⟨rfl, wasSet, isSet⟩
      · obtain ⟨changedReserved, written⟩ := @exists_writeU16 ((writeU16 reserved).set 0 byte)
          (by rw [List.length_set, length_writeU16])
        refine accept stateFlag changedReserved rfl ?_
        simp only [BlockHeader.stored, List.set_append, length_writeU32, length_writeU8,
          length_writeU16, Nat.reduceLT, ↓reduceIte, Nat.reduceSub, written]
      · obtain ⟨changedReserved, written⟩ := @exists_writeU16 ((writeU16 reserved).set 1 byte)
          (by rw [List.length_set, length_writeU16])
        refine accept stateFlag changedReserved rfl ?_
        simp only [BlockHeader.stored, List.set_append, length_writeU32, length_writeU8,
          length_writeU16, Nat.reduceLT, ↓reduceIte, Nat.reduceSub, written]
      · rw [BlockHeader.getElem?_stored, Ne, Option.some.injEq] at wasSet
        refine accept byte reserved ?_ ?_
        · rw [decide_eq_true isSet, decide_eq_true wasSet]
        · simp only [BlockHeader.stored, List.set_append, length_writeU32, length_writeU8,
            Nat.reduceLT, ↓reduceIte, Nat.reduceSub, set_writeU8]

/-- **A record is written back to the bytes it was read from** unless some of them are ignored,
and a byte that is exchanged is noticed unless it is one of these. -/
theorem canonical_iff (hashing : Hashing) (detects : hashing.DetectsByte) (archiveOffset : Nat)
    (blockId : UInt32) (kind : RecordKind) (input bytes rest : Bytes)
    (accepted : kind.rewrite hashing archiveOffset blockId input = .ok (bytes, rest)) :
    (input = bytes ++ rest ↔ kind.Plain input) ∧
      (kind ≠ solidGroup → ∀ (position : Nat) (byte : UInt8), position < kind.size →
        input[position]? ≠ some byte →
        ((∀ result, kind.rewrite hashing archiveOffset blockId (input.set position byte) ≠
          .ok result) ↔ ¬kind.Ignores input position byte)) := by
  obtain ⟨normal, size, -⟩ := normal_of_rewrite accepted
  have inside : kind.size ≤ input.length := by
    rw [← kind.length_normal input, normal, List.length_append, size]
    exact Nat.le_add_right ..
  constructor
  · rw [← normal, ← normal_eq_iff inside, eq_comm]
  · intro summed position byte within different
    constructor
    · intro refused ignored
      exact refused _ (rewrite_of_ignored accepted ignored)
    · intro noticed result
      exact refused_of_set detects summed accepted within different noticed result

/-- CRC-32, with digests that tell nothing apart. -/
def crcHashing : Hashing where
  blake3 _ := ⟨List.replicate 32 0, FixedBytes.length_zeros⟩
  keyedHash _ _ := ⟨List.replicate 32 0, FixedBytes.length_zeros⟩
  crc32 := Crc.crc32

theorem crcHashing_detectsByte : crcHashing.DetectsByte :=
  fun before after => Crc.crc32_ne before after

/-- The header of an empty block. -/
def emptyBlockHeader : BlockHeader where
  blockId := 1
  solidGroupId := 0
  compressionMethod := .store
  predictorStateFlag := false
  compressedSize := 0
  uncompressedSize := 0

/-- A header without data is rewritten to itself. -/
theorem rewrite_emptyBlockHeader :
    blockHeader.rewrite crcHashing 0 0 (emptyBlockHeader.writeTo crcHashing) =
      .ok (emptyBlockHeader.writeTo crcHashing, []) := by
  have read := emptyBlockHeader.reads crcHashing 0 []
  rw [List.append_nil] at read
  exact bind_eq_ok.mpr ⟨_, _, read, rfl⟩

/-- A header without data is canonical, and no byte of its id can be exchanged. -/
theorem canonical_emptyBlockHeader :
    blockHeader.Plain (emptyBlockHeader.writeTo crcHashing) ∧
      ∀ byte, byte ≠ 1 → ∀ result, blockHeader.rewrite crcHashing 0 0
        ((emptyBlockHeader.writeTo crcHashing).set 4 byte) ≠ .ok result := by
  obtain ⟨canonical, noticed⟩ := canonical_iff crcHashing crcHashing_detectsByte 0 0 blockHeader
    _ _ _ rewrite_emptyBlockHeader
  refine ⟨canonical.mp (List.append_nil _).symm, fun byte different => ?_⟩
  have blockId : (emptyBlockHeader.writeTo crcHashing)[4]? = some 1 := rfl
  refine (noticed (by decide) 4 byte (by decide) ?_).mpr ?_
  · rw [blockId]
    exact fun same => different (Option.some.inj same).symm
  · rintro (impossible | impossible | ⟨impossible, -⟩) <;> cases impossible

/-- **The reserved bytes of a block header are covered by nothing.** -/
theorem reserved_ignored :
    blockHeader.rewrite crcHashing 0 0 ((emptyBlockHeader.writeTo crcHashing).set 14 1) =
        .ok (emptyBlockHeader.writeTo crcHashing, []) ∧
      (emptyBlockHeader.writeTo crcHashing).set 14 1 ≠ emptyBlockHeader.writeTo crcHashing := by
  refine ⟨rewrite_of_ignored rewrite_emptyBlockHeader (.inl rfl), fun same => ?_⟩
  have reserved := congrArg (·[14]?) same
  have written : (emptyBlockHeader.writeTo crcHashing)[14]? = some 0 := rfl
  have inside : 14 < (emptyBlockHeader.writeTo crcHashing).length :=
    (List.getElem?_eq_some_iff.mp written).1
  simp only [List.getElem?_set_self inside, written, Option.some.injEq] at reserved
  exact absurd reserved (by decide)

end RecordKind

end AetherArch
