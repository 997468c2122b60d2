import AetherArch.Pipeline.PlainArchive

/-! # What the tag of a header covers

The tag is computed again from the fields that were read, always behind the magic bytes of the
current format. So it covers the stored magic bytes of a current header, and not those of a
legacy one.
-/

namespace AetherArch

open ByteReader (bind_eq_ok lift_eq_ok pure_eq_ok)

/-- The number of a width at an offset. -/
def fieldAt (bytes : Bytes) (offset width : Nat) : Nat :=
  Numeral.littleEndian ((bytes.drop offset).take width)

section

variable {bytes rest : Bytes} {offset : Nat}

/-- A number read at an offset is the field there. -/
theorem readLittleEndian_drop {eof : AetherError} {width value : Nat} :
    ByteReader.readLittleEndian eof width (bytes.drop offset) = .ok (value, rest) ↔
      width ≤ bytes.length - offset ∧ value = fieldAt bytes offset width ∧
        rest = bytes.drop (offset + width) := by
  rw [ByteReader.readLittleEndian_eq_ok, List.length_drop, List.drop_drop, fieldAt]

/-- A two-byte field is read at its offset. -/
theorem Reader.readU16_drop {value : UInt16} :
    Reader.readU16 (bytes.drop offset) = .ok (value, rest) ↔
      2 ≤ bytes.length - offset ∧ value = UInt16.ofNat (fieldAt bytes offset 2) ∧
        rest = bytes.drop (offset + 2) := by
  simp only [Reader.readU16, bind_eq_ok, readLittleEndian_drop, pure_eq_ok, Prod.mk.injEq]
  constructor
  · rintro ⟨_, _, ⟨inside, rfl, rfl⟩, rfl, rfl⟩
    exact ⟨inside, rfl, rfl⟩
  · rintro ⟨inside, rfl, rfl⟩
    exact ⟨_, _, ⟨inside, rfl, rfl⟩, rfl, rfl⟩

/-- A four-byte field is read at its offset. -/
theorem Reader.readU32_drop {value : UInt32} :
    Reader.readU32 (bytes.drop offset) = .ok (value, rest) ↔
      4 ≤ bytes.length - offset ∧ value = UInt32.ofNat (fieldAt bytes offset 4) ∧
        rest = bytes.drop (offset + 4) := by
  simp only [Reader.readU32, bind_eq_ok, readLittleEndian_drop, pure_eq_ok, Prod.mk.injEq]
  constructor
  · rintro ⟨_, _, ⟨inside, rfl, rfl⟩, rfl, rfl⟩
    exact ⟨inside, rfl, rfl⟩
  · rintro ⟨inside, rfl, rfl⟩
    exact ⟨_, _, ⟨inside, rfl, rfl⟩, rfl, rfl⟩

/-- An eight-byte field is read at its offset. -/
theorem Reader.readU64_drop {value : UInt64} :
    Reader.readU64 (bytes.drop offset) = .ok (value, rest) ↔
      8 ≤ bytes.length - offset ∧ value = UInt64.ofNat (fieldAt bytes offset 8) ∧
        rest = bytes.drop (offset + 8) := by
  simp only [Reader.readU64, bind_eq_ok, readLittleEndian_drop, pure_eq_ok, Prod.mk.injEq]
  constructor
  · rintro ⟨_, _, ⟨inside, rfl, rfl⟩, rfl, rfl⟩
    exact ⟨inside, rfl, rfl⟩
  · rintro ⟨inside, rfl, rfl⟩
    exact ⟨_, _, ⟨inside, rfl, rfl⟩, rfl, rfl⟩

/-- A field is written to the bytes it was read from. -/
theorem toLittleEndian_fieldAt {width : Nat} (inside : offset + width ≤ bytes.length) :
    Numeral.toLittleEndian width (fieldAt bytes offset width) ++ bytes.drop (offset + width) =
      bytes.drop offset := by
  have length : ((bytes.drop offset).take width).length = width := by
    rw [List.length_take, List.length_drop]
    omega
  have written := Numeral.toLittleEndian_littleEndian ((bytes.drop offset).take width)
  rw [length] at written
  rw [fieldAt, written, ← List.drop_drop, List.take_append_drop]

theorem fieldAt_lt (bytes : Bytes) (offset width : Nat) :
    fieldAt bytes offset width < 256 ^ width :=
  (Numeral.littleEndian_lt _).trans_le (Nat.pow_le_pow_right (by decide) (List.length_take_le ..))

end

/-- A known predictor is written as it was read. -/
theorem PredictorId.toU16_of_fromU16 {value : UInt16} {id : PredictorId}
    (known : fromU16 value = .ok id) : id.toU16 = value := by
  rw [fromU16.eq_def] at known
  split at known <;> cases known <;> rfl

namespace ArchiveHeader

/-- The header that bytes hold, with its predictor decoded. -/
def ofBytes (bytes : Bytes) (predictorId : PredictorId) : ArchiveHeader where
  flags := UInt16.ofNat (fieldAt bytes 8 2)
  predictorId := predictorId
  fileCount := UInt32.ofNat (fieldAt bytes 12 4)
  solidGroupCount := UInt32.ofNat (fieldAt bytes 16 4)
  blockCount := UInt32.ofNat (fieldAt bytes 20 4)
  fileTableOffset := UInt64.ofNat (fieldAt bytes 24 8)
  blockIndexOffset := UInt64.ofNat (fieldAt bytes 32 8)

/-- The fields in a header's bytes, without its magic bytes. -/
def bodyOf (bytes : Bytes) : Bytes := (bytes.drop 8).take 32

/-- The truncated digest of some bytes. -/
def tagOf (hashing : Hashing) (bytes : Bytes) : Bytes := (hashing.blake3 bytes).1.take 8

/-- The predictor in a header's bytes is known, and its counts are within the limits. -/
structure Admissible (bytes : Bytes) : Prop where
  predictor : ∃ id, PredictorId.fromU16 (UInt16.ofNat (fieldAt bytes 10 2)) = .ok id
  counts : checkCounts (UInt32.ofNat (fieldAt bytes 12 4)) (UInt32.ofNat (fieldAt bytes 20 4))
    (UInt32.ofNat (fieldAt bytes 16 4)) = .ok ()

/-- A header is read from some bytes. -/
def Accepts (hashing : Hashing) (bytes : Bytes) : Prop :=
  ∃ header rest, readFrom hashing bytes = .ok (header, rest)

/-- The tag in a header's bytes is that of its other bytes. -/
structure Genuine (hashing : Hashing) (bytes : Bytes) : Prop where
  magic : bytes.take 8 = MAGIC ∨ bytes.take 8 = LEGACY_MAGIC
  admissible : Admissible bytes
  tag : bytes.drop 40 = tagOf hashing (bytes.take 40)

variable {hashing : Hashing} {b : FixedBytes 48}

/-- A field after the magic number is a field of the body. -/
theorem fieldAt_bodyOf {offset width : Nat} (after : 8 ≤ offset) (before : offset + width ≤ 40) :
    fieldAt (bodyOf b.1) (offset - 8) width = fieldAt b.1 offset width := by
  rw [fieldAt, fieldAt, bodyOf, List.drop_take, List.drop_drop, List.take_take,
    Nat.add_sub_cancel' after, Nat.min_eq_left (by omega)]

/-- Whether a header is admissible does not depend on its magic bytes. -/
theorem Admissible.of_bodyOf_eq {other : FixedBytes 48} (admissible : Admissible b.1)
    (same : bodyOf other.1 = bodyOf b.1) : Admissible other.1 := by
  have field {offset width : Nat} (after : 8 ≤ offset) (before : offset + width ≤ 40) :
      fieldAt other.1 offset width = fieldAt b.1 offset width := by
    rw [← fieldAt_bodyOf after before, same, fieldAt_bodyOf after before]
  constructor
  · rw [field (by decide) (by decide)]
    exact admissible.predictor
  · rw [field (by decide) (by decide), field (by decide) (by decide),
      field (by decide) (by decide)]
    exact admissible.counts

/-- What the tag is computed from. -/
theorem fields_ofBytes {id : PredictorId}
    (known : PredictorId.fromU16 (UInt16.ofNat (fieldAt b.1 10 2)) = .ok id) :
    (ofBytes b.1 id).fields = MAGIC ++ bodyOf b.1 := by
  have size := b.2
  have pieces : writeU16 (ofBytes b.1 id).flags ++ (writeU16 id.toU16 ++
      (writeU32 (ofBytes b.1 id).fileCount ++ (writeU32 (ofBytes b.1 id).solidGroupCount ++
      (writeU32 (ofBytes b.1 id).blockCount ++ (writeU64 (ofBytes b.1 id).fileTableOffset ++
      (writeU64 (ofBytes b.1 id).blockIndexOffset ++ b.1.drop 40)))))) = b.1.drop 8 := by
    simp only [ofBytes, PredictorId.toU16_of_fromU16 known, writeU16, writeU32, writeU64,
      UInt16.toNat_ofNat_of_lt' (fieldAt_lt _ _ 2), UInt32.toNat_ofNat_of_lt' (fieldAt_lt _ _ 4),
      UInt64.toNat_ofNat_of_lt' (fieldAt_lt _ _ 8)]
    rw [@toLittleEndian_fieldAt _ 32 8 (by omega), @toLittleEndian_fieldAt _ 24 8 (by omega),
      @toLittleEndian_fieldAt _ 20 4 (by omega), @toLittleEndian_fieldAt _ 16 4 (by omega),
      @toLittleEndian_fieldAt _ 12 4 (by omega), @toLittleEndian_fieldAt _ 10 2 (by omega),
      @toLittleEndian_fieldAt _ 8 2 (by omega)]
  rw [bodyOf, ← pieces]
  simp only [fields, ofBytes, List.append_assoc, List.append_cancel_left_eq]
  simp only [← List.append_assoc]
  rw [List.take_left']
  simp only [List.length_append, length_writeU16, length_writeU32, length_writeU64]

/-- **What the reader of a header accepts.** -/
theorem accepts_iff : Accepts hashing b.1 ↔
    (b.1.take 8 = MAGIC ∨ b.1.take 8 = LEGACY_MAGIC) ∧ Admissible b.1 ∧
      b.1.drop 40 = tagOf hashing (MAGIC ++ bodyOf b.1) := by
  have size := b.2
  have whole : (b.1.drop 40).take 8 = b.1.drop 40 :=
    List.take_of_length_le (by rw [List.length_drop]; omega)
  constructor
  · rintro ⟨header, rest, success⟩
    simp only [readFrom, bind_eq_ok, Reader.failIf_eq_ok] at success
    obtain ⟨magic, _, magicRead, _, _, ⟨known, rfl⟩, flags, _, flagsRead, predictor, _,
      predictorRead, id, _, idRead, files, _, filesRead, groups, _, groupsRead, blocks, _,
      blocksRead, table, _, tableRead, index, _, indexRead, storedTag, _, tagRead, _, _,
      ⟨tagged, rfl⟩, _, _, counts, -⟩ := success
    obtain ⟨-, magicBytes, rfl⟩ := ByteReader.readExact_eq_ok.mp magicRead
    obtain ⟨-, rfl, rfl⟩ := Reader.readU16_drop.mp flagsRead
    obtain ⟨-, rfl, rfl⟩ := Reader.readU16_drop.mp predictorRead
    obtain ⟨idKnown, rfl⟩ := lift_eq_ok.mp idRead
    obtain ⟨-, rfl, rfl⟩ := Reader.readU32_drop.mp filesRead
    obtain ⟨-, rfl, rfl⟩ := Reader.readU32_drop.mp groupsRead
    obtain ⟨-, rfl, rfl⟩ := Reader.readU32_drop.mp blocksRead
    obtain ⟨-, rfl, rfl⟩ := Reader.readU64_drop.mp tableRead
    obtain ⟨-, rfl, rfl⟩ := Reader.readU64_drop.mp indexRead
    obtain ⟨-, tagBytes, rfl⟩ := ByteReader.readExact_eq_ok.mp tagRead
    obtain ⟨countsOk, -⟩ := lift_eq_ok.mp counts
    refine ⟨?_, ⟨⟨id, idKnown⟩, countsOk⟩, ?_⟩
    · rw [← magicBytes]
      by_contra neither
      rw [not_or] at neither
      exact known neither
    · have same := congrArg Subtype.val (not_not.mp tagged)
      rw [tagBytes] at same
      rw [tagOf, ← fields_ofBytes idKnown, ← whole]
      exact same
  · rintro ⟨magic, ⟨⟨id, idKnown⟩, counts⟩, tag⟩
    refine ⟨ofBytes b.1 id, b.1.drop 48, ?_⟩
    simp only [readFrom, bind_eq_ok, Reader.failIf_eq_ok]
    refine ⟨⟨b.1.take 8, by rw [List.length_take]; omega⟩, b.1.drop 8,
      ByteReader.readExact_eq_ok.mpr ⟨by omega, rfl, rfl⟩, (), _, ⟨?_, rfl⟩, _, _,
      Reader.readU16_drop.mpr ⟨by omega, rfl, rfl⟩, _, _,
      Reader.readU16_drop.mpr ⟨by omega, rfl, rfl⟩, id, _, lift_eq_ok.mpr ⟨idKnown, rfl⟩, _, _,
      Reader.readU32_drop.mpr ⟨by omega, rfl, rfl⟩, _, _,
      Reader.readU32_drop.mpr ⟨by omega, rfl, rfl⟩, _, _,
      Reader.readU32_drop.mpr ⟨by omega, rfl, rfl⟩, _, _,
      Reader.readU64_drop.mpr ⟨by omega, rfl, rfl⟩, _, _,
      Reader.readU64_drop.mpr ⟨by omega, rfl, rfl⟩,
      ⟨b.1.drop 40, by rw [List.length_drop]; omega⟩, b.1.drop 48,
      ByteReader.readExact_eq_ok.mpr ⟨by rw [List.length_drop]; omega, whole.symm, by
        rw [List.drop_drop]⟩, (), _, ⟨?_, rfl⟩, (), _, lift_eq_ok.mpr ⟨counts, rfl⟩, rfl⟩
    · rintro ⟨notCurrent, notLegacy⟩
      exact magic.elim notCurrent notLegacy
    · rw [not_not, Subtype.ext_iff]
      refine tag.trans ?_
      rw [tagOf, ← fields_ofBytes idKnown]
      rfl

/-- The authenticated bytes are the magic number and the body. -/
theorem take_forty (b : FixedBytes 48) : b.1.take 40 = b.1.take 8 ++ bodyOf b.1 := by
  have parts := (List.take_append_drop 8 (b.1.take 40)).symm
  rw [List.take_take, List.drop_take] at parts
  exact parts

/-- **A header is accepted when it is genuine**, unless it is a legacy header whose tag tells the
magic bytes apart. Nothing but the version in the magic bytes can be changed behind a tag. -/
theorem integrity_iff (hashing : Hashing) :
    (∀ b : FixedBytes 48, (Accepts hashing b.1 ↔ Genuine hashing b.1) ↔
      ¬(b.1.take 8 = LEGACY_MAGIC ∧ Admissible b.1 ∧
        ¬(b.1.drop 40 = tagOf hashing (b.1.take 40) ↔
          b.1.drop 40 = tagOf hashing (MAGIC ++ bodyOf b.1)))) ∧
    ∀ b changed : FixedBytes 48, Accepts hashing b.1 → changed.1.drop 40 = b.1.drop 40 →
      changed.1.take 40 ≠ b.1.take 40 →
      (tagOf hashing (MAGIC ++ bodyOf changed.1) = tagOf hashing (MAGIC ++ bodyOf b.1) →
        bodyOf changed.1 = bodyOf b.1) →
      (¬Accepts hashing changed.1 ↔ ¬(bodyOf changed.1 = bodyOf b.1 ∧
        (changed.1.take 8 = MAGIC ∨ changed.1.take 8 = LEGACY_MAGIC))) := by
  constructor
  · intro b
    rw [accepts_iff]
    constructor
    · rintro same ⟨legacy, admissible, different⟩
      apply different
      constructor
      · intro own
        exact (same.mpr ⟨.inr legacy, admissible, own⟩).2.2
      · intro current
        exact (same.mp ⟨.inr legacy, admissible, current⟩).tag
    · intro told
      have tags : b.1.take 8 = MAGIC ∨ b.1.take 8 = LEGACY_MAGIC → Admissible b.1 →
          (b.1.drop 40 = tagOf hashing (b.1.take 40) ↔
            b.1.drop 40 = tagOf hashing (MAGIC ++ bodyOf b.1)) := by
        intro magic admissible
        rcases magic with current | legacy
        · rw [take_forty, current]
        · by_contra different
          exact told ⟨legacy, admissible, different⟩
      constructor
      · rintro ⟨magic, admissible, tag⟩
        exact ⟨magic, admissible, (tags magic admissible).mpr tag⟩
      · rintro ⟨magic, admissible, tag⟩
        exact ⟨magic, admissible, (tags magic admissible).mp tag⟩
  · intro b changed accepted sameTag _ collisionFree
    obtain ⟨-, admissible, tag⟩ := accepts_iff.mp accepted
    rw [not_iff_not, accepts_iff, sameTag, tag]
    constructor
    · rintro ⟨magic, -, sameDigest⟩
      exact ⟨collisionFree sameDigest.symm, magic⟩
    · rintro ⟨sameBody, magic⟩
      refine ⟨magic, admissible.of_bodyOf_eq sameBody, ?_⟩
      rw [sameBody]

/-- An empty archive's header behind some magic bytes, with a tag. -/
def emptyHeader (magic tag : FixedBytes 8) : FixedBytes 48 :=
  ⟨magic.1 ++ List.replicate 32 0 ++ tag.1, by
    rw [List.length_append, List.length_append, List.length_replicate, magic.2, tag.2]⟩

/-- Hashing that adds up the bytes. -/
def summing : Hashing :=
  { referenceExternals.toHashing with
    blake3 := fun data => ⟨Numeral.toLittleEndian 32 (data.map UInt8.toNat).sum,
      Numeral.length_toLittleEndian 32 _⟩ }

/-- The header of an empty archive, with the sum of its bytes. -/
def summedHeader : FixedBytes 48 :=
  emptyHeader ⟨MAGIC, rfl⟩ ⟨tagOf summing (MAGIC ++ List.replicate 32 0), rfl⟩

/-- The same header with a flag set behind its tag. -/
def changedHeader : FixedBytes 48 :=
  ⟨MAGIC ++ 1 :: List.replicate 31 0 ++ summedHeader.1.drop 40, rfl⟩

/-- A genuine header with the current magic number is accepted, and refused when it is changed. -/
theorem integrity_current :
    Genuine summing summedHeader.1 ∧ Accepts summing summedHeader.1 ∧
      ¬Accepts summing changedHeader.1 := by
  obtain ⟨genuineOnly, changes⟩ := integrity_iff summing
  have genuine : Genuine summing summedHeader.1 :=
    ⟨.inl rfl, ⟨⟨.order0, rfl⟩, by decide⟩, by decide⟩
  have accepted : Accepts summing summedHeader.1 := by
    refine ((genuineOnly summedHeader).mpr ?_).mpr genuine
    rintro ⟨legacy, -⟩
    exact absurd legacy (by decide)
  have different : changedHeader.1.take 40 ≠ summedHeader.1.take 40 := by decide
  refine ⟨genuine, accepted, (changes summedHeader changedHeader accepted rfl different ?_).mpr ?_⟩
  · intro sameTag
    exact absurd sameTag (by decide)
  · rintro ⟨sameBody, -⟩
    exact absurd sameBody (by decide)

/-- **A genuine legacy header is refused.** -/
theorem legacy_refused :
    ¬(Accepts referenceExternals.toHashing
        (emptyHeader ⟨LEGACY_MAGIC, rfl⟩ ⟨LEGACY_MAGIC, rfl⟩).1 ↔
      Genuine referenceExternals.toHashing
        (emptyHeader ⟨LEGACY_MAGIC, rfl⟩ ⟨LEGACY_MAGIC, rfl⟩).1) := by
  intro same
  have genuine : Genuine referenceExternals.toHashing
      (emptyHeader ⟨LEGACY_MAGIC, rfl⟩ ⟨LEGACY_MAGIC, rfl⟩).1 :=
    ⟨.inr rfl, ⟨⟨.order0, rfl⟩, by decide⟩, rfl⟩
  obtain ⟨-, -, tag⟩ := accepts_iff.mp (same.mpr genuine)
  exact absurd tag (by decide)

end ArchiveHeader

end AetherArch
