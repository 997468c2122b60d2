import AetherArch.Pipeline.PlainArchive

/-! # Archives of one block

An archive with one file whose only block has any payload, stored under any method. What the readers
make of it is what the payload decodes to.
-/

namespace AetherArch

open Decompressor

/-- A file with the payload its block stores, and the data its digests are of. -/
structure OneBlockArchive where
  method : CompressionMethod
  payload : Bytes
  size : Nat
  content : Bytes

namespace OneBlockArchive

variable (hashing : Hashing) (one : OneBlockArchive)

def entry : FileEntry := plainEntry hashing "a" (UInt64.ofNat one.size) one.content 0 1

def block : StoredBlock where
  header :=
    { blockId := 0, solidGroupId := 0, compressionMethod := one.method
      predictorStateFlag := false, compressedSize := UInt32.ofNat one.payload.length
      uncompressedSize := UInt32.ofNat one.size }
  payload := one.payload
  trailer := { contentBlake3 := hashing.blake3 one.content }

def bodyOffset : Nat := ARCHIVE_HEADER_SIZE + (one.entry hashing).writeTo.length

def indexEntry : BlockIndexEntry :=
  (one.block hashing).indexEntry (UInt64.ofNat (one.bodyOffset hashing))

def layout : Layout where
  header :=
    { flags := 0, predictorId := .order0, fileCount := 1, solidGroupCount := 0, blockCount := 1
      fileTableOffset := UInt64.ofNat ARCHIVE_HEADER_SIZE
      blockIndexOffset := UInt64.ofNat
        (one.bodyOffset hashing + ((one.block hashing).bytes hashing).length) }
  encryptionHeader := none
  dictionaryHash := none
  fileEntries := [one.entry hashing]
  solidGroups := []
  tables := (one.entry hashing).writeTo
  body := (one.block hashing).bytes hashing
  blockIndex := [one.indexEntry hashing]

/-- The bytes of the archive. -/
def bytes : Bytes := (one.layout hashing).archive hashing

/-- Sizes within the limits. -/
structure Bounded (one : OneBlockArchive) : Prop where
  payload : one.payload.length ≤ MAX_DECOMPRESSED_BLOCK_SIZE
  size : one.size ≤ MAX_DECOMPRESSED_BLOCK_SIZE

variable {hashing : Hashing} {one : OneBlockArchive}

theorem entry_readable : (one.entry hashing).Readable :=
  PlainArchive.acceptedPath_a.readable _ _ _ _ _

/-- The length of the front of the archive. -/
theorem length_front : ((one.layout hashing).toFrontMatter.bytes hashing).length =
    ARCHIVE_HEADER_SIZE := by
  simp only [layout, FrontMatter.bytes, Option.elim_none, List.append_nil, ArchiveHeader.writeTo,
    ArchiveHeader.fields, List.length_append, length_writeU16, length_writeU32, length_writeU64,
    (ArchiveHeader.computeBlake3Tag ..).2]
  rfl

/-- The length of the block. -/
theorem length_block : ((one.block hashing).bytes hashing).length = 64 + one.payload.length := by
  simp only [block, StoredBlock.bytes, BlockHeader.writeTo, BlockHeader.fields,
    BlockTrailer.writeTo, List.length_append, length_writeU32, length_writeU16, length_writeU8,
    (hashing.blake3 one.content).2]
  omega

/-- The block starts within the first few kilobytes. -/
theorem bodyOffset_le : one.bodyOffset hashing ≤ 48 + 4162 := by
  have header : ARCHIVE_HEADER_SIZE = 48 := rfl
  have limit : MAX_PATH_LENGTH = 4096 := rfl
  have short := PlainArchive.length_writeTo_le (@entry_readable hashing one)
  rw [bodyOffset, header]
  omega

theorem Bounded.compressedSize (bounded : one.Bounded) :
    (one.block hashing).header.compressedSize.toNat = one.payload.length :=
  UInt32.toNat_ofNat_of_lt' (bounded.payload.trans_lt (by decide))

theorem Bounded.uncompressedSize (bounded : one.Bounded) :
    (one.block hashing).header.uncompressedSize.toNat = one.size :=
  UInt32.toNat_ofNat_of_lt' (bounded.size.trans_lt (by decide))

theorem Bounded.originalSize (bounded : one.Bounded) :
    (one.entry hashing).originalSize.toNat = one.size :=
  UInt64.toNat_ofNat_of_lt' (bounded.size.trans_lt (by decide))

/-- **The parts stand where the header says.** -/
theorem Bounded.tiled (bounded : one.Bounded) : (one.layout hashing).Tiled hashing := by
  have header : ARCHIVE_HEADER_SIZE = 48 := rfl
  have footer : ARCHIVE_FOOTER_SIZE = 32 := rfl
  have indexed : BLOCK_INDEX_ENTRY_SIZE = 24 := rfl
  have limit : MAX_DECOMPRESSED_BLOCK_SIZE = 67108864 := rfl
  have payload := bounded.payload
  have offset := @bodyOffset_le hashing one
  have length := @length_block hashing one
  have front := @length_front hashing one
  have tables : (one.layout hashing).tables.length = (one.entry hashing).writeTo.length := rfl
  have body : (one.layout hashing).body.length = 64 + one.payload.length := length
  have index : (one.layout hashing).indexBytes.length = BLOCK_INDEX_ENTRY_SIZE := by
    rw [Layout.indexBytes, length_flatMap_writeTo]
    rfl
  have position : (UInt64.ofNat (one.bodyOffset hashing +
      ((one.block hashing).bytes hashing).length)).toNat =
        one.bodyOffset hashing + ((one.block hashing).bytes hashing).length := by
    refine UInt64.toNat_ofNat_of_lt' ?_
    rw [length]
    exact lt_of_le_of_lt (by omega) (by decide : 67200000 < UInt64.size)
  refine ⟨?_, ?_, rfl, rfl, rfl, ?_, ?_, List.nodup_singleton _, ?_⟩
  · have unencrypted : hasFlag 0 FLAG_ENCRYPTED = false := by decide
    have unprimed : hasFlag 0 FLAG_HAS_DICTIONARY = false := by decide
    have files : (1 : UInt32) ≤ MAX_FILE_COUNT := by decide
    have blocks : (1 : UInt32) ≤ MAX_BLOCK_COUNT := by decide
    have groups : (0 : UInt32) ≤ MAX_SOLID_GROUP_COUNT := by decide
    refine ⟨ArchiveHeader.checkCounts_eq_ok.mpr ⟨files, blocks, groups⟩, unencrypted, unprimed, ?_⟩
    rintro header ⟨⟩
  · have unprefixed : hasFlag 0 FLAG_PATH_PREFIXES = false := rfl
    refine ⟨⟨(one.entry hashing).writeTo, ?_, (List.append_nil _).symm⟩, ?_⟩
    · have written := PlainArchive.writeFileTable_plain [one.entry hashing] ""
      rw [List.flatMap_singleton] at written
      exact unprefixed ▸ written
    · intro entry member
      rw [List.mem_singleton.mp member]
      exact entry_readable
  · exact front.symm
  · rw [front, ← Nat.add_assoc]
    exact position
  · rw [Layout.archive, Layout.afterTables]
    simp only [List.length_append, ArchiveFooter.length_writeTo]
    rw [front, index, body, tables]
    rw [bodyOffset] at offset
    exact lt_of_le_of_lt (by omega) (by decide : 67200000 < 2 ^ 64)

variable {ext : Externals}

theorem Bounded.readMetadata_eq (bounded : one.Bounded) :
    readMetadata ext (one.bytes ext.toHashing) = .ok (one.layout ext.toHashing).metadata :=
  readMetadata_eq_ok.mpr bounded.tiled.seekableRead

/-! ## The block -/

/-- The block stands behind the tables. -/
theorem drop_bodyOffset : ∃ rest, (one.bytes hashing).drop (one.bodyOffset hashing) =
    (one.block hashing).bytes hashing ++ rest := by
  refine ⟨(one.layout hashing).indexBytes ++ (one.layout hashing).footer.writeTo hashing, ?_⟩
  have opening : one.bodyOffset hashing = ((one.layout hashing).toFrontMatter.bytes hashing ++
      (one.layout hashing).tables).length := by
    rw [List.length_append, length_front]
    rfl
  rw [bytes, Layout.archive, ← List.append_assoc, opening, List.drop_left]
  rfl

/-- What decoding the block goes through first. -/
structure Opens (ext : Externals) (one : OneBlockArchive) (rest : Bytes) : Prop where
  header : BlockHeader.readFromAt ext.toHashing (one.indexEntry ext.toHashing).archiveOffset.toNat
    ((one.bytes ext.toHashing).drop (one.indexEntry ext.toHashing).archiveOffset.toNat) =
      .ok ((one.block ext.toHashing).header,
        one.payload ++ ((one.block ext.toHashing).trailer.writeTo ext.toHashing ++ rest))
  valid : validateBlockHeader (one.block ext.toHashing).header (one.indexEntry ext.toHashing)
    (one.indexEntry ext.toHashing).archiveOffset.toNat = .ok ()
  payload : ∃ payload, payload.1 = one.payload ∧
    Reader.readExact (one.block ext.toHashing).header.compressedSize.toNat
      (one.payload ++ ((one.block ext.toHashing).trailer.writeTo ext.toHashing ++ rest)) =
        .ok (payload, (one.block ext.toHashing).trailer.writeTo ext.toHashing ++ rest)
  trailer : BlockTrailer.readFromWithId ext.toHashing (one.block ext.toHashing).header.blockId
    ((one.block ext.toHashing).trailer.writeTo ext.toHashing ++ rest) =
      .ok ((one.block ext.toHashing).trailer, rest)

/-- The archive can be opened. -/
theorem Bounded.opens (bounded : one.Bounded) : ∃ rest, Opens ext one rest := by
  obtain ⟨rest, stands⟩ := @drop_bodyOffset ext.toHashing one
  have offset : (one.indexEntry ext.toHashing).archiveOffset.toNat =
      one.bodyOffset ext.toHashing :=
    UInt64.toNat_ofNat_of_lt' (lt_of_le_of_lt bodyOffset_le (by decide))
  have stored := @Bounded.compressedSize ext.toHashing one bounded
  have size := @Bounded.uncompressedSize ext.toHashing one bounded
  refine ⟨rest, ?_, ?_, ⟨⟨one.payload, stored.symm⟩, rfl, ?_⟩, ?_⟩
  · rw [offset, stands, StoredBlock.bytes, List.append_assoc, List.append_assoc]
    exact (one.block ext.toHashing).header.reads ext.toHashing _ _
  · simp only [validateBlockHeader, Result.bind_eq_ok, Result.failIf_eq_ok, not_lt, not_not]
    exact ⟨(), rfl, (), rfl, (), rfl, (), stored.trans_le bounded.payload,
      size.trans_le bounded.size⟩
  · exact Reader.reads_readExact ⟨one.payload, stored.symm⟩ _
  · exact (one.block ext.toHashing).trailer.reads ext.toHashing _ rest

/-- **The block decodes to what its payload does**, if the digest is right. -/
theorem Bounded.decompressBlock_eq_ok (bounded : one.Bounded) {baseline : Option Bytes}
    {data : Bytes} :
    decompressBlock ext (one.bytes ext.toHashing) (one.indexEntry ext.toHashing) baseline none =
        .ok data ↔
      decompressChunkWithBaseline ext.toCodecs one.payload one.method one.size baseline =
          .ok data ∧
        ext.blake3 data = ext.blake3 one.content := by
  obtain ⟨rest, header, valid, ⟨⟨payload, stored⟩, same, payloadRead⟩, trailer⟩ :=
    @Bounded.opens one ext bounded
  dsimp only at same
  subst same
  have size := @Bounded.uncompressedSize ext.toHashing one bounded
  simp only [decompressBlock, header, valid, payloadRead, trailer, Result.ok_bind,
    maybeDecryptPayload, Result.bind_eq_ok, Result.mapError_eq_ok, Result.failIf_eq_ok,
    checkBlockHash_eq_ok, Result.pure_eq_ok, not_not, size]
  constructor
  · rintro ⟨_, decoded, _, -, _, digest, rfl⟩
    exact ⟨decoded, digest⟩
  · rintro ⟨decoded, digest⟩
    exact ⟨data, decoded, (), (length_decompressChunk decoded).1, (), digest, rfl⟩

/-- **The block fails with the text of what its payload fails with.** -/
theorem Bounded.decompressBlock_eq_error (bounded : one.Bounded) : ∃ text : String,
    ∀ baseline error,
      decompressChunkWithBaseline ext.toCodecs one.payload one.method one.size baseline =
          .error error →
        decompressBlock ext (one.bytes ext.toHashing) (one.indexEntry ext.toHashing) baseline
          none = .error (.decompression (text ++ error.display)) := by
  obtain ⟨rest, header, valid, ⟨⟨payload, stored⟩, same, payloadRead⟩, trailer⟩ :=
    @Bounded.opens one ext bounded
  dsimp only at same
  subst same
  have size := @Bounded.uncompressedSize ext.toHashing one bounded
  let found := (one.block ext.toHashing).header
  let offset := hexLiteral (one.indexEntry ext.toHashing).archiveOffset.toNat
  refine ⟨s!"Block {found.blockId} (offset {offset}, "
    ++ s!"group {found.solidGroupId}, method {found.compressionMethod.debug}): ",
    fun baseline error failed => ?_⟩
  have failed : decompressChunkWithBaseline ext.toCodecs one.payload
      (one.block ext.toHashing).header.compressionMethod one.size baseline = .error error := failed
  simp only [decompressBlock, header, valid, payloadRead, trailer, Result.ok_bind,
    maybeDecryptPayload, size, failed]
  rfl

/-! ## The file -/

section

variable {σ : Type} [ProbabilityPredictor σ] {self : Decompressor σ} {baseline : Option Bytes}

omit [ProbabilityPredictor σ] in
theorem validateDictionary_of_none : self.validateDictionary ext none = .ok () := rfl

omit [ProbabilityPredictor σ] in
/-- Without encryption there is no key. -/
theorem decryptKeyOf_eq : self.decryptKeyOf ext (one.layout ext.toHashing).metadata = .ok none := by
  have unencrypted : hasFlag 0 FLAG_ENCRYPTED = false := by decide
  have flags : (one.layout ext.toHashing).metadata.header.flags = 0 := rfl
  unfold decryptKeyOf deriveDecryptKey
  rw [flags, unencrypted]
  rfl

/-- **The file is extracted when its payload decodes to it.** -/
theorem Bounded.extractFile_eq_content (bounded : one.Bounded)
    (resolved : self.decodeBaselineFor ext none = .ok baseline)
    (decodes : decompressChunkWithBaseline ext.toCodecs one.payload one.method one.size baseline =
      .ok one.content) :
    self.extractFile ext (one.bytes ext.toHashing) "a" = .ok one.content := by
  have length := (length_decompressChunk decodes).1
  have block : decompressBlock ext (one.bytes ext.toHashing) (one.indexEntry ext.toHashing)
      baseline none = .ok one.content := bounded.decompressBlock_eq_ok.mpr ⟨decodes, rfl⟩
  refine extractFile_eq_ok.mpr ⟨_, one.entry ext.toHashing, none, baseline, [one.content],
    ⟨bounded.tiled.seekableRead, ⟨rfl, decryptKeyOf_eq, resolved⟩, rfl, ?_, ?_, rfl⟩, ?_, rfl⟩
  · exact decodeAll_cons_eq_some.mpr ⟨_, block, [], rfl, rfl⟩
  · rw [totalSize, List.map_singleton, List.sum_singleton, length]
    exact bounded.size.trans (by decide)
  · rw [List.flatten_singleton, truncateToFileSize, bounded.originalSize, ← length,
      List.take_length]

/-- **What is extracted is what the payload decodes to.** -/
theorem Bounded.decodes_of_extractFile (bounded : one.Bounded)
    (resolved : self.decodeBaselineFor ext none = .ok baseline) {data : Bytes}
    (success : self.extractFile ext (one.bytes ext.toHashing) "a" = .ok data) :
    decompressChunkWithBaseline ext.toCodecs one.payload one.method one.size baseline =
      .ok data := by
  obtain ⟨metadata, entry, key, again, decoded, extraction, rfl, -⟩ := extractFile_eq_ok.mp success
  obtain rfl := Except.ok.inj
    ((@Bounded.readMetadata_eq one ext bounded).symm.trans
      (readMetadata_eq_ok.mpr extraction.read))
  obtain rfl := Except.ok.inj (resolved.symm.trans extraction.unlocked.baseline)
  obtain rfl : none = key := Except.ok.inj (decryptKeyOf_eq.symm.trans extraction.unlocked.key)
  obtain rfl : one.entry ext.toHashing = entry := Option.some.inj extraction.found
  obtain ⟨content, block, others, rest, rfl⟩ := decodeAll_cons_eq_some.mp extraction.decodes
  obtain rfl : [] = others := Option.some.inj rest
  have decodes := (bounded.decompressBlock_eq_ok.mp block).1
  have whole : truncateToFileSize (one.entry ext.toHashing) [content].flatten = content := by
    rw [List.flatten_singleton, truncateToFileSize, bounded.originalSize,
      ← (length_decompressChunk decodes).1, List.take_length]
  rw [whole]
  exact decodes

/-- **The extraction fails with the text of what the payload fails with.** -/
theorem Bounded.extractFile_eq_error (bounded : one.Bounded) : ∃ text : String,
    ∀ (self : Decompressor σ) baseline error, self.decodeBaselineFor ext none = .ok baseline →
      decompressChunkWithBaseline ext.toCodecs one.payload one.method one.size baseline =
          .error error →
        self.extractFile ext (one.bytes ext.toHashing) "a" =
          .error (.decompression (text ++ error.display)) := by
  obtain ⟨text, fails⟩ := @Bounded.decompressBlock_eq_error one ext bounded
  refine ⟨text, fun self baseline error resolved failed => ?_⟩
  have block := fails baseline error failed
  have found : (one.layout ext.toHashing).metadata.fileEntries.find?
      (fun entry => entry.path = "a") = some (one.entry ext.toHashing) := rfl
  have wanted : ((one.layout ext.toHashing).metadata.blockIndex.drop
      (one.entry ext.toHashing).chunkStartIdx.toNat).take
        ((one.entry ext.toHashing).chunkStartIdx.toNat +
          (one.entry ext.toHashing).chunkCount.toNat -
            (one.entry ext.toHashing).chunkStartIdx.toNat) = [one.indexEntry ext.toHashing] := rfl
  have unhashed : (one.layout ext.toHashing).metadata.dictionaryHash = none := rfl
  have blocks : decompressFileBlocks ext (one.bytes ext.toHashing) baseline none
      [one.indexEntry ext.toHashing] 0 = .error (.decompression (text ++ error.display)) := by
    rw [decompressFileBlocks, block]
    rfl
  rw [extractFile, bounded.readMetadata_eq, Result.ok_bind, unhashed, validateDictionary_of_none,
    Result.ok_bind, decryptKeyOf_eq, Result.ok_bind, found]
  dsimp only
  rw [Result.failIf, if_neg (chunkEnd_lt _), Result.ok_bind, resolved, Result.ok_bind, wanted,
    blocks]
  rfl

end

end OneBlockArchive

end AetherArch
