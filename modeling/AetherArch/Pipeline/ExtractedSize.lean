import AetherArch.Pipeline.PlainArchive

/-! # The size of what is extracted

A file is cut off at its recorded size, so what is extracted falls short of that size exactly
when the blocks of the file do.
-/

namespace AetherArch

open Decompressor

/-! ## Room for a file -/

/-- The bytes in the chunk range of a file, given the sizes of all blocks. -/
def roomFor (entry : FileEntry) (sizes : List Nat) : Nat :=
  ((sizes.drop entry.chunkStartIdx.toNat).take entry.chunkCount.toNat).sum

/-- Whether the blocks of a file hold as many bytes as are recorded for it. -/
def Filled (entry : FileEntry) (sizes : List Nat) : Prop :=
  entry.originalSize.toNat ≤ roomFor entry sizes

/-- Every file has the size recorded for it. -/
def SizesKept (entries : List FileEntry) (files : List ExtractedFile) : Prop :=
  List.Forall₂ (fun entry file => file.data.length = entry.originalSize.toNat) entries files

/-- The uncompressed sizes an index records. -/
def indexedSizes (blockIndex : List BlockIndexEntry) : List Nat :=
  blockIndex.map fun entry => entry.uncompressedSize.toNat

/-- Truncating keeps as much as is recorded, or as there is. -/
theorem length_truncate (entry : FileEntry) (blocks : List Bytes) :
    (truncateToFileSize entry blocks.flatten).length =
      min entry.originalSize.toNat (totalSize blocks) := by
  rw [truncateToFileSize, List.length_take, List.length_flatten]
  rfl

/-- The room for an entry is what its blocks decode to. -/
theorem roomFor_map_length (entry : FileEntry) (decoded : List Bytes) :
    roomFor entry (decoded.map List.length) =
      totalSize ((decoded.drop entry.chunkStartIdx.toNat).take entry.chunkCount.toNat) := by
  rw [roomFor, totalSize, List.map_take, List.map_drop]

/-- A file is as long as recorded, or as long as its blocks. -/
theorem length_fileContent {entry : FileEntry} {decoded : List Bytes} {data : Bytes}
    (content : fileContent entry decoded = some data) :
    data.length = min entry.originalSize.toNat (roomFor entry (decoded.map List.length)) := by
  obtain ⟨blocks, range, rfl⟩ := Option.map_eq_some_iff.mp content
  rw [length_truncate, roomFor_map_length]
  rw [chunkRange] at range
  split at range
  · rename_i empty
    cases range
    rw [empty, List.take_zero]
  · split at range
    · cases range
      rfl
    · cases range

/-- Cutting keeps the recorded size exactly when there is room for it. -/
theorem kept_iff_filled {size recorded room : Nat} (cut : size = min recorded room) :
    size = recorded ↔ recorded ≤ room := by
  rw [cut]
  exact min_eq_left_iff

/-- **Sizes are kept when every file is filled.** -/
theorem sizesKept_iff {hashing : Hashing} {entries : List FileEntry} {decoded : List Bytes}
    {files : List ExtractedFile} (success : entries.mapM (extracted hashing decoded) = some files) :
    SizesKept entries files ↔ ∀ entry ∈ entries, Filled entry (decoded.map List.length) := by
  have each := mapM_eq_some.mp success
  clear success
  rw [SizesKept]
  induction each with
  | nil =>
      constructor
      · intro _ entry member
        cases member
      · intro _
        exact .nil
  | @cons entry file entries files accepted each recurse =>
      obtain ⟨-, data, intact, rfl⟩ := extracted_eq_some.mp accepted
      have here := kept_iff_filled (length_fileContent (intactContent_eq_some.mp intact).1)
      rw [List.forall₂_cons, List.forall_mem_cons]
      exact and_congr here recurse

/-! ## Sizes on record -/

section

variable {ext : Externals} {archive : Bytes} {baseline : Option Bytes} {key : Option DecryptKey}

/-- What a block header is checked for. -/
theorem validateBlockHeader_eq_ok {header : BlockHeader} {entry : BlockIndexEntry} {offset : Nat}
    {done : Unit} : validateBlockHeader header entry offset = .ok done ↔
      header.blockId = entry.blockId ∧ header.uncompressedSize = entry.uncompressedSize ∧
        header.solidGroupId = entry.solidGroupId ∧
        header.compressedSize.toNat ≤ MAX_DECOMPRESSED_BLOCK_SIZE ∧
        header.uncompressedSize.toNat ≤ MAX_DECOMPRESSED_BLOCK_SIZE := by
  simp only [validateBlockHeader, Result.bind_eq_ok, Result.failIf_eq_ok, exists_and_left, not_lt,
    not_not, exists_const, ne_eq]

/-- A block decodes to the size its index entry records. -/
theorem length_decompressBlock {entry : BlockIndexEntry} {data : Bytes}
    (success : decompressBlock ext archive entry baseline key = .ok data) :
    data.length = entry.uncompressedSize.toNat := by
  obtain ⟨block, read, decoded⟩ := (decompressBlock_eq_ok 0).mp success
  simp only [readRawBlock, Result.bind_eq_ok, Result.pure_eq_ok] at read
  obtain ⟨header, -, _, valid, _, -, _, -, _, -, rfl⟩ := read
  rw [(decompressRawBlock_eq_ok.mp decoded).2.1]
  exact congrArg UInt32.toNat (validateBlockHeader_eq_ok.mp valid).2.1

/-- The decoded lengths are those in the index. -/
theorem map_length_decodeAll {entries : List BlockIndexEntry} {decoded : List Bytes}
    (success : decodeAll ext archive baseline key entries = some decoded) :
    decoded.map List.length = indexedSizes entries := by
  induction entries generalizing decoded with
  | nil =>
      cases success
      rfl
  | cons entry entries recurse =>
      obtain ⟨data, decodes, rest, later, rfl⟩ := decodeAll_cons_eq_some.mp success
      rw [List.map_cons, recurse later, length_decompressBlock decodes]
      rfl

/-- Read past one block of a stream. -/
def skipBlock (hashing : Hashing) : Reader BlockHeader := do
  let header ← BlockHeader.readFrom hashing
  let _ ← Reader.readExact header.compressedSize.toNat
  let _ ← BlockTrailer.readFromWithId hashing header.blockId
  pure header

/-- The uncompressed sizes block headers record. -/
def headerSizes (headers : List BlockHeader) : List Nat :=
  headers.map fun header => header.uncompressedSize.toNat

/-- A streamed block that decodes can be skipped. -/
theorem skipBlock_of_streamed {block : StreamedBlock} {rest : Bytes}
    (success : decompressBlockStreaming ext baseline key archive = .ok (block, rest)) :
    ∃ header, skipBlock ext.toHashing archive = .ok (header, rest) ∧
      block.1.length = header.uncompressedSize.toNat ∧ block.2.2 = header.compressedSize := by
  simp only [decompressBlockStreaming, ByteReader.bind_eq_ok, ByteReader.lift_eq_ok,
    Reader.failIf_eq_ok, ByteReader.pure_eq_ok, not_not] at success
  obtain ⟨header, _, headerRead, _, _, ⟨-, rfl⟩, payload, _, payloadRead, trailer, _, trailerRead,
    _, _, ⟨-, rfl⟩, data, _, ⟨-, rfl⟩, _, _, ⟨length, rfl⟩, _, _, ⟨-, rfl⟩, same⟩ := success
  cases same
  refine ⟨header, ?_, length, rfl⟩
  simp only [skipBlock, ByteReader.bind_eq_ok, ByteReader.pure_eq_ok]
  exact ⟨_, _, headerRead, _, _, payloadRead, _, _, trailerRead, rfl⟩

/-- So can all of them. -/
theorem skipBlocks_of_streamed {count : Nat} {streamed : List StreamedBlock} {rest : Bytes}
    (success : ByteReader.readMany (decompressBlockStreaming ext baseline key) count archive =
      .ok (streamed, rest)) :
    ∃ headers, ByteReader.readMany (skipBlock ext.toHashing) count archive =
        .ok (headers, rest) ∧
      (streamed.map Prod.fst).map List.length = headerSizes headers := by
  induction count generalizing archive streamed with
  | zero =>
      cases success
      exact ⟨[], rfl, rfl⟩
  | succ count recurse =>
      simp only [ByteReader.readMany, ByteReader.bind_eq_ok, ByteReader.pure_eq_ok] at success ⊢
      obtain ⟨block, between, read, others, after, readRest, same⟩ := success
      cases same
      obtain ⟨header, skipped, length, -⟩ := skipBlock_of_streamed read
      obtain ⟨headers, skippedRest, lengths⟩ := recurse readRest
      refine ⟨header :: headers, ⟨header, between, skipped, headers, _, skippedRest, rfl⟩, ?_⟩
      rw [List.map_cons, List.map_cons, lengths, length]
      rfl

end

/-! ## The three extractions -/

section

variable {σ : Type} [ProbabilityPredictor σ]

/-- **An extracted file has its recorded size exactly when its blocks hold that many bytes**, for
every file of an extraction by seeking or from a stream, and for a file extracted alone. -/
theorem extractedSize_iff_filled (ext : Externals) (self : Decompressor σ) (archive : Bytes) :
    (∀ metadata files, readMetadata ext archive = .ok metadata →
      self.extractAll ext archive = .ok files →
      (SizesKept metadata.fileEntries files ↔
        ∀ entry ∈ metadata.fileEntries, Filled entry (indexedSizes metadata.blockIndex))) ∧
    (∀ metadata firstBlock files,
      readMetadataStreaming ext archive = .ok (metadata, firstBlock) →
      self.extractAllStreaming ext archive = .ok files →
      ∃ headers rest, ByteReader.readMany (skipBlock ext.toHashing)
          metadata.header.blockCount.toNat firstBlock = .ok (headers, rest) ∧
        (SizesKept metadata.fileEntries files ↔
          ∀ entry ∈ metadata.fileEntries, Filled entry (headerSizes headers))) ∧
    (∀ metadata filePath entry data, readMetadata ext archive = .ok metadata →
      metadata.fileEntries.find? (fun entry => entry.path = filePath) = some entry →
      self.extractFile ext archive filePath = .ok data →
      (data.length = entry.originalSize.toNat ↔
        Filled entry (indexedSizes metadata.blockIndex))) := by
  refine ⟨?_, ?_, ?_⟩
  · intro metadata files read success
    obtain ⟨_, key, baseline, decoded, extraction, written⟩ := extractAll_eq_ok.mp success
    obtain rfl := Except.ok.inj (read.symm.trans (readMetadata_eq_ok.mpr extraction.read))
    rw [← map_length_decodeAll extraction.decodes]
    exact sizesKept_iff written
  · intro metadata firstBlock files read success
    obtain ⟨_, key, baseline, streamed, extraction, written⟩ :=
      extractAllStreaming_eq_ok.mp success
    obtain ⟨_, rest, readAgain, decodes⟩ := extraction.decodes
    obtain ⟨rfl, rfl⟩ := Prod.mk.inj (Except.ok.inj
      (read.symm.trans (readMetadataStreaming_eq_ok.mpr readAgain)))
    obtain ⟨headers, skipped, lengths⟩ := skipBlocks_of_streamed decodes
    refine ⟨headers, rest, skipped, ?_⟩
    rw [← lengths]
    exact sizesKept_iff written
  · intro metadata filePath entry data read found success
    obtain ⟨_, _, key, baseline, decoded, extraction, rfl, -⟩ := extractFile_eq_ok.mp success
    obtain rfl := Except.ok.inj (read.symm.trans (readMetadata_eq_ok.mpr extraction.read))
    obtain rfl := Option.some.inj (found.symm.trans extraction.found)
    have own : indexedSizes (fileBlocks entry metadata.blockIndex) =
        ((indexedSizes metadata.blockIndex).drop entry.chunkStartIdx.toNat).take
          entry.chunkCount.toNat := by
      rw [indexedSizes, indexedSizes, fileBlocks, List.map_take, List.map_drop]
    have room : totalSize decoded = roomFor entry (indexedSizes metadata.blockIndex) := by
      rw [totalSize, map_length_decodeAll extraction.decodes, own, roomFor]
    rw [Filled, ← room]
    exact kept_iff_filled (length_truncate entry decoded)

/-- An archive whose only file is recorded as long as it is. -/
def faithfulArchive : Bytes :=
  (PlainArchive.oneFile referenceExternals.toHashing 1 [7]).bytes referenceExternals.toHashing

/-- An archive whose only file is recorded as one byte longer than it is. -/
def inflatedArchive : Bytes :=
  (PlainArchive.oneFile referenceExternals.toHashing 2 [7]).bytes referenceExternals.toHashing

/-- A file recorded as long as it is keeps its size in every extraction. -/
theorem extractedSize_iff_filled_faithful : ∃ metadata files headers,
    readMetadata referenceExternals faithfulArchive = .ok metadata ∧
    (singleThreaded Order0Model.new).extractAll referenceExternals faithfulArchive = .ok files ∧
    (SizesKept metadata.fileEntries files ↔
      ∀ entry ∈ metadata.fileEntries, Filled entry (indexedSizes metadata.blockIndex)) ∧
    (SizesKept metadata.fileEntries files ↔
      ∀ entry ∈ metadata.fileEntries, Filled entry (headerSizes headers)) ∧
    ([(7 : UInt8)].length = (1 : UInt64).toNat ↔
      Filled (plainEntry referenceExternals.toHashing "a" 1 [7] 0 1)
        (indexedSizes metadata.blockIndex)) := by
  have wellFormed : (PlainArchive.oneFile referenceExternals.toHashing 1 [7]).WellFormed :=
    PlainArchive.oneFile_wellFormed (by decide)
  obtain ⟨seekable, streaming, single⟩ :=
    @PlainArchive.oneFile_extracts 1 [7] _ _ referenceExternals Order0Model.new (by decide)
      (by decide)
  have read := readMetadata_eq_ok.mpr (@PlainArchive.WellFormed.seekableRead _ referenceExternals
    wellFormed)
  have readStreaming := readMetadataStreaming_eq_ok.mpr
    (@PlainArchive.WellFormed.tiled referenceExternals.toHashing _ wellFormed).streamingRead
  obtain ⟨all, stream, alone⟩ := extractedSize_iff_filled referenceExternals
    (singleThreaded Order0Model.new) faithfulArchive
  obtain ⟨headers, rest, -, streamKept⟩ := stream _ _ _ readStreaming streaming
  exact ⟨_, _, headers, read, seekable, all _ _ read seekable, streamKept,
    alone _ "a" _ _ read rfl single⟩

/-- The recorded size of a file that extracts cleanly can be inflated. -/
theorem extractedSize_inflated : ∃ metadata files,
    readMetadata referenceExternals inflatedArchive = .ok metadata ∧
    (singleThreaded Order0Model.new).extractAll referenceExternals inflatedArchive = .ok files ∧
    (singleThreaded Order0Model.new).extractAllStreaming referenceExternals inflatedArchive =
      .ok files ∧
    (singleThreaded Order0Model.new).extractFile referenceExternals inflatedArchive "a" =
      .ok [7] ∧
    ¬SizesKept metadata.fileEntries files := by
  have wellFormed : (PlainArchive.oneFile referenceExternals.toHashing 2 [7]).WellFormed :=
    PlainArchive.oneFile_wellFormed (by decide)
  obtain ⟨seekable, streaming, single⟩ :=
    @PlainArchive.oneFile_extracts 2 [7] _ _ referenceExternals Order0Model.new (by decide)
      (by decide)
  refine ⟨_, _, readMetadata_eq_ok.mpr wellFormed.seekableRead, seekable, streaming, single, ?_⟩
  intro kept
  obtain _ | ⟨same, -⟩ := kept
  exact absurd same (by decide)

end

end AetherArch
