import AetherArch.Pipeline.BlockDecoding
import AetherArch.Pipeline.DecodedSize
import AetherArch.Pipeline.Metadata
import AetherArch.Pipeline.Reassembly

/-! # What the reading operations accept

An extraction succeeds when the metadata reads, the dictionary and the key resolve, every
block decodes, the totals stay within the limits and every file is intact under an
acceptable path. The operations differ in where they find the parts and in what they count.
-/

namespace AetherArch

variable {ext : Externals} {archive : Bytes} {baseline : Option Bytes} {key : Option DecryptKey}

namespace Decompressor

variable {σ : Type} [ProbabilityPredictor σ] {self : Decompressor σ}

/-- What an extraction resolves before it decodes a block. -/
structure Unlocked (ext : Externals) (decompressor : Decompressor σ) (flags : UInt16)
    (encryptionHeader : Option EncryptionHeader) (dictionaryHash : Option Digest)
    (key : Option DecryptKey) (baseline : Option Bytes) : Prop where
  dictionary : decompressor.validateDictionary ext dictionaryHash = .ok ()
  key : deriveDecryptKey ext flags encryptionHeader decompressor.password = .ok key
  baseline : decompressor.decodeBaselineFor ext dictionaryHash = .ok baseline

/-- The key and the dictionary of an archive read by seeking. -/
abbrev UnlockedBy (ext : Externals) (self : Decompressor σ) (metadata : ArchiveMetadata) :=
  self.Unlocked ext metadata.header.flags metadata.encryptionHeader metadata.dictionaryHash

/-- The key and the dictionary of an archive read from a stream. -/
abbrev UnlockedStream (ext : Externals) (self : Decompressor σ) (metadata : StreamingMetadata) :=
  self.Unlocked ext metadata.header.flags metadata.encryptionHeader metadata.dictionaryHash

/-! ## Decoding all blocks -/

/-- What is counted against the limit on compressed data. -/
def compressedTotal (ext : Externals) (self : Decompressor σ) (archive : Bytes)
    (metadata : ArchiveMetadata) (key : Option DecryptKey) : Nat :=
  if self.isParallel metadata then payloadTotal ext archive key metadata.blockIndex
  else indexedTotal metadata.blockIndex

/-- Whether the pool of threads is there when it is needed. -/
def Pooled (ext : Externals) (self : Decompressor σ) (metadata : ArchiveMetadata) : Prop :=
  self.isParallel metadata = true → self.onPool ext "decompression" = .ok ()

/-- **What decoding all blocks accepts**, on any number of threads. -/
theorem decompressBlocks_eq_ok {metadata : ArchiveMetadata} {blocks : List (Option Bytes)} :
    self.decompressBlocks ext archive metadata key = .ok blocks ↔
      ∃ baseline decoded, self.decodeBaselineFor ext metadata.dictionaryHash = .ok baseline ∧
        self.Pooled ext metadata ∧
        decodeAll ext archive baseline key metadata.blockIndex = some decoded ∧
        blocks = decoded.map some ∧
        self.compressedTotal ext archive metadata key ≤ MAX_TOTAL_COMPRESSED_READ_SIZE ∧
        totalSize decoded ≤ MAX_TOTAL_DECOMPRESSED_SIZE := by
  rw [decompressBlocks, compressedTotal, Pooled]
  cases self.isParallel metadata with
  | true =>
      simp only [↓reduceIte, decompressBlocksParallel_eq_ok, forall_const]
  | false =>
      simp only [Bool.false_eq_true, ↓reduceIte, decompressBlocksSequential_eq_ok,
        IsEmpty.forall_iff, true_and]

/-! ## Extraction by seeking -/

/-- Everything a whole extraction by seeking goes through. -/
structure Extraction (ext : Externals) (decompressor : Decompressor σ) (archive : Bytes)
    (metadata : ArchiveMetadata) (key : Option DecryptKey) (baseline : Option Bytes)
    (decoded : List Bytes) : Prop where
  read : SeekableRead ext archive metadata
  unlocked : decompressor.UnlockedBy ext metadata key baseline
  pooled : decompressor.Pooled ext metadata
  decodes : decodeAll ext archive baseline key metadata.blockIndex = some decoded
  compressed : decompressor.compressedTotal ext archive metadata key ≤
    MAX_TOTAL_COMPRESSED_READ_SIZE
  decompressed : totalSize decoded ≤ MAX_TOTAL_DECOMPRESSED_SIZE

/-- **What `extract_all` accepts, and the files it writes.** -/
theorem extractAll_eq_ok {files : List ExtractedFile} :
    self.extractAll ext archive = .ok files ↔
      ∃ metadata key baseline decoded,
        self.Extraction ext archive metadata key baseline decoded ∧
        metadata.fileEntries.mapM (extracted ext.toHashing decoded) = some files := by
  simp only [extractAll, Result.bind_eq_ok, readMetadata_eq_ok, decompressBlocks_eq_ok,
    decryptKeyOf]
  constructor
  · rintro ⟨metadata, read, _, valid, key, derived, _, ⟨baseline, decoded, resolved, pooled,
      decodes, rfl, compressed, decompressed⟩, written⟩
    exact ⟨metadata, key, baseline, decoded, ⟨read, ⟨valid, derived, resolved⟩, pooled, decodes,
      compressed, decompressed⟩, (writeFiles_eq_ok (serves_blockRefCounts read.few_files _)).mp
        written⟩
  · rintro ⟨metadata, key, baseline, decoded, ⟨read, ⟨valid, derived, resolved⟩, pooled, decodes,
      compressed, decompressed⟩, written⟩
    exact ⟨metadata, read, (), valid, key, derived, _, ⟨baseline, decoded, resolved, pooled,
      decodes, rfl, compressed, decompressed⟩,
      (writeFiles_eq_ok (serves_blockRefCounts read.few_files _)).mpr written⟩

/-! ## Extraction of one file -/

theorem decompressFileBlocks_eq_ok {entries : List BlockIndexEntry} {decompressed : Nat}
    {blocks : List (Option Bytes)} (decompressedLe : decompressed ≤ MAX_TOTAL_DECOMPRESSED_SIZE) :
    decompressFileBlocks ext archive baseline key entries decompressed = .ok blocks ↔
      ∃ decoded, decodeAll ext archive baseline key entries = some decoded ∧
        blocks = decoded.map some ∧
        decompressed + totalSize decoded ≤ MAX_TOTAL_DECOMPRESSED_SIZE := by
  induction entries generalizing decompressed blocks with
  | nil =>
      rw [decompressFileBlocks]
      constructor
      · rintro ⟨⟩
        exact ⟨[], rfl, rfl, decompressedLe⟩
      · rintro ⟨_, success, rfl, -⟩
        cases success
        rfl
  | cons entry entries recurse =>
      simp only [decompressFileBlocks, Result.bind_eq_ok, Result.failIf_eq_ok, not_lt,
        Result.pure_eq_ok, decodeAll_cons_eq_some]
      have total (data : Bytes) (rest : List Bytes) :
          totalSize (data :: rest) = data.length + totalSize rest := List.sum_cons
      constructor
      · rintro ⟨data, decodes, _, fits, rest, later, rfl⟩
        obtain ⟨decoded, success, rfl, all⟩ := (recurse fits).mp later
        refine ⟨data :: decoded, ⟨data, decodes, decoded, success, rfl⟩, rfl, ?_⟩
        rw [total, ← Nat.add_assoc]
        exact all
      · rintro ⟨_, ⟨data, decodes, decoded, success, rfl⟩, rfl, all⟩
        rw [total, ← Nat.add_assoc] at all
        have fits := (Nat.le_add_right _ _).trans all
        exact ⟨data, decodes, (), fits, _, (recurse fits).mpr ⟨decoded, success, rfl, all⟩, rfl⟩

/-- The index entries of a file's chunk range. -/
def fileBlocks (entry : FileEntry) (blockIndex : List BlockIndexEntry) : List BlockIndexEntry :=
  (blockIndex.drop entry.chunkStartIdx.toNat).take entry.chunkCount.toNat

/-- Everything the extraction of one file goes through. -/
structure FileExtraction (ext : Externals) (decompressor : Decompressor σ) (archive : Bytes)
    (filePath : String) (metadata : ArchiveMetadata) (entry : FileEntry)
    (key : Option DecryptKey) (baseline : Option Bytes) (decoded : List Bytes) : Prop where
  read : SeekableRead ext archive metadata
  unlocked : decompressor.UnlockedBy ext metadata key baseline
  found : metadata.fileEntries.find? (fun entry => entry.path = filePath) = some entry
  decodes : decodeAll ext archive baseline key (fileBlocks entry metadata.blockIndex) =
    some decoded
  decompressed : totalSize decoded ≤ MAX_TOTAL_DECOMPRESSED_SIZE
  complete : decoded.length = entry.chunkCount.toNat

/-- The slots of a file's blocks, filled or not, do not outnumber its chunks. -/
theorem slots_le_chunkCount {entry : FileEntry} {blockIndex : List BlockIndexEntry}
    {decoded : List Bytes}
    (decodes : decodeAll ext archive baseline key (fileBlocks entry blockIndex) = some decoded) :
    decoded.length + (min entry.chunkCount.toNat blockIndex.length - decoded.length) ≤
      entry.chunkCount.toNat := by
  have few : decoded.length ≤ entry.chunkCount.toNat := by
    rw [length_of_decodeAll decodes, fileBlocks, List.length_take]
    exact min_le_left _ _
  omega

/-- The sum of two 32-bit numbers is a 64-bit number. -/
theorem chunkEnd_lt (entry : FileEntry) :
    ¬entry.chunkStartIdx.toNat + entry.chunkCount.toNat ≥ 2 ^ 64 := by
  have start := entry.chunkStartIdx.toNat_lt
  have count := entry.chunkCount.toNat_lt
  omega

/-- **What `extract_file` accepts, and what it writes.** -/
theorem extractFile_eq_ok {filePath : String} {data : Bytes} :
    self.extractFile ext archive filePath = .ok data ↔
      ∃ metadata entry key baseline decoded,
        self.FileExtraction ext archive filePath metadata entry key baseline decoded ∧
        data = truncateToFileSize entry decoded.flatten ∧
        ext.blake3 data = entry.blake3Hash := by
  rw [extractFile]
  simp only [Result.bind_eq_ok, readMetadata_eq_ok, decryptKeyOf]
  constructor
  · rintro ⟨metadata, read, _, valid, key, derived, success⟩
    split at success
    · cases success
    rename_i entry found
    simp only [Result.bind_eq_ok, Result.failIf_eq_ok, Nat.add_sub_cancel_left,
      decompressFileBlocks_eq_ok (Nat.zero_le _), Nat.zero_add, checkFileHash_eq_ok,
      Result.pure_eq_ok] at success
    obtain ⟨_, -, baseline, resolved, _, ⟨decoded, decodes, rfl, decompressed⟩, data,
      reassembled, _, hash, rfl⟩ := success
    rw [List.length_map, reassembleFileConsuming_eq_ok (slots_le_chunkCount decodes)] at reassembled
    obtain ⟨complete, rfl⟩ := reassembled
    exact ⟨metadata, entry, key, baseline, decoded, ⟨read, ⟨valid, derived, resolved⟩, found,
      decodes, decompressed, complete⟩, rfl, hash⟩
  · rintro ⟨metadata, entry, key, baseline, decoded, ⟨read, ⟨valid, derived, resolved⟩, found,
      decodes, decompressed, complete⟩, rfl, hash⟩
    refine ⟨metadata, read, (), valid, key, derived, ?_⟩
    rw [found]
    simp only [Result.bind_eq_ok, Result.failIf_eq_ok, Nat.add_sub_cancel_left,
      decompressFileBlocks_eq_ok (Nat.zero_le _), Nat.zero_add, checkFileHash_eq_ok,
      Result.pure_eq_ok]
    refine ⟨(), ?_, baseline, resolved, _, ⟨decoded, decodes, rfl, decompressed⟩, _, ?_, (), hash,
      rfl⟩
    · exact chunkEnd_lt entry
    · rw [List.length_map, reassembleFileConsuming_eq_ok (slots_le_chunkCount decodes)]
      exact ⟨complete, rfl⟩

/-! ## Extraction from a stream -/

/-- A decoded block with its id and its compressed size. -/
abbrev StreamedBlock := Bytes × UInt32 × UInt32

/-- The bytes of the payloads as the stream holds them. -/
def streamedTotal (streamed : List StreamedBlock) : Nat :=
  (streamed.map fun block => block.2.2.toNat).sum

theorem decompressStreamed_eq_ok {count compressed decompressed : Nat}
    {blocks : List (Option Bytes)} {rest : Bytes}
    (compressedLe : compressed ≤ MAX_TOTAL_COMPRESSED_READ_SIZE)
    (decompressedLe : decompressed ≤ MAX_TOTAL_DECOMPRESSED_SIZE) :
    decompressStreamed ext baseline key count compressed decompressed archive =
        .ok (blocks, rest) ↔
      ∃ streamed,
        ByteReader.readMany (decompressBlockStreaming ext baseline key) count archive =
          .ok (streamed, rest) ∧
        blocks = (streamed.map Prod.fst).map some ∧
        compressed + streamedTotal streamed ≤ MAX_TOTAL_COMPRESSED_READ_SIZE ∧
        decompressed + totalSize (streamed.map Prod.fst) ≤ MAX_TOTAL_DECOMPRESSED_SIZE := by
  induction count generalizing compressed decompressed blocks archive with
  | zero =>
      rw [decompressStreamed, ByteReader.readMany, ByteReader.pure_eq_ok]
      constructor
      · rintro ⟨⟩
        exact ⟨[], rfl, rfl, compressedLe, decompressedLe⟩
      · rintro ⟨_, ⟨⟩, rfl, -, -⟩
        rfl
  | succ count recurse =>
      have total (data : Bytes) (rest : List Bytes) :
          totalSize (data :: rest) = data.length + totalSize rest := List.sum_cons
      have streamedCons (block : StreamedBlock) (others : List StreamedBlock) :
          streamedTotal (block :: others) = block.2.2.toNat + streamedTotal others := List.sum_cons
      rw [decompressStreamed, ByteReader.readMany]
      simp only [ByteReader.bind_eq_ok, ByteReader.pure_eq_ok, Reader.failIf_eq_ok, not_lt]
      constructor
      · rintro ⟨⟨data, id, compressedSize⟩, between, read, _, _, ⟨within, rfl⟩, _, _, ⟨fits, rfl⟩,
          others, after, later, same⟩
        cases same
        obtain ⟨streamed, readRest, rfl, compressedAll, decompressedAll⟩ :=
          (recurse within fits).mp later
        refine ⟨(data, id, compressedSize) :: streamed, ⟨_, _, read, _, _, readRest, rfl⟩, rfl,
          ?_, ?_⟩
        · rw [streamedCons, ← Nat.add_assoc]
          exact compressedAll
        · rw [List.map_cons, total, ← Nat.add_assoc]
          exact decompressedAll
      · rintro ⟨_, ⟨⟨data, id, compressedSize⟩, between, read, streamed, after, readRest, same⟩,
          rfl, compressedAll, decompressedAll⟩
        cases same
        rw [streamedCons, ← Nat.add_assoc] at compressedAll
        rw [List.map_cons, total, ← Nat.add_assoc] at decompressedAll
        have within := (Nat.le_add_right _ _).trans compressedAll
        have fits := (Nat.le_add_right _ _).trans decompressedAll
        exact ⟨(data, id, compressedSize), between, read, (), _, ⟨within, rfl⟩, (), _, ⟨fits, rfl⟩,
          _, _, (recurse within fits).mpr ⟨streamed, readRest, rfl, compressedAll,
            decompressedAll⟩, rfl⟩

/-- Everything an extraction from a stream goes through. -/
structure StreamExtraction (ext : Externals) (decompressor : Decompressor σ) (archive : Bytes)
    (metadata : StreamingMetadata) (key : Option DecryptKey) (baseline : Option Bytes)
    (streamed : List StreamedBlock) : Prop where
  decodes : ∃ firstBlock rest, StreamingRead ext archive metadata firstBlock ∧
    ByteReader.readMany (decompressBlockStreaming ext baseline key)
      metadata.header.blockCount.toNat firstBlock = .ok (streamed, rest)
  unlocked : decompressor.UnlockedStream ext metadata key baseline
  compressed : streamedTotal streamed ≤ MAX_TOTAL_COMPRESSED_READ_SIZE
  decompressed : totalSize (streamed.map Prod.fst) ≤ MAX_TOTAL_DECOMPRESSED_SIZE

/-- **What `extract_all_streaming` accepts, and the files it writes.** -/
theorem extractAllStreaming_eq_ok {files : List ExtractedFile} :
    self.extractAllStreaming ext archive = .ok files ↔
      ∃ metadata key baseline streamed,
        self.StreamExtraction ext archive metadata key baseline streamed ∧
        metadata.fileEntries.mapM (extracted ext.toHashing (streamed.map Prod.fst)) =
          some files := by
  have opened : self.extractAllStreaming ext archive = .ok files ↔
      ∃ rest, (do
        let metadata ← readMetadataStreaming ext
        self.extractWithStreamingMetadata ext metadata) archive = .ok (files, rest) := by
    rw [extractAllStreaming]
    cases (do
        let metadata ← readMetadataStreaming ext
        self.extractWithStreamingMetadata ext metadata) archive with
    | error error =>
        constructor
        · intro success
          cases success
        · rintro ⟨_, success⟩
          cases success
    | ok outcome =>
        constructor
        · intro success
          cases success
          exact ⟨outcome.2, rfl⟩
        · rintro ⟨_, success⟩
          cases success
          rfl
  rw [opened]
  simp only [ByteReader.bind_eq_ok, extractWithStreamingMetadata, ByteReader.lift_eq_ok,
    readMetadataStreaming_eq_ok, decompressStreamed_eq_ok (Nat.zero_le _) (Nat.zero_le _),
    Nat.zero_add]
  constructor
  · rintro ⟨_, metadata, firstBlock, read, _, _, ⟨valid, rfl⟩, key, _, ⟨derived, rfl⟩, baseline, _,
      ⟨resolved, rfl⟩, _, rest, ⟨streamed, decodes, rfl, compressed, decompressed⟩, written, rfl⟩
    exact ⟨metadata, key, baseline, streamed, ⟨⟨_, _, read, decodes⟩, ⟨valid, derived, resolved⟩,
      compressed, decompressed⟩, (writeFiles_eq_ok (serves_blockRefCounts read.few_files _)).mp
        written⟩
  · rintro ⟨metadata, key, baseline, streamed, ⟨⟨firstBlock, rest, read, decodes⟩,
      ⟨valid, derived, resolved⟩, compressed, decompressed⟩, written⟩
    exact ⟨_, metadata, firstBlock, read, (), _, ⟨valid, rfl⟩, key, _, ⟨derived, rfl⟩, baseline, _,
      ⟨resolved, rfl⟩, _, rest, ⟨streamed, decodes, rfl, compressed, decompressed⟩,
      (writeFiles_eq_ok (serves_blockRefCounts read.few_files _)).mpr written, rfl⟩

end Decompressor

end AetherArch
