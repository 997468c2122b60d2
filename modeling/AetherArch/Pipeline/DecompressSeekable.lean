import AetherArch.Pipeline.Decompress

/-! # Seekable decompression

Random access by the footer and the block index. An archive is its bytes; seeking drops
the bytes before an offset.
-/

namespace AetherArch

/-- A block's data read from the archive, before decompression. -/
structure RawBlock where
  /-- Position in the array of decompressed blocks. -/
  globalIdx : Nat
  payload : Bytes
  compressionMethod : CompressionMethod
  uncompressedSize : Nat
  contentBlake3 : Digest
  blockId : UInt32
  archiveOffset : UInt64
  solidGroupId : UInt32

/-- Cross-check a block header against its index entry and the size limits. -/
def validateBlockHeader (header : BlockHeader) (entry : BlockIndexEntry) (offset : Nat) :
    Result Unit := do
  Result.failIf (header.blockId ≠ entry.blockId) (.decompression
    (s!"Block ID mismatch: index says {entry.blockId} but header says {header.blockId} "
      ++ s!"(offset {hexLiteral offset})"))
  Result.failIf (header.uncompressedSize ≠ entry.uncompressedSize) (.decompression
    (s!"Block {header.blockId}: uncompressed_size mismatch between header "
      ++ s!"({header.uncompressedSize}) and index ({entry.uncompressedSize})"))
  Result.failIf (header.solidGroupId ≠ entry.solidGroupId) (.decompression
    (s!"Block {header.blockId}: solid_group_id mismatch between header "
      ++ s!"({header.solidGroupId}) and index ({entry.solidGroupId})"))
  Result.failIf (header.compressedSize.toNat > MAX_DECOMPRESSED_BLOCK_SIZE) (.resourceLimitExceeded
    (s!"Block {header.blockId} (offset {hexLiteral offset}, group {header.solidGroupId}): "
      ++ s!"compressed size {header.compressedSize} exceeds safety limit of "
      ++ s!"{MAX_DECOMPRESSED_BLOCK_SIZE} bytes"))
  Result.failIf (header.uncompressedSize.toNat > MAX_DECOMPRESSED_BLOCK_SIZE)
    (.resourceLimitExceeded
      (s!"Block {header.blockId} (offset {hexLiteral offset}, group {header.solidGroupId}): "
        ++ s!"uncompressed size {header.uncompressedSize} exceeds safety limit of "
        ++ s!"{MAX_DECOMPRESSED_BLOCK_SIZE} bytes"))

/-- Fail unless decompressed data has the digest of its block. -/
def checkBlockHash (hashing : Hashing) (blockId : UInt32) (contentBlake3 : Digest)
    (decompressed : Bytes) : Result Unit :=
  let computedHash := hashing.blake3 decompressed
  Result.failIf (computedHash ≠ contentBlake3)
    (.checksumMismatch blockId.toNat (hexStr contentBlake3.1) (hexStr computedHash.1))

section

variable (ext : Externals)

/-- Decompress one already-read block and verify it against its trailer. -/
def decompressRawBlock (block : RawBlock) (dictBaseline : Option Bytes) : Result Bytes := do
  let decompressed ← (decompressChunkWithBaseline ext.toCodecs block.payload
    block.compressionMethod block.uncompressedSize dictBaseline).mapError fun e =>
      .decompression
        (s!"Block {block.blockId} (offset {hexLiteral block.archiveOffset.toNat}, "
          ++ s!"group {block.solidGroupId}, method {block.compressionMethod.debug}): {e.display}")
  Result.failIf (decompressed.length ≠ block.uncompressedSize) (.decompression
    (s!"Block {block.blockId} (group {block.solidGroupId}): actual decompressed size "
      ++ s!"{decompressed.length} differs from claimed {block.uncompressedSize}"))
  checkBlockHash ext.toHashing block.blockId block.contentBlake3 decompressed
  pure decompressed

/-- Decompress a single block by random access. -/
def decompressBlock (archive : Bytes) (blockEntry : BlockIndexEntry) (dictBaseline : Option Bytes)
    (decryptKey : Option DecryptKey) : Result Bytes := do
  let offset := blockEntry.archiveOffset.toNat
  let (blockHeader, rest) ← BlockHeader.readFromAt ext.toHashing offset (archive.drop offset)
  validateBlockHeader blockHeader blockEntry offset
  let (payload, rest) ← Reader.readExact blockHeader.compressedSize.toNat rest
  let (trailer, _) ← BlockTrailer.readFromWithId ext.toHashing blockHeader.blockId rest
  let payload ← maybeDecryptPayload ext payload.1 decryptKey blockHeader.blockId
  let decompressed ← (decompressChunkWithBaseline ext.toCodecs payload
    blockHeader.compressionMethod blockHeader.uncompressedSize.toNat dictBaseline).mapError
      fun e => .decompression
        (s!"Block {blockHeader.blockId} (offset {hexLiteral offset}, "
          ++ s!"group {blockHeader.solidGroupId}, method {blockHeader.compressionMethod.debug}): "
          ++ s!"{e.display}")
  Result.failIf (decompressed.length ≠ blockHeader.uncompressedSize.toNat) (.decompression
    (s!"Block {blockHeader.blockId} (offset {hexLiteral offset}): actual decompressed size "
      ++ s!"{decompressed.length} differs from claimed {blockHeader.uncompressedSize}"))
  checkBlockHash ext.toHashing blockHeader.blockId trailer.contentBlake3 decompressed
  pure decompressed

/-- Read one block's header, payload and trailer, decrypting if needed. -/
def readRawBlock (archive : Bytes) (globalIdx : Nat) (blockEntry : BlockIndexEntry)
    (decryptKey : Option DecryptKey) : Result RawBlock := do
  let offset := blockEntry.archiveOffset.toNat
  let (blockHeader, rest) ← BlockHeader.readFromAt ext.toHashing offset (archive.drop offset)
  validateBlockHeader blockHeader blockEntry offset
  let (payload, rest) ← Reader.readExact blockHeader.compressedSize.toNat rest
  let (trailer, _) ← BlockTrailer.readFromWithId ext.toHashing blockHeader.blockId rest
  let payload ← maybeDecryptPayload ext payload.1 decryptKey blockHeader.blockId
  pure
    { globalIdx, payload, compressionMethod := blockHeader.compressionMethod
      uncompressedSize := blockHeader.uncompressedSize.toNat
      contentBlake3 := trailer.contentBlake3, blockId := blockHeader.blockId
      archiveOffset := blockEntry.archiveOffset, solidGroupId := blockHeader.solidGroupId }

/-- Read every block's payload, recording failures as text. -/
def readRawBlocksLenient (archive : Bytes) (blockIndex : List BlockIndexEntry)
    (decryptKey : Option DecryptKey) : List (Except String RawBlock) :=
  blockIndex.mapIdx fun i blockEntry =>
    (readRawBlock ext archive i blockEntry decryptKey).mapError AetherError.display

end

/-- The text of an exceeded total. -/
def totalExceeded (what : String) (total limit : Nat) : AetherError :=
  .resourceLimitExceeded s!"Total {what} size {total} exceeds safety limit of {limit} bytes"

namespace Decompressor

variable {σ : Type} [ProbabilityPredictor σ] (ext : Externals) (self : Decompressor σ)

/-! ## Metadata -/

/-- Fail when the fields repeated in header and footer differ. -/
def crossCheck (header : ArchiveHeader) (footer : ArchiveFooter) : Result Unit := do
  Result.failIf (header.fileCount ≠ footer.fileCount) (.decompression
    (s!"Header/footer file_count mismatch: header={header.fileCount}, "
      ++ s!"footer={footer.fileCount}"))
  Result.failIf (header.blockCount ≠ footer.blockCount) (.decompression
    (s!"Header/footer block_count mismatch: header={header.blockCount}, "
      ++ s!"footer={footer.blockCount}"))
  Result.failIf (header.fileTableOffset ≠ footer.fileTableOffset) (.decompression
    (s!"Header/footer file_table_offset mismatch: header={header.fileTableOffset}, "
      ++ s!"footer={footer.fileTableOffset}"))
  Result.failIf (header.blockIndexOffset ≠ footer.blockIndexOffset) (.decompression
    (s!"Header/footer block_index_offset mismatch: header={header.blockIndexOffset}, "
      ++ s!"footer={footer.blockIndexOffset}"))

/-- Fail when a table lies outside the archive. -/
def checkOffsets (footer : ArchiveFooter) (archiveSize : Nat) : Result Unit := do
  Result.failIf (footer.fileTableOffset.toNat ≥ archiveSize) (.decompression
    s!"File table offset {footer.fileTableOffset} exceeds archive size {archiveSize}")
  Result.failIf (footer.blockIndexOffset.toNat ≥ archiveSize) (.decompression
    s!"Block index offset {footer.blockIndexOffset} exceeds archive size {archiveSize}")
  let blockIndexEnd := footer.blockIndexOffset.toNat +
    footer.blockCount.toNat * BLOCK_INDEX_ENTRY_SIZE
  Result.failIf (blockIndexEnd ≥ 2 ^ 64) (.decompression "Block index size overflow")
  Result.failIf (blockIndexEnd > archiveSize) (.decompression
    (s!"Block index extends past archive end: offset {footer.blockIndexOffset} + "
      ++ s!"{footer.blockCount} blocks"))

/-- Fail at the first block id that occurs before. -/
def checkUniqueIds : List BlockIndexEntry → (seen : List UInt32) → Result Unit
  | [], _ => .ok ()
  | entry :: entries, seen => do
      Result.failIf (entry.blockId ∈ seen) (.decompression
        (s!"Duplicate block_id {entry.blockId} in block index — "
          ++ "this could cause nonce reuse in encrypted archives"))
      checkUniqueIds entries (entry.blockId :: seen)

/-- Read the archive metadata without decompressing any blocks. -/
def readMetadata (archive : Bytes) : Result ArchiveMetadata := do
  Result.failIf (archive.length < ARCHIVE_FOOTER_SIZE) (.io .invalidInput)
  let (footer, _) ← ArchiveFooter.readFrom ext.toHashing
    (archive.drop (archive.length - ARCHIVE_FOOTER_SIZE))
  Result.failIf (footer.fileCount > MAX_FILE_COUNT) (.resourceLimitExceeded
    s!"Archive claims {footer.fileCount} files, exceeding limit of {MAX_FILE_COUNT}")
  Result.failIf (footer.blockCount > MAX_BLOCK_COUNT) (.resourceLimitExceeded
    s!"Archive claims {footer.blockCount} blocks, exceeding limit of {MAX_BLOCK_COUNT}")
  let (header, rest) ← ArchiveHeader.readFrom ext.toHashing archive
  let (encryptionHeader, rest) ← readEncryptionHeader header.flags rest
  let (dictionaryHash, _) ← readDictionaryHash header.flags rest
  Result.failIf (header.solidGroupCount > MAX_SOLID_GROUP_COUNT) (.resourceLimitExceeded
    (s!"Archive claims {header.solidGroupCount} solid groups, exceeding limit of "
      ++ s!"{MAX_SOLID_GROUP_COUNT}"))
  crossCheck header footer
  checkOffsets footer archive.length
  let (fileEntries, rest) ← readFileTable (hasFlag header.flags FLAG_PATH_PREFIXES)
    footer.fileCount.toNat "" (archive.drop footer.fileTableOffset.toNat)
  let (solidGroups, _) ← ByteReader.readMany SolidGroupEntry.readFrom header.solidGroupCount.toNat
    rest
  let (blockIndex, _) ← ByteReader.readMany BlockIndexEntry.readFrom footer.blockCount.toNat
    (archive.drop footer.blockIndexOffset.toNat)
  checkUniqueIds blockIndex []
  pure { header, footer, fileEntries, solidGroups, blockIndex, encryptionHeader, dictionaryHash }

/-- The decryption key of an archive. -/
def decryptKeyOf (metadata : ArchiveMetadata) : Result (Option DecryptKey) :=
  deriveDecryptKey ext metadata.header.flags metadata.encryptionHeader self.password

/-! ## Block decompression strategies -/

/-- Decompress blocks one by one, given the totals so far. -/
def decompressSequentially (archive : Bytes) (dictBaseline : Option Bytes)
    (decryptKey : Option DecryptKey) : List BlockIndexEntry →
    (totalCompressedRead totalDecompressed : Nat) → Result (List (Option Bytes))
  | [], _, _ => .ok []
  | blockEntry :: entries, totalCompressedRead, totalDecompressed => do
      let totalCompressedRead := totalCompressedRead + blockEntry.compressedSize.toNat
      Result.failIf (totalCompressedRead > MAX_TOTAL_COMPRESSED_READ_SIZE)
        (totalExceeded "compressed read" totalCompressedRead MAX_TOTAL_COMPRESSED_READ_SIZE)
      let data ← decompressBlock ext archive blockEntry dictBaseline decryptKey
      let totalDecompressed := totalDecompressed + data.length
      Result.failIf (totalDecompressed > MAX_TOTAL_DECOMPRESSED_SIZE)
        (totalExceeded "decompressed" totalDecompressed MAX_TOTAL_DECOMPRESSED_SIZE)
      let blocks ← decompressSequentially archive dictBaseline decryptKey entries
        totalCompressedRead totalDecompressed
      pure (some data :: blocks)

/-- Decompress all blocks sequentially. -/
def decompressBlocksSequential (archive : Bytes) (metadata : ArchiveMetadata)
    (decryptKey : Option DecryptKey) : Result (List (Option Bytes)) := do
  let baseline ← self.decodeBaselineFor ext metadata.dictionaryHash
  decompressSequentially ext archive baseline decryptKey metadata.blockIndex 0 0

/-- Read every block, given the position and the total so far. -/
def readRawBlocks (archive : Bytes) (decryptKey : Option DecryptKey) : List BlockIndexEntry →
    (globalIdx totalCompressedRead : Nat) → Result (List RawBlock)
  | [], _, _ => .ok []
  | blockEntry :: entries, globalIdx, totalCompressedRead => do
      let block ← readRawBlock ext archive globalIdx blockEntry decryptKey
      let totalCompressedRead := totalCompressedRead + block.payload.length
      Result.failIf (totalCompressedRead > MAX_TOTAL_COMPRESSED_READ_SIZE)
        (totalExceeded "compressed read" totalCompressedRead MAX_TOTAL_COMPRESSED_READ_SIZE)
      let blocks ← readRawBlocks archive decryptKey entries (globalIdx + 1) totalCompressedRead
      pure (block :: blocks)

/-- Run work on a pool of threads: the global one for 0, else one of the given size. -/
def onPool (what : String) : Result Unit :=
  if self.maxThreads = 0 then .ok ()
  else
    match ext.threadPool self.maxThreads with
    | .ok () => .ok ()
    | .error e => .error (.decompression
        s!"Failed to create {what} thread pool with {self.maxThreads} threads: {e}")

/-- Put decoded blocks at their positions, given the total so far. -/
def assembleBlocks : List (Result (Nat × Bytes)) → (blocks : List (Option Bytes)) →
    (totalDecompressed : Nat) → Result (List (Option Bytes))
  | [], blocks, _ => .ok blocks
  | result :: results, blocks, totalDecompressed => do
      let (globalIdx, data) ← result
      let totalDecompressed := totalDecompressed + data.length
      Result.failIf (totalDecompressed > MAX_TOTAL_DECOMPRESSED_SIZE)
        (totalExceeded "decompressed" totalDecompressed MAX_TOTAL_DECOMPRESSED_SIZE)
      assembleBlocks results (blocks.set globalIdx (some data)) totalDecompressed

/-- Decompress all blocks in parallel: read them in order, decode them in any order, and
collect the results in order. -/
def decompressBlocksParallel (archive : Bytes) (metadata : ArchiveMetadata)
    (decryptKey : Option DecryptKey) : Result (List (Option Bytes)) := do
  let rawBlocks ← readRawBlocks ext archive decryptKey metadata.blockIndex 0 0
  let totalExpected := (rawBlocks.map RawBlock.uncompressedSize).sum
  Result.failIf (totalExpected > MAX_TOTAL_DECOMPRESSED_SIZE)
    (totalExceeded "expected decompressed" totalExpected MAX_TOTAL_DECOMPRESSED_SIZE)
  let baseline ← self.decodeBaselineFor ext metadata.dictionaryHash
  self.onPool ext "decompression"
  let blockResults := rawBlocks.map fun block =>
    (decompressRawBlock ext block baseline).map fun data => (block.globalIdx, data)
  assembleBlocks blockResults (List.replicate metadata.blockIndex.length none) 0

/-- Whether more than one thread decompresses. -/
def isParallel (metadata : ArchiveMetadata) : Bool :=
  self.maxThreads ≠ 1 ∧ metadata.blockIndex.length > 1

/-- Decompress all blocks. -/
def decompressBlocks (archive : Bytes) (metadata : ArchiveMetadata)
    (decryptKey : Option DecryptKey) : Result (List (Option Bytes)) :=
  if self.isParallel metadata then self.decompressBlocksParallel ext archive metadata decryptKey
  else self.decompressBlocksSequential ext archive metadata decryptKey

/-! ## Operations -/

/-- Extract all files from an archive. -/
def extractAll (archive : Bytes) : Result (List ExtractedFile) := do
  let metadata ← readMetadata ext archive
  self.validateDictionary ext metadata.dictionaryHash
  let decryptKey ← self.decryptKeyOf ext metadata
  let decompressedBlocks ← self.decompressBlocks ext archive metadata decryptKey
  writeFiles ext.toHashing metadata.fileEntries
    { blocks := decompressedBlocks
      refCounts := blockRefCounts metadata.fileEntries decompressedBlocks.length }

/-- Decompress the blocks of one file, given the total so far. -/
def decompressFileBlocks (archive : Bytes) (dictBaseline : Option Bytes)
    (decryptKey : Option DecryptKey) : List BlockIndexEntry → (totalDecompressed : Nat) →
    Result (List (Option Bytes))
  | [], _ => .ok []
  | blockEntry :: entries, totalDecompressed => do
      let data ← decompressBlock ext archive blockEntry dictBaseline decryptKey
      let totalDecompressed := totalDecompressed + data.length
      Result.failIf (totalDecompressed > MAX_TOTAL_DECOMPRESSED_SIZE)
        (totalExceeded "decompressed" totalDecompressed MAX_TOTAL_DECOMPRESSED_SIZE)
      let blocks ← decompressFileBlocks archive dictBaseline decryptKey entries totalDecompressed
      pure (some data :: blocks)

/-- Extract a single file by path. -/
def extractFile (archive : Bytes) (filePath : String) : Result Bytes := do
  let metadata ← readMetadata ext archive
  self.validateDictionary ext metadata.dictionaryHash
  let decryptKey ← self.decryptKeyOf ext metadata
  match metadata.fileEntries.find? (fun entry => entry.path = filePath) with
  | none => .error (.fileNotFound filePath)
  | some fileEntry => do
      let start := fileEntry.chunkStartIdx.toNat
      let stop := start + fileEntry.chunkCount.toNat
      Result.failIf (stop ≥ 2 ^ 64) (.resourceLimitExceeded
        s!"Chunk index overflow: start={start}, count={fileEntry.chunkCount}")
      let baseline ← self.decodeBaselineFor ext metadata.dictionaryHash
      -- Slots past the end of the index stay empty.
      let rangeLen := min (stop - start) metadata.blockIndex.length
      let wanted := (metadata.blockIndex.drop start).take (stop - start)
      let found ← decompressFileBlocks ext archive baseline decryptKey wanted 0
      let decompressedBlocks := found ++ List.replicate (rangeLen - found.length) none
      let fileData ← reassembleFileConsuming { fileEntry with chunkStartIdx := 0 }
        decompressedBlocks
      checkFileHash ext.toHashing fileEntry fileData
      pure fileData

/-- Decode every block for verification, keeping each failure. -/
def verifyBlocks (archive : Bytes) (metadata : ArchiveMetadata) (baseline : Option Bytes)
    (decryptKey : Option DecryptKey) : Result (List (Result Bytes)) :=
  if self.isParallel metadata then do
    let raw := readRawBlocksLenient ext archive metadata.blockIndex decryptKey
    self.onPool ext "verification"
    pure (raw.map fun block =>
      match block with
      | .ok block => decompressRawBlock ext block baseline
      | .error e => .error (.decompression e))
  else
    pure (metadata.blockIndex.map fun blockEntry =>
      decompressBlock ext archive blockEntry baseline decryptKey)

/-- The ids of the blocks that failed to decode. -/
def corruptedBlockIds (blockIndex : List BlockIndexEntry) (decoded : List (Result Bytes)) :
    List UInt32 :=
  (blockIndex.zip decoded).filterMap fun (blockEntry, outcome) =>
    if outcome.isOk then none else some blockEntry.blockId

/-- The first blocks of the files that do not reassemble to their digest. -/
def corruptedFiles (hashing : Hashing) (entries : List FileEntry) (blocks : List (Option Bytes)) :
    List UInt32 :=
  entries.filterMap fun entry =>
    match reassembleFileFromBlocks entry blocks with
    | .ok fileData =>
        if hashing.blake3 fileData ≠ entry.blake3Hash then some entry.chunkStartIdx else none
    | .error _ => some entry.chunkStartIdx

/-- The report on decoded blocks before any file is checked. -/
def blockPhase (metadata : ArchiveMetadata) (decoded : List (Result Bytes)) :
    VerificationResult where
  totalBlocks := metadata.blockIndex.length
  verifiedBlocks := decoded.countP Except.isOk
  corruptedBlocks := corruptedBlockIds metadata.blockIndex decoded

/-- Check the files when no block is corrupted. -/
def filePhase (hashing : Hashing) (metadata : ArchiveMetadata) (blocks : List (Option Bytes))
    (result : VerificationResult) : VerificationResult :=
  if result.corruptedBlocks.isEmpty then
    { result with corruptedBlocks := corruptedFiles hashing metadata.fileEntries blocks }
  else result

/-- Verify integrity of all blocks and files in the archive. -/
def verify (archive : Bytes) : Result VerificationResult := do
  let metadata ← readMetadata ext archive
  let decryptKey ← self.decryptKeyOf ext metadata
  let baseline ← self.decodeBaselineFor ext metadata.dictionaryHash
  let decoded ← self.verifyBlocks ext archive metadata baseline decryptKey
  pure (filePhase ext.toHashing metadata (decoded.map Except.toOption)
    (blockPhase metadata decoded))

end Decompressor

end AetherArch
