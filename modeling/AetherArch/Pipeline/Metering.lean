import AetherArch.Library.Traced
import AetherArch.Pipeline.DecompressStreaming
import AetherArch.Pipeline.Operations

/-! # Metered reading

The reading operations again, noting at every point of a run how many bytes of payloads and of
decoded blocks they hold. Forgetting the notes gives the operations back.
-/

namespace AetherArch

/-- The bytes held at one point of a run. -/
structure Holding where
  /-- Payloads of blocks, before they are decoded. -/
  raw : Nat
  /-- Decoded blocks. -/
  decoded : Nat

/-- A reading operation that notes what it holds. -/
abbrev Metered := Traced Holding AetherError

/-- The bytes a payload decodes to, whether or not they have the digest of the block. -/
def chunkLength (ext : Externals) (baseline : Option Bytes) (block : RawBlock) : Nat :=
  match decompressChunkWithBaseline ext.toCodecs block.payload block.compressionMethod
    block.uncompressedSize baseline with
  | .ok data => data.length
  | .error _ => 0

/-- How worker threads get on with blocks that are decoded at once. -/
structure Schedule where
  /-- The blocks that are decoded, at the moments of a run. -/
  moments : List RawBlock → List (List RawBlock)
  within : ∀ blocks, ∀ done ∈ moments blocks, done.Sublist blocks

section

variable (ext : Externals)

/-- Decompress a single block by random access, holding other blocks. -/
def decompressBlockMetered (archive : Bytes) (blockEntry : BlockIndexEntry)
    (dictBaseline : Option Bytes) (decryptKey : Option DecryptKey) (held : Nat) :
    Metered Bytes := do
  let offset := blockEntry.archiveOffset.toNat
  let (blockHeader, rest) ← Traced.lift
    (BlockHeader.readFromAt ext.toHashing offset (archive.drop offset))
  Traced.lift (validateBlockHeader blockHeader blockEntry offset)
  -- The buffer is there before it is filled.
  Traced.note { raw := blockHeader.compressedSize.toNat, decoded := held }
  let (payload, rest) ← Traced.lift (Reader.readExact blockHeader.compressedSize.toNat rest)
  let (trailer, _) ← Traced.lift
    (BlockTrailer.readFromWithId ext.toHashing blockHeader.blockId rest)
  let payload ← Traced.lift (maybeDecryptPayload ext payload.1 decryptKey blockHeader.blockId)
  Traced.note { raw := payload.length, decoded := held }
  let decompressed ← Traced.lift ((decompressChunkWithBaseline ext.toCodecs payload
    blockHeader.compressionMethod blockHeader.uncompressedSize.toNat dictBaseline).mapError
      fun e => .decompression
        (s!"Block {blockHeader.blockId} (offset {hexLiteral offset}, "
          ++ s!"group {blockHeader.solidGroupId}, method {blockHeader.compressionMethod.debug}): "
          ++ s!"{e.display}"))
  Traced.note { raw := payload.length, decoded := held + decompressed.length }
  Traced.lift (Result.failIf (decompressed.length ≠ blockHeader.uncompressedSize.toNat)
    (.decompression
      (s!"Block {blockHeader.blockId} (offset {hexLiteral offset}): actual decompressed size "
        ++ s!"{decompressed.length} differs from claimed {blockHeader.uncompressedSize}")))
  Traced.lift
    (checkBlockHash ext.toHashing blockHeader.blockId trailer.contentBlake3 decompressed)
  pure decompressed

/-- Read one block's header, payload and trailer, holding other payloads. -/
def readRawBlockMetered (archive : Bytes) (globalIdx : Nat) (blockEntry : BlockIndexEntry)
    (decryptKey : Option DecryptKey) (held : Nat) : Metered RawBlock := do
  let offset := blockEntry.archiveOffset.toNat
  let (blockHeader, rest) ← Traced.lift
    (BlockHeader.readFromAt ext.toHashing offset (archive.drop offset))
  Traced.lift (validateBlockHeader blockHeader blockEntry offset)
  Traced.note { raw := held + blockHeader.compressedSize.toNat, decoded := 0 }
  let (payload, rest) ← Traced.lift (Reader.readExact blockHeader.compressedSize.toNat rest)
  let (trailer, _) ← Traced.lift
    (BlockTrailer.readFromWithId ext.toHashing blockHeader.blockId rest)
  let payload ← Traced.lift (maybeDecryptPayload ext payload.1 decryptKey blockHeader.blockId)
  Traced.note { raw := held + payload.length, decoded := 0 }
  pure
    { globalIdx, payload, compressionMethod := blockHeader.compressionMethod
      uncompressedSize := blockHeader.uncompressedSize.toNat
      contentBlake3 := trailer.contentBlake3, blockId := blockHeader.blockId
      archiveOffset := blockEntry.archiveOffset, solidGroupId := blockHeader.solidGroupId }

/-- Read every block's payload, keeping each failure. -/
def readRawBlocksLenientMetered (archive : Bytes) (decryptKey : Option DecryptKey) :
    List BlockIndexEntry → (globalIdx held : Nat) → Metered (List (Except String RawBlock))
  | [], _, _ => pure []
  | blockEntry :: entries, globalIdx, held => do
      let outcome ← (readRawBlockMetered ext archive globalIdx blockEntry decryptKey held).attempt
      let size := outcome.toOption.elim 0 fun block => block.payload.length
      let others ← readRawBlocksLenientMetered archive decryptKey entries (globalIdx + 1)
        (held + size)
      pure (outcome.mapError AetherError.display :: others)

/-- Decode blocks on worker threads, all payloads being held to the end. -/
def decodeAtOnce (schedule : Schedule) (baseline : Option Bytes) (blocks : List RawBlock) :
    Metered Unit :=
  let raw := (blocks.map fun block => block.payload.length).sum
  Traced.noteAll ((schedule.moments blocks).map fun done =>
    { raw := raw, decoded := (done.map (chunkLength ext baseline)).sum })

/-- The bytes of the decoded blocks that are still there. -/
def heldBytes (blocks : List (Option Bytes)) : Nat :=
  (blocks.map fun block => block.elim 0 List.length).sum

/-- Reassemble, verify and write every file. -/
def writeFilesMetered (hashing : Hashing) : List FileEntry → SharedBlocks →
    Metered (List ExtractedFile)
  | [], shared => do
      Traced.note { raw := 0, decoded := heldBytes shared.blocks }
      pure []
  | entry :: entries, shared => do
      Traced.note { raw := 0, decoded := heldBytes shared.blocks }
      let (fileData, shared) ← Traced.lift (reassembleFileShared entry shared)
      Traced.lift (checkFileHash hashing entry fileData)
      let file ← Traced.lift (writeValidatedFile entry fileData)
      let files ← writeFilesMetered hashing entries shared
      pure (file :: files)

end

namespace Decompressor

variable {σ : Type} [ProbabilityPredictor σ] (ext : Externals) (self : Decompressor σ)

/-! ## Reading by seeking -/

/-- Decompress blocks one by one, given the totals so far. -/
def decompressSequentiallyMetered (archive : Bytes) (dictBaseline : Option Bytes)
    (decryptKey : Option DecryptKey) : List BlockIndexEntry →
    (totalCompressedRead totalDecompressed : Nat) → Metered (List (Option Bytes))
  | [], _, _ => pure []
  | blockEntry :: entries, totalCompressedRead, totalDecompressed => do
      let totalCompressedRead := totalCompressedRead + blockEntry.compressedSize.toNat
      Traced.lift (Result.failIf (totalCompressedRead > MAX_TOTAL_COMPRESSED_READ_SIZE)
        (totalExceeded "compressed read" totalCompressedRead MAX_TOTAL_COMPRESSED_READ_SIZE))
      let data ← decompressBlockMetered ext archive blockEntry dictBaseline decryptKey
        totalDecompressed
      let totalDecompressed := totalDecompressed + data.length
      Traced.lift (Result.failIf (totalDecompressed > MAX_TOTAL_DECOMPRESSED_SIZE)
        (totalExceeded "decompressed" totalDecompressed MAX_TOTAL_DECOMPRESSED_SIZE))
      let blocks ← decompressSequentiallyMetered archive dictBaseline decryptKey entries
        totalCompressedRead totalDecompressed
      pure (some data :: blocks)

/-- Read every block, given the position and the total so far. -/
def readRawBlocksMetered (archive : Bytes) (decryptKey : Option DecryptKey) :
    List BlockIndexEntry → (globalIdx totalCompressedRead : Nat) → Metered (List RawBlock)
  | [], _, _ => pure []
  | blockEntry :: entries, globalIdx, totalCompressedRead => do
      let block ← readRawBlockMetered ext archive globalIdx blockEntry decryptKey
        totalCompressedRead
      let totalCompressedRead := totalCompressedRead + block.payload.length
      Traced.lift (Result.failIf (totalCompressedRead > MAX_TOTAL_COMPRESSED_READ_SIZE)
        (totalExceeded "compressed read" totalCompressedRead MAX_TOTAL_COMPRESSED_READ_SIZE))
      let blocks ← readRawBlocksMetered archive decryptKey entries (globalIdx + 1)
        totalCompressedRead
      pure (block :: blocks)

/-- Decompress all blocks on worker threads. -/
def decompressBlocksParallelMetered (schedule : Schedule) (archive : Bytes)
    (metadata : ArchiveMetadata) (decryptKey : Option DecryptKey) :
    Metered (List (Option Bytes)) := do
  let rawBlocks ← readRawBlocksMetered ext archive decryptKey metadata.blockIndex 0 0
  let totalExpected := (rawBlocks.map RawBlock.uncompressedSize).sum
  Traced.lift (Result.failIf (totalExpected > MAX_TOTAL_DECOMPRESSED_SIZE)
    (totalExceeded "expected decompressed" totalExpected MAX_TOTAL_DECOMPRESSED_SIZE))
  let baseline ← Traced.lift (self.decodeBaselineFor ext metadata.dictionaryHash)
  Traced.lift (self.onPool ext "decompression")
  decodeAtOnce ext schedule baseline rawBlocks
  let blockResults := rawBlocks.map fun block =>
    (decompressRawBlock ext block baseline).map fun data => (block.globalIdx, data)
  Traced.lift (assembleBlocks blockResults (List.replicate metadata.blockIndex.length none) 0)

/-- Decompress all blocks. -/
def decompressBlocksMetered (schedule : Schedule) (archive : Bytes) (metadata : ArchiveMetadata)
    (decryptKey : Option DecryptKey) : Metered (List (Option Bytes)) :=
  if self.isParallel metadata then
    self.decompressBlocksParallelMetered ext schedule archive metadata decryptKey
  else do
    let baseline ← Traced.lift (self.decodeBaselineFor ext metadata.dictionaryHash)
    decompressSequentiallyMetered ext archive baseline decryptKey metadata.blockIndex 0 0

/-- Extract all files from an archive. -/
def extractAllMetered (schedule : Schedule) (archive : Bytes) : Metered (List ExtractedFile) := do
  let metadata ← Traced.lift (readMetadata ext archive)
  Traced.lift (self.validateDictionary ext metadata.dictionaryHash)
  let decryptKey ← Traced.lift (self.decryptKeyOf ext metadata)
  let decompressedBlocks ← self.decompressBlocksMetered ext schedule archive metadata decryptKey
  writeFilesMetered ext.toHashing metadata.fileEntries
    { blocks := decompressedBlocks
      refCounts := blockRefCounts metadata.fileEntries decompressedBlocks.length }

/-- Decompress the blocks of one file, given the total so far. -/
def decompressFileBlocksMetered (archive : Bytes) (dictBaseline : Option Bytes)
    (decryptKey : Option DecryptKey) : List BlockIndexEntry → (totalDecompressed : Nat) →
    Metered (List (Option Bytes))
  | [], _ => pure []
  | blockEntry :: entries, totalDecompressed => do
      let data ← decompressBlockMetered ext archive blockEntry dictBaseline decryptKey
        totalDecompressed
      let totalDecompressed := totalDecompressed + data.length
      Traced.lift (Result.failIf (totalDecompressed > MAX_TOTAL_DECOMPRESSED_SIZE)
        (totalExceeded "decompressed" totalDecompressed MAX_TOTAL_DECOMPRESSED_SIZE))
      let blocks ← decompressFileBlocksMetered archive dictBaseline decryptKey entries
        totalDecompressed
      pure (some data :: blocks)

/-- Extract a single file by path. -/
def extractFileMetered (archive : Bytes) (filePath : String) : Metered Bytes := do
  let metadata ← Traced.lift (readMetadata ext archive)
  Traced.lift (self.validateDictionary ext metadata.dictionaryHash)
  let decryptKey ← Traced.lift (self.decryptKeyOf ext metadata)
  match metadata.fileEntries.find? (fun entry => entry.path = filePath) with
  | none => Traced.lift (.error (.fileNotFound filePath))
  | some fileEntry => do
      let start := fileEntry.chunkStartIdx.toNat
      let stop := start + fileEntry.chunkCount.toNat
      Traced.lift (Result.failIf (stop ≥ 2 ^ 64) (.resourceLimitExceeded
        s!"Chunk index overflow: start={start}, count={fileEntry.chunkCount}"))
      let baseline ← Traced.lift (self.decodeBaselineFor ext metadata.dictionaryHash)
      let rangeLen := min (stop - start) metadata.blockIndex.length
      let wanted := (metadata.blockIndex.drop start).take (stop - start)
      let found ← decompressFileBlocksMetered ext archive baseline decryptKey wanted 0
      let decompressedBlocks := found ++ List.replicate (rangeLen - found.length) none
      Traced.lift (do
        let fileData ← reassembleFileConsuming { fileEntry with chunkStartIdx := 0 }
          decompressedBlocks
        checkFileHash ext.toHashing fileEntry fileData
        pure fileData)

/-- Decode blocks one by one for verification, keeping each failure. -/
def verifySequentiallyMetered (archive : Bytes) (baseline : Option Bytes)
    (decryptKey : Option DecryptKey) : List BlockIndexEntry → (held : Nat) →
    Metered (List (Result Bytes))
  | [], _ => pure []
  | blockEntry :: entries, held => do
      let outcome ← (decompressBlockMetered ext archive blockEntry baseline decryptKey held).attempt
      let size := outcome.toOption.elim 0 List.length
      let others ← verifySequentiallyMetered archive baseline decryptKey entries (held + size)
      pure (outcome :: others)

/-- Decode every block for verification. -/
def verifyBlocksMetered (schedule : Schedule) (archive : Bytes) (metadata : ArchiveMetadata)
    (baseline : Option Bytes) (decryptKey : Option DecryptKey) : Metered (List (Result Bytes)) :=
  if self.isParallel metadata then do
    let raw ← readRawBlocksLenientMetered ext archive decryptKey metadata.blockIndex 0 0
    Traced.lift (self.onPool ext "verification")
    decodeAtOnce ext schedule baseline (raw.filterMap Except.toOption)
    pure (raw.map fun block =>
      match block with
      | .ok block => decompressRawBlock ext block baseline
      | .error e => .error (.decompression e))
  else verifySequentiallyMetered ext archive baseline decryptKey metadata.blockIndex 0

/-- Verify integrity of all blocks and files in the archive. -/
def verifyMetered (schedule : Schedule) (archive : Bytes) : Metered VerificationResult := do
  let metadata ← Traced.lift (readMetadata ext archive)
  let decryptKey ← Traced.lift (self.decryptKeyOf ext metadata)
  let baseline ← Traced.lift (self.decodeBaselineFor ext metadata.dictionaryHash)
  let decoded ← self.verifyBlocksMetered ext schedule archive metadata baseline decryptKey
  -- The files are copied together from blocks that stay in place.
  Traced.note { raw := 0, decoded := heldBytes (decoded.map Except.toOption) }
  pure (filePhase ext.toHashing metadata (decoded.map Except.toOption)
    (blockPhase metadata decoded))

/-! ## Reading from a stream -/

/-- Decompress one block from a stream, holding other blocks. -/
def decompressBlockStreamingMetered (dictBaseline : Option Bytes) (decryptKey : Option DecryptKey)
    (held : Nat) (archive : Bytes) : Metered (StreamedBlock × Bytes) := do
  let (blockHeader, rest) ← Traced.lift (BlockHeader.readFrom ext.toHashing archive)
  Traced.lift (checkStreamedSizes blockHeader)
  Traced.note { raw := blockHeader.compressedSize.toNat, decoded := held }
  let (payload, rest) ← Traced.lift (Reader.readExact blockHeader.compressedSize.toNat rest)
  let (trailer, rest) ← Traced.lift
    (BlockTrailer.readFromWithId ext.toHashing blockHeader.blockId rest)
  let payload ← Traced.lift (maybeDecryptPayload ext payload.1 decryptKey blockHeader.blockId)
  Traced.note { raw := payload.length, decoded := held }
  let decompressed ← Traced.lift ((decompressChunkWithBaseline ext.toCodecs payload
    blockHeader.compressionMethod blockHeader.uncompressedSize.toNat dictBaseline).mapError
      fun e => .decompression
        (s!"Block {blockHeader.blockId} (group {blockHeader.solidGroupId}, "
          ++ s!"method {blockHeader.compressionMethod.debug}, streaming): {e.display}"))
  Traced.note { raw := payload.length, decoded := held + decompressed.length }
  Traced.lift (Result.failIf (decompressed.length ≠ blockHeader.uncompressedSize.toNat)
    (.decompression
      (s!"Block {blockHeader.blockId} (group {blockHeader.solidGroupId}, streaming): "
        ++ s!"actual decompressed size {decompressed.length} differs from claimed "
        ++ s!"{blockHeader.uncompressedSize}")))
  Traced.lift
    (checkBlockHash ext.toHashing blockHeader.blockId trailer.contentBlake3 decompressed)
  pure ((decompressed, blockHeader.blockId, blockHeader.compressedSize), rest)

/-- Decompress a number of blocks in turn, given the totals so far. -/
def decompressStreamedMetered (dictBaseline : Option Bytes) (decryptKey : Option DecryptKey) :
    (count totalCompressedRead totalDecompressed : Nat) → (archive : Bytes) →
    Metered (List (Option Bytes) × Bytes)
  | 0, _, _, archive => pure ([], archive)
  | count + 1, totalCompressedRead, totalDecompressed, archive => do
      let ((data, _, compressedSize), rest) ←
        decompressBlockStreamingMetered ext dictBaseline decryptKey totalDecompressed archive
      let totalCompressedRead := totalCompressedRead + compressedSize.toNat
      Traced.lift (Result.failIf (totalCompressedRead > MAX_TOTAL_COMPRESSED_READ_SIZE)
        (totalExceeded "compressed read" totalCompressedRead MAX_TOTAL_COMPRESSED_READ_SIZE))
      let totalDecompressed := totalDecompressed + data.length
      Traced.lift (Result.failIf (totalDecompressed > MAX_TOTAL_DECOMPRESSED_SIZE)
        (totalExceeded "decompressed" totalDecompressed MAX_TOTAL_DECOMPRESSED_SIZE))
      let (blocks, rest) ← decompressStreamedMetered dictBaseline decryptKey count
        totalCompressedRead totalDecompressed rest
      pure (some data :: blocks, rest)

/-- Extract all files from a stream. -/
def extractAllStreamingMetered (archive : Bytes) : Metered (List ExtractedFile) := do
  let (metadata, rest) ← Traced.lift (readMetadataStreaming ext archive)
  Traced.lift (self.validateDictionary ext metadata.dictionaryHash)
  let decryptKey ← Traced.lift
    (deriveDecryptKey ext metadata.header.flags metadata.encryptionHeader self.password)
  let baseline ← Traced.lift (self.decodeBaselineFor ext metadata.dictionaryHash)
  let (decompressedBlocks, _) ← decompressStreamedMetered ext baseline decryptKey
    metadata.header.blockCount.toNat 0 0 rest
  writeFilesMetered ext.toHashing metadata.fileEntries
    { blocks := decompressedBlocks
      refCounts := blockRefCounts metadata.fileEntries decompressedBlocks.length }

/-- Report one block whose payload and trailer could be read. -/
def reportStreamedBlockMetered (dictBaseline : Option Bytes) (decryptKey : Option DecryptKey)
    (blockHeader : BlockHeader) (payload : Bytes) (trailer : BlockTrailer)
    (result : VerificationResult) : Metered VerificationResult :=
  match maybeDecryptPayload ext payload decryptKey blockHeader.blockId with
  | .error _ => pure (result.push blockHeader.blockId)
  | .ok payload => do
      Traced.note { raw := payload.length, decoded := 0 }
      match decompressChunkWithBaseline ext.toCodecs payload blockHeader.compressionMethod
        blockHeader.uncompressedSize.toNat dictBaseline with
      | .ok data => do
          Traced.note { raw := payload.length, decoded := data.length }
          if ext.blake3 data ≠ trailer.contentBlake3 then pure (result.push blockHeader.blockId)
          else pure { result with verifiedBlocks := result.verifiedBlocks + 1 }
      | .error _ => pure (result.push blockHeader.blockId)

/-- Verify a number of blocks in turn, dropping each one after it is checked. -/
def verifyStreamedMetered (dictBaseline : Option Bytes) (decryptKey : Option DecryptKey) :
    (count blockIdx : Nat) → (archive : Bytes) → VerificationResult → Metered VerificationResult
  | 0, _, _, result => pure result
  | count + 1, blockIdx, archive, result =>
      match BlockHeader.readFrom ext.toHashing archive with
      | .error _ => pure (result.push (UInt32.ofNat blockIdx))
      | .ok (blockHeader, rest) =>
          if blockHeader.compressedSize.toNat > MAX_DECOMPRESSED_BLOCK_SIZE then
            pure (result.push blockHeader.blockId)
          else if blockHeader.uncompressedSize.toNat > MAX_DECOMPRESSED_BLOCK_SIZE then
            pure (result.push blockHeader.blockId)
          else do
            Traced.note { raw := blockHeader.compressedSize.toNat, decoded := 0 }
            match Reader.readExact blockHeader.compressedSize.toNat rest with
            | .error _ => pure (result.push blockHeader.blockId)
            | .ok (payload, rest) =>
                match BlockTrailer.readFromWithId ext.toHashing blockHeader.blockId rest with
                | .error _ => pure (result.push blockHeader.blockId)
                | .ok (trailer, rest) => do
                    let result ← reportStreamedBlockMetered ext dictBaseline decryptKey blockHeader
                      payload.1 trailer result
                    verifyStreamedMetered dictBaseline decryptKey count (blockIdx + 1) rest result

/-- Verify integrity of all blocks of a stream. -/
def verifyStreamingMetered (archive : Bytes) : Metered VerificationResult := do
  let (metadata, rest) ← Traced.lift (readMetadataStreaming ext archive)
  let blockCount := metadata.header.blockCount.toNat
  let decryptKey ← Traced.lift
    (deriveDecryptKey ext metadata.header.flags metadata.encryptionHeader self.password)
  let baseline ← Traced.lift (self.decodeBaselineFor ext metadata.dictionaryHash)
  verifyStreamedMetered ext baseline decryptKey blockCount 0 rest
    { totalBlocks := blockCount, verifiedBlocks := 0, corruptedBlocks := [] }

end Decompressor

/-! ## Forgetting the notes -/

section

variable {ext : Externals} {archive : Bytes} {baseline : Option Bytes} {key : Option DecryptKey}

/-- Metering a block decodes it as before. -/
theorem outcome_decompressBlock (entry : BlockIndexEntry) (held : Nat) :
    (decompressBlockMetered ext archive entry baseline key held).outcome =
      decompressBlock ext archive entry baseline key := by
  simp only [decompressBlockMetered, decompressBlock, Traced.outcome_bind, Traced.outcome_lift,
    Traced.outcome_note, Traced.outcome_pure, Result.ok_bind]
  rfl

/-- Metering a block read ahead reads it as before. -/
theorem outcome_readRawBlock (globalIdx : Nat) (entry : BlockIndexEntry) (held : Nat) :
    (readRawBlockMetered ext archive globalIdx entry key held).outcome =
      readRawBlock ext archive globalIdx entry key := by
  simp only [readRawBlockMetered, readRawBlock, Traced.outcome_bind, Traced.outcome_lift,
    Traced.outcome_note, Traced.outcome_pure, Result.ok_bind]
  rfl

/-- Metering all reads keeps every outcome. -/
theorem outcome_readRawBlocksLenient (entries : List BlockIndexEntry) (globalIdx held : Nat) :
    (readRawBlocksLenientMetered ext archive key entries globalIdx held).outcome =
      .ok (entries.mapIdx fun i entry =>
        (readRawBlock ext archive (globalIdx + i) entry key).mapError AetherError.display) := by
  induction entries generalizing globalIdx held with
  | nil => rfl
  | cons entry entries recurse =>
      simp only [readRawBlocksLenientMetered, Traced.outcome_bind, Traced.outcome_attempt,
        Traced.outcome_pure, Result.ok_bind, recurse, outcome_readRawBlock, List.mapIdx_cons,
        Nat.add_zero, Nat.add_assoc, Nat.add_comm 1]

/-- Metering the files writes them as before. -/
theorem outcome_writeFiles {hashing : Hashing} (entries : List FileEntry) (shared : SharedBlocks) :
    (writeFilesMetered hashing entries shared).outcome = writeFiles hashing entries shared := by
  induction entries generalizing shared with
  | nil => rfl
  | cons entry entries recurse =>
      simp only [writeFilesMetered, writeFiles, Traced.outcome_bind, Traced.outcome_lift,
        Traced.outcome_note, Traced.outcome_pure, Result.ok_bind, recurse]
      rfl

end

namespace Decompressor

variable {σ : Type} [ProbabilityPredictor σ] {ext : Externals} {self : Decompressor σ}
variable {archive : Bytes} {baseline : Option Bytes} {key : Option DecryptKey}

/-- Metering changes nothing about decoding one by one. -/
theorem outcome_decompressSequentially (entries : List BlockIndexEntry)
    (compressed decompressed : Nat) :
    (decompressSequentiallyMetered ext archive baseline key entries compressed
        decompressed).outcome =
      decompressSequentially ext archive baseline key entries compressed decompressed := by
  induction entries generalizing compressed decompressed with
  | nil => rfl
  | cons entry entries recurse =>
      simp only [decompressSequentiallyMetered, decompressSequentially, Traced.outcome_bind,
        Traced.outcome_lift, Traced.outcome_pure, outcome_decompressBlock, recurse]
      rfl

/-- Metering changes nothing about reading in order. -/
theorem outcome_readRawBlocks (entries : List BlockIndexEntry) (globalIdx compressed : Nat) :
    (readRawBlocksMetered ext archive key entries globalIdx compressed).outcome =
      readRawBlocks ext archive key entries globalIdx compressed := by
  induction entries generalizing globalIdx compressed with
  | nil => rfl
  | cons entry entries recurse =>
      simp only [readRawBlocksMetered, readRawBlocks, Traced.outcome_bind, Traced.outcome_lift,
        Traced.outcome_pure, outcome_readRawBlock, recurse]
      rfl

variable (schedule : Schedule)

/-- **Metering changes nothing about decoding all blocks**, on any schedule. -/
theorem outcome_decompressBlocks (metadata : ArchiveMetadata) :
    (self.decompressBlocksMetered ext schedule archive metadata key).outcome =
      self.decompressBlocks ext archive metadata key := by
  rw [decompressBlocksMetered, decompressBlocks]
  split
  · simp only [decompressBlocksParallelMetered, decompressBlocksParallel, decodeAtOnce,
      Traced.outcome_bind, Traced.outcome_lift, Traced.outcome_noteAll, Result.ok_bind,
      outcome_readRawBlocks]
  · simp only [decompressBlocksSequential, Traced.outcome_bind, Traced.outcome_lift,
      outcome_decompressSequentially]

/-- **The metered extraction is the extraction.** -/
theorem outcome_extractAll :
    (self.extractAllMetered ext schedule archive).outcome = self.extractAll ext archive := by
  simp only [extractAllMetered, extractAll, Traced.outcome_bind, Traced.outcome_lift,
    outcome_decompressBlocks, outcome_writeFiles]

/-- Metering changes nothing about the blocks of a file. -/
theorem outcome_decompressFileBlocks (entries : List BlockIndexEntry) (decompressed : Nat) :
    (decompressFileBlocksMetered ext archive baseline key entries decompressed).outcome =
      decompressFileBlocks ext archive baseline key entries decompressed := by
  induction entries generalizing decompressed with
  | nil => rfl
  | cons entry entries recurse =>
      simp only [decompressFileBlocksMetered, decompressFileBlocks, Traced.outcome_bind,
        Traced.outcome_lift, Traced.outcome_pure, outcome_decompressBlock, recurse]
      rfl

/-- **Metering changes nothing about extracting one file.** -/
theorem outcome_extractFile (filePath : String) :
    (self.extractFileMetered ext archive filePath).outcome =
      self.extractFile ext archive filePath := by
  simp only [extractFileMetered, extractFile, Traced.outcome_bind, Traced.outcome_lift]
  refine bind_congr fun metadata => bind_congr fun _ => bind_congr fun decryptKey => ?_
  cases metadata.fileEntries.find? fun entry => entry.path = filePath with
  | none => rfl
  | some fileEntry =>
      simp only [Traced.outcome_bind, Traced.outcome_lift, outcome_decompressFileBlocks]

/-- Metering changes nothing about verifying one by one. -/
theorem outcome_verifySequentially (entries : List BlockIndexEntry) (held : Nat) :
    (verifySequentiallyMetered ext archive baseline key entries held).outcome =
      .ok (entries.map fun entry => decompressBlock ext archive entry baseline key) := by
  induction entries generalizing held with
  | nil => rfl
  | cons entry entries recurse =>
      simp only [verifySequentiallyMetered, Traced.outcome_bind, Traced.outcome_attempt,
        Traced.outcome_pure, Result.ok_bind, outcome_decompressBlock, recurse, List.map_cons]

omit [ProbabilityPredictor σ] in
/-- Metering changes nothing about verifying all blocks. -/
theorem outcome_verifyBlocks (metadata : ArchiveMetadata) :
    (self.verifyBlocksMetered ext schedule archive metadata baseline key).outcome =
      self.verifyBlocks ext archive metadata baseline key := by
  rw [verifyBlocksMetered, verifyBlocks]
  split
  · simp only [Traced.outcome_bind, Traced.outcome_lift, decodeAtOnce, Traced.outcome_noteAll,
      Traced.outcome_pure, Result.ok_bind, outcome_readRawBlocksLenient, readRawBlocksLenient,
      Nat.zero_add]
    rfl
  · exact outcome_verifySequentially ..

/-- **The metered verification is the verification.** -/
theorem outcome_verify :
    (self.verifyMetered ext schedule archive).outcome = self.verify ext archive := by
  simp only [verifyMetered, verify, Traced.outcome_bind, Traced.outcome_lift, Traced.outcome_note,
    Traced.outcome_pure, Result.ok_bind, outcome_verifyBlocks]
  rfl

/-- Metering a block of a stream decodes it as before. -/
theorem outcome_decompressBlockStreaming (held : Nat) :
    (decompressBlockStreamingMetered ext baseline key held archive).outcome =
      decompressBlockStreaming ext baseline key archive := by
  simp only [decompressBlockStreamingMetered, decompressBlockStreaming, Traced.outcome_bind,
    Traced.outcome_lift, Traced.outcome_note, Traced.outcome_pure, Result.ok_bind,
    ByteReader.bind_apply, ByteReader.lift_apply, ByteReader.pure_apply, bind_assoc, Reader.failIf]

/-- Metering changes nothing about decoding a stream. -/
theorem outcome_decompressStreamed (count compressed decompressed : Nat) :
    (decompressStreamedMetered ext baseline key count compressed decompressed archive).outcome =
      decompressStreamed ext baseline key count compressed decompressed archive := by
  induction count generalizing compressed decompressed archive with
  | zero => rfl
  | succ count recurse =>
      simp only [decompressStreamedMetered, decompressStreamed, Traced.outcome_bind,
        Traced.outcome_lift, Traced.outcome_pure, ByteReader.bind_apply, ByteReader.lift_apply,
        ByteReader.pure_apply, bind_assoc, Result.ok_bind, Reader.failIf,
        outcome_decompressBlockStreaming, recurse]

/-- **Metering changes nothing about extracting from a stream.** -/
theorem outcome_extractAllStreaming :
    (self.extractAllStreamingMetered ext archive).outcome =
      self.extractAllStreaming ext archive := by
  have forget (written : Result (List ExtractedFile)) (rest : Bytes) :
      (written >>= fun files => Prod.fst <$> (.ok (files, rest) : Result _)) = written := by
    cases written with
    | error error => rfl
    | ok files => rfl
  simp only [extractAllStreamingMetered, extractAllStreaming, extractWithStreamingMetadata,
    Traced.outcome_bind, Traced.outcome_lift, ByteReader.bind_apply, ByteReader.lift_apply,
    bind_assoc, map_bind, Result.ok_bind, outcome_decompressStreamed, outcome_writeFiles, forget]

/-- Metering a block of a stream reports it as before. -/
theorem outcome_reportStreamedBlock (blockHeader : BlockHeader) (payload : Bytes)
    (trailer : BlockTrailer) (result : VerificationResult) :
    (reportStreamedBlockMetered ext baseline key blockHeader payload trailer result).outcome =
      .ok (reportStreamedBlock ext baseline key blockHeader payload trailer result) := by
  rw [reportStreamedBlockMetered, reportStreamedBlock]
  cases maybeDecryptPayload ext payload key blockHeader.blockId with
  | error error => rfl
  | ok payload =>
      simp only [Traced.outcome_bind, Traced.outcome_note, Result.ok_bind]
      cases decompressChunkWithBaseline ext.toCodecs payload blockHeader.compressionMethod
          blockHeader.uncompressedSize.toNat baseline with
      | error error => rfl
      | ok data =>
          simp only [Traced.outcome_bind, Traced.outcome_note, Result.ok_bind]
          split
          · rfl
          · rfl

/-- Metering changes nothing about verifying the blocks of a stream. -/
theorem outcome_verifyStreamed (count blockIdx : Nat) (result : VerificationResult) :
    (verifyStreamedMetered ext baseline key count blockIdx archive result).outcome =
      .ok (verifyStreamed ext baseline key count blockIdx archive result) := by
  induction count generalizing blockIdx archive result with
  | zero => rfl
  | succ count recurse =>
      rw [verifyStreamedMetered, verifyStreamed]
      cases BlockHeader.readFrom ext.toHashing archive with
      | error error => rfl
      | ok opened =>
          obtain ⟨blockHeader, rest⟩ := opened
          dsimp only
          split
          · rfl
          split
          · rfl
          simp only [Traced.outcome_bind, Traced.outcome_note, Result.ok_bind]
          cases Reader.readExact blockHeader.compressedSize.toNat rest with
          | error error => rfl
          | ok read =>
              dsimp only
              cases BlockTrailer.readFromWithId ext.toHashing blockHeader.blockId read.2 with
              | error error => rfl
              | ok closed =>
                  simp only [Traced.outcome_bind, outcome_reportStreamedBlock, Result.ok_bind,
                    recurse]

/-- **Metering changes nothing about verifying a stream.** -/
theorem outcome_verifyStreaming :
    (self.verifyStreamingMetered ext archive).outcome = self.verifyStreaming ext archive := by
  simp only [verifyStreamingMetered, verifyStreaming, verifyWithStreamingMetadata,
    Traced.outcome_bind, Traced.outcome_lift, outcome_verifyStreamed]
  rfl

end Decompressor

end AetherArch
