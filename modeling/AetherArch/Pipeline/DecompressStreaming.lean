import AetherArch.Pipeline.DecompressSeekable

/-! # Streaming decompression

Header, file table, group table and blocks are read in this order from a source that cannot
seek.
-/

namespace AetherArch

/-- Reject a block whose sizes exceed the limits. -/
def checkStreamedSizes (header : BlockHeader) : Result Unit := do
  Result.failIf (header.compressedSize.toNat > MAX_DECOMPRESSED_BLOCK_SIZE) (.resourceLimitExceeded
    (s!"Block {header.blockId} (group {header.solidGroupId}, streaming): "
      ++ s!"compressed size {header.compressedSize} exceeds safety limit of "
      ++ s!"{MAX_DECOMPRESSED_BLOCK_SIZE} bytes"))
  Result.failIf (header.uncompressedSize.toNat > MAX_DECOMPRESSED_BLOCK_SIZE)
    (.resourceLimitExceeded
      (s!"Block {header.blockId} (group {header.solidGroupId}, streaming): "
        ++ s!"uncompressed size {header.uncompressedSize} exceeds safety limit of "
        ++ s!"{MAX_DECOMPRESSED_BLOCK_SIZE} bytes"))

/-- Decompress one block from a stream: its data, its id and its compressed size. -/
def decompressBlockStreaming (ext : Externals) (dictBaseline : Option Bytes)
    (decryptKey : Option DecryptKey) : Reader (Bytes × UInt32 × UInt32) := do
  let blockHeader ← BlockHeader.readFrom ext.toHashing
  ByteReader.lift (checkStreamedSizes blockHeader)
  let payload ← Reader.readExact blockHeader.compressedSize.toNat
  let trailer ← BlockTrailer.readFromWithId ext.toHashing blockHeader.blockId
  let payload ← ByteReader.lift
    (maybeDecryptPayload ext payload.1 decryptKey blockHeader.blockId)
  let decompressed ← ByteReader.lift ((decompressChunkWithBaseline ext.toCodecs payload
    blockHeader.compressionMethod blockHeader.uncompressedSize.toNat dictBaseline).mapError
      fun e => .decompression
        (s!"Block {blockHeader.blockId} (group {blockHeader.solidGroupId}, "
          ++ s!"method {blockHeader.compressionMethod.debug}, streaming): {e.display}"))
  Reader.failIf (decompressed.length ≠ blockHeader.uncompressedSize.toNat) (.decompression
    (s!"Block {blockHeader.blockId} (group {blockHeader.solidGroupId}, streaming): "
      ++ s!"actual decompressed size {decompressed.length} differs from claimed "
      ++ s!"{blockHeader.uncompressedSize}"))
  ByteReader.lift
    (checkBlockHash ext.toHashing blockHeader.blockId trailer.contentBlake3 decompressed)
  pure (decompressed, blockHeader.blockId, blockHeader.compressedSize)

namespace Decompressor

variable {σ : Type} [ProbabilityPredictor σ] (ext : Externals) (self : Decompressor σ)

/-- Read archive metadata from a stream, leaving it at the first block. -/
def readMetadataStreaming : Reader StreamingMetadata := do
  let header ← ArchiveHeader.readFrom ext.toHashing
  ByteReader.lift
    (ArchiveHeader.checkCounts header.fileCount header.blockCount header.solidGroupCount)
  let encryptionHeader ← readEncryptionHeader header.flags
  let dictionaryHash ← readDictionaryHash header.flags
  let fileEntries ← readFileTable (hasFlag header.flags FLAG_PATH_PREFIXES)
    header.fileCount.toNat ""
  let solidGroups ← ByteReader.readMany SolidGroupEntry.readFrom header.solidGroupCount.toNat
  pure { header, fileEntries, solidGroups, encryptionHeader, dictionaryHash }

/-- Decompress a number of blocks in turn, given the totals so far. -/
def decompressStreamed (dictBaseline : Option Bytes) (decryptKey : Option DecryptKey) :
    (count totalCompressedRead totalDecompressed : Nat) → Reader (List (Option Bytes))
  | 0, _, _ => pure []
  | count + 1, totalCompressedRead, totalDecompressed => do
      let (data, _, compressedSize) ← decompressBlockStreaming ext dictBaseline decryptKey
      let totalCompressedRead := totalCompressedRead + compressedSize.toNat
      Reader.failIf (totalCompressedRead > MAX_TOTAL_COMPRESSED_READ_SIZE)
        (totalExceeded "compressed read" totalCompressedRead MAX_TOTAL_COMPRESSED_READ_SIZE)
      let totalDecompressed := totalDecompressed + data.length
      Reader.failIf (totalDecompressed > MAX_TOTAL_DECOMPRESSED_SIZE)
        (totalExceeded "decompressed" totalDecompressed MAX_TOTAL_DECOMPRESSED_SIZE)
      let blocks ← decompressStreamed dictBaseline decryptKey count totalCompressedRead
        totalDecompressed
      pure (some data :: blocks)

/-- Extract all files, given the metadata already read from the stream. -/
def extractWithStreamingMetadata (metadata : StreamingMetadata) :
    Reader (List ExtractedFile) := do
  ByteReader.lift (self.validateDictionary ext metadata.dictionaryHash)
  let decryptKey ← ByteReader.lift
    (deriveDecryptKey ext metadata.header.flags metadata.encryptionHeader self.password)
  let baseline ← ByteReader.lift (self.decodeBaselineFor ext metadata.dictionaryHash)
  let decompressedBlocks ← decompressStreamed ext baseline decryptKey
    metadata.header.blockCount.toNat 0 0
  ByteReader.lift (writeFiles ext.toHashing metadata.fileEntries
    { blocks := decompressedBlocks
      refCounts := blockRefCounts metadata.fileEntries decompressedBlocks.length })

/-- Extract all files from a stream. -/
def extractAllStreaming (archive : Bytes) : Result (List ExtractedFile) :=
  Prod.fst <$> (do
    let metadata ← readMetadataStreaming ext
    self.extractWithStreamingMetadata ext metadata) archive

end Decompressor

/-! ## Verification -/

/-- Report a block as corrupted. -/
def VerificationResult.push (result : VerificationResult) (blockId : UInt32) :
    VerificationResult :=
  { result with corruptedBlocks := result.corruptedBlocks ++ [blockId] }

/-- Report one block whose payload and trailer could be read. -/
def reportStreamedBlock (ext : Externals) (dictBaseline : Option Bytes)
    (decryptKey : Option DecryptKey) (blockHeader : BlockHeader) (payload : Bytes)
    (trailer : BlockTrailer) (result : VerificationResult) : VerificationResult :=
  match maybeDecryptPayload ext payload decryptKey blockHeader.blockId with
  | .error _ => result.push blockHeader.blockId
  | .ok payload =>
      match decompressChunkWithBaseline ext.toCodecs payload blockHeader.compressionMethod
        blockHeader.uncompressedSize.toNat dictBaseline with
      | .ok data =>
          if ext.blake3 data ≠ trailer.contentBlake3 then result.push blockHeader.blockId
          else { result with verifiedBlocks := result.verifiedBlocks + 1 }
      | .error _ => result.push blockHeader.blockId

/-- Verify a number of blocks in turn, up to where the stream cannot be followed further. -/
def verifyStreamed (ext : Externals) (dictBaseline : Option Bytes)
    (decryptKey : Option DecryptKey) : (count blockIdx : Nat) → (archive : Bytes) →
    VerificationResult → VerificationResult
  | 0, _, _, result => result
  | count + 1, blockIdx, archive, result =>
      match BlockHeader.readFrom ext.toHashing archive with
      | .error _ => result.push (UInt32.ofNat blockIdx)
      | .ok (blockHeader, rest) =>
          if blockHeader.compressedSize.toNat > MAX_DECOMPRESSED_BLOCK_SIZE then
            result.push blockHeader.blockId
          else if blockHeader.uncompressedSize.toNat > MAX_DECOMPRESSED_BLOCK_SIZE then
            result.push blockHeader.blockId
          else
            match Reader.readExact blockHeader.compressedSize.toNat rest with
            | .error _ => result.push blockHeader.blockId
            | .ok (payload, rest) =>
                match BlockTrailer.readFromWithId ext.toHashing blockHeader.blockId rest with
                | .error _ => result.push blockHeader.blockId
                | .ok (trailer, rest) =>
                    verifyStreamed ext dictBaseline decryptKey count (blockIdx + 1) rest
                      (reportStreamedBlock ext dictBaseline decryptKey blockHeader payload.1
                        trailer result)

namespace Decompressor

variable {σ : Type} [ProbabilityPredictor σ] (ext : Externals) (self : Decompressor σ)

/-- Verify integrity, given the metadata already read from the stream. -/
def verifyWithStreamingMetadata (metadata : StreamingMetadata) (archive : Bytes) :
    Result VerificationResult := do
  let blockCount := metadata.header.blockCount.toNat
  let decryptKey ← deriveDecryptKey ext metadata.header.flags metadata.encryptionHeader
    self.password
  let baseline ← self.decodeBaselineFor ext metadata.dictionaryHash
  pure (verifyStreamed ext baseline decryptKey blockCount 0 archive
    { totalBlocks := blockCount, verifiedBlocks := 0, corruptedBlocks := [] })

/-- Verify integrity of all blocks of a stream. -/
def verifyStreaming (archive : Bytes) : Result VerificationResult := do
  let (metadata, rest) ← readMetadataStreaming ext archive
  self.verifyWithStreamingMetadata ext metadata rest

end Decompressor

end AetherArch
