import AetherArch.Grouper
import AetherArch.Library.Output
import AetherArch.Library.UnixPath
import AetherArch.Pipeline.Decompress
import Mathlib.Data.UInt

/-! # Compression: files to archive

The writer. Tables are written before the blocks with their counts and offsets missing, and
written again in the same place when these are known.
-/

namespace AetherArch

open UnixPath (stripPrefix)

/-- What the writer calls that is not the program's own, with the randomness it draws. -/
structure WriterExternals extends Externals where
  fastCdc : Chunker.FastCdc
  salt : FixedBytes 32
  masterNonce : FixedBytes 12

/-- Encryption configuration. -/
structure EncryptionConfig where
  password : Bytes
  cipherId : CipherId

/-- Compresses files into an archive, with a factory of predictors of type `σ`. -/
structure Compressor (σ : Type) where
  predictorFactory : σ
  /-- Concurrent compression threads, 0 for all cores. -/
  maxThreads : Nat
  profile : CompressionProfile
  encryptionConfig : Option EncryptionConfig
  dictionary : Option Dictionary

/-- A file to compress, as the file system gives it. -/
structure InputFile where
  path : UnixPath.Path
  content : Result Bytes
  /-- Seconds since the epoch. -/
  modified : Option UInt64
  mode : Option UInt32

/-- A file with what is known of it before it is compressed. -/
structure ScannedFile (format : FloatFormat) where
  entry : FileEntry
  info : FileInfo format
  data : Bytes

/-- Statistics of a compression. -/
structure CompressionStats where
  originalSize : UInt64
  compressedSize : UInt64
  blockCount : UInt32
  fileCount : UInt32
  groupCount : UInt32
  deriving DecidableEq

/-- Compressed blocks of one file. -/
structure CompressedFileBlocks (n : Nat) where
  fileIdx : Fin n
  chunkCount : Nat
  blocks : List CompressedChunk
  /-- An earlier file of the group with the same content, whose blocks this one shares. -/
  dupOfFileIdx : Option (Fin n)

/-- Encryption header and derived key of an encrypted archive. -/
abbrev EncryptionState := Option (EncryptionHeader × Digest)

namespace Compressor

/-- Write at the end of an output. -/
def writeAll (output : Output) (bytes : Bytes) : Result Output :=
  match output.append? bytes with
  | some written => .ok written
  | none => .error (.io (.other "File too large (os error 27)"))

/-- Write over what is there from a position on. -/
def seekWriteAll (output : Output) (position : UInt64) (bytes : Bytes) : Result Output :=
  match output.overwrite? position bytes with
  | some written => .ok written
  | none => .error (.io (.other "File too large (os error 27)"))

/-! ## Scanning -/

section

variable (hashing : Hashing) (format : FloatFormat)

/-- The path of a file below the base directory, with forward slashes. -/
def relativePath (baseDir path : UnixPath.Path) : Result String :=
  match fromUtf8 ((stripPrefix path baseDir).getD path) with
  | none => .error .invalidUtf8Path
  | some relative => .ok (String.ofList
      (relative.toList.map fun letter => if letter = '\\' then '/' else letter))

/-- Describe a file. Its group and blocks are not known yet. -/
def scanFile (relPath : String) (file : InputFile) (data : Bytes) : ScannedFile format where
  entry :=
    { path := relPath, originalSize := UInt64.ofNat data.length, blake3Hash := hashing.blake3 data
      solidGroupId := 0, chunkStartIdx := 0, chunkCount := 0
      permissions := (file.mode.map (· &&& SAFE_PERMISSION_MASK)).getD 0o644
      mtime := (file.modified.map UInt64.toInt64).getD 0 }
  info :=
    { path := relPath, size := UInt64.ofNat data.length
      contentType := Analyzer.detectContentType relPath data
      meanEntropy := shannonEntropy format data }
  data := data

/-- Read and describe the files, within the limit on their total size. -/
def scanFiles (baseDir : UnixPath.Path) : List InputFile → (cumulativeInputSize : Nat) →
    Result (List (ScannedFile format))
  | [], _ => .ok []
  | file :: files, cumulativeInputSize => do
      let data ← file.content
      let cumulativeInputSize := min (cumulativeInputSize + data.length) (2 ^ 64 - 1)
      Result.failIf (cumulativeInputSize > MAX_TOTAL_INPUT_SIZE) (.resourceLimitExceeded
        (s!"Total input size {cumulativeInputSize} exceeds limit of "
          ++ s!"{MAX_TOTAL_INPUT_SIZE} bytes"))
      let relPath ← relativePath baseDir file.path
      let scanned ← scanFiles baseDir files cumulativeInputSize
      pure (scanFile hashing format relPath file data :: scanned)

end

/-! ## Tables -/

section

variable {n : Nat}

/-- Note the group of every file. -/
def assignGroups (groups : List (SolidGroup n)) (fileEntries : Fin n → FileEntry) :
    Fin n → FileEntry :=
  groups.foldl (fun entries group =>
    group.fileIndices.foldl (fun entries idx =>
      Function.update entries idx { entries idx with solidGroupId := group.groupId }) entries)
    fileEntries

/-- Bytes of the plain paths. -/
def rawPathBytes (fileEntries : List FileEntry) : Nat :=
  (fileEntries.map fun entry => 2 + (asBytes entry.path).length).sum

/-- Bytes of the prefix-compressed paths. -/
def prefixedPathBytes : List FileEntry → (previousPath : String) → Nat
  | [], _ => 0
  | entry :: entries, previousPath =>
      entry.prefixedPathSize previousPath + prefixedPathBytes entries entry.path

/-- The entry of a group whose blocks are not written yet. -/
def solidGroupEntry (group : SolidGroup n) : SolidGroupEntry where
  groupId := group.groupId
  contentType := group.contentType
  compressionMethod :=
    match group.recommendedMethod with
    | .predictorRans => .predictorRans
    | .zstd => .zstd
    | .store => .store
  firstBlockIdx := 0
  blockCount := 0
  fileCount := UInt32.ofNat group.fileIndices.length

end

variable {σ : Type} [ProbabilityPredictor σ] (ext : WriterExternals) (self : Compressor σ)

/-- Flags of the archive. -/
def flags (usePathPrefixes : Bool) : UInt16 :=
  let flags := FLAG_SOLID_ARCHIVE
  let flags := if usePathPrefixes then flags ||| FLAG_PATH_PREFIXES else flags
  let flags := if self.dictionary.isSome then flags ||| FLAG_HAS_DICTIONARY else flags
  if self.encryptionConfig.isSome then flags ||| FLAG_ENCRYPTED else flags

/-- Derive a key for a new archive. -/
def encryptionState : Result EncryptionState :=
  match self.encryptionConfig with
  | none => .ok none
  | some config => do
      validateEncryptionPassword config.password
      let key ← deriveKey ext.toPrimitives config.password ext.salt Crypto.DEFAULT_ARGON2_M_COST
        Crypto.DEFAULT_ARGON2_T_COST Crypto.DEFAULT_ARGON2_P_COST
      pure (some
        ({ version := Crypto.HEADER_VERSION, cipherId := config.cipherId, salt := ext.salt
           mCost := Crypto.DEFAULT_ARGON2_M_COST, tCost := Crypto.DEFAULT_ARGON2_T_COST
           pCost := Crypto.DEFAULT_ARGON2_P_COST, masterNonce := ext.masterNonce
           verificationTag := computeVerificationTag ext.toPrimitives key }, key))

/-- An archive up to its first block. -/
structure Opened (n : Nat) where
  usePathPrefixes : Bool
  fileEntries : Fin n → FileEntry
  solidGroupEntries : List SolidGroupEntry
  encryptionState : EncryptionState
  fileTableOffset : UInt64
  solidGroupTablePos : UInt64
  output : Output

variable {n : Nat}

/-- The header of the archive, given the counts and offsets found while writing it. -/
def archiveHeader (usePathPrefixes : Bool) (fileCount groupCount : Nat) (blockCount : UInt32)
    (fileTableOffset blockIndexOffset : UInt64) : ArchiveHeader where
  flags := self.flags usePathPrefixes
  predictorId := ProbabilityPredictor.predictorId self.predictorFactory
  fileCount := UInt32.ofNat fileCount
  solidGroupCount := UInt32.ofNat groupCount
  blockCount := blockCount
  fileTableOffset := fileTableOffset
  blockIndexOffset := blockIndexOffset

/-- Write everything ahead of the blocks, with counts and offsets missing. -/
def openArchive (groups : List (SolidGroup n)) (fileEntries : Fin n → FileEntry) :
    Result (Opened n) := do
  let fileEntries := assignGroups groups fileEntries
  let usePathPrefixes : Bool :=
    prefixedPathBytes (List.ofFn fileEntries) "" < rawPathBytes (List.ofFn fileEntries)
  let encryptionState ← self.encryptionState ext
  Result.failIf (n ≥ 2 ^ 32) (.compression s!"File count {n} exceeds u32::MAX")
  Result.failIf (groups.length ≥ 2 ^ 32)
    (.compression s!"Solid group count {groups.length} exceeds u32::MAX")
  let placeholder := self.archiveHeader usePathPrefixes n groups.length 0 0 0
  let output ← writeAll .empty (placeholder.writeTo ext.toHashing)
  let output ← writeAll output
    (encryptionState.elim [] fun (encHeader, _) => encHeader.writeTo)
  let output ← writeAll output (self.dictionary.elim [] fun dict => dict.hash.1)
  let fileTableOffset := output.position
  let fileTable ← writeFileTable usePathPrefixes (List.ofFn fileEntries) ""
  let output ← writeAll output fileTable
  let solidGroupEntries := groups.map solidGroupEntry
  let solidGroupTablePos := output.position
  let output ← writeAll output (solidGroupEntries.flatMap SolidGroupEntry.writeTo)
  pure { usePathPrefixes, fileEntries, solidGroupEntries, encryptionState, fileTableOffset
         solidGroupTablePos, output }

/-! ## Phase A: compression -/

/-- The dictionary baseline all chunks are coded from. -/
def encodeBaseline : Result (Option Bytes) :=
  match self.dictionary with
  | none => .ok none
  | some dict =>
      match dict.apply self.predictorFactory with
      | .error e =>
          .error (.compression s!"Failed to apply dictionary to predictor: {e.display}")
      | .ok predictor =>
          if (ProbabilityPredictor.setCodingBaseline predictor dict.state).1 then
            .ok (some dict.state)
          else .ok none

/-- Compress the chunks of a file. -/
def compressFile (baseline : Option Bytes) (contentType : ContentType) (fileIdx : Fin n)
    (fileData : Bytes) : Result (CompressedFileBlocks n) := do
  let chunks := Chunker.fileChunks ext.toHashing ext.arith.double ext.fastCdc fileData
  let blocks ← chunks.mapM fun chunk =>
    compressChunkWithBaseline ext.toCodecs chunk baseline contentType self.profile
  pure { fileIdx, chunkCount := chunks.length, blocks, dupOfFileIdx := none }

/-- Compress the files of a group, each content once. -/
def compressGroup (fileEntries : Fin n → FileEntry) (fileDatas : Fin n → Bytes)
    (baseline : Option Bytes) (contentType : ContentType) :
    List (Fin n) → (seenFiles : List ((Digest × UInt64) × Fin n)) →
      Result (List (CompressedFileBlocks n))
  | [], _ => .ok []
  | fileIdx :: fileIndices, seenFiles =>
      let fileKey := ((fileEntries fileIdx).blake3Hash, (fileEntries fileIdx).originalSize)
      match seenFiles.lookup fileKey with
      | some origFileIdx => do
          let results ← compressGroup fileEntries fileDatas baseline contentType fileIndices
            seenFiles
          pure ({ fileIdx, chunkCount := 0, blocks := [], dupOfFileIdx := some origFileIdx } ::
            results)
      | none => do
          let compressed ← self.compressFile ext baseline contentType fileIdx (fileDatas fileIdx)
          let results ← compressGroup fileEntries fileDatas baseline contentType fileIndices
            ((fileKey, fileIdx) :: seenFiles)
          pure (compressed :: results)

/-- Compress all groups. Groups share no state, so the threads they run on do not matter to a
result; of several errors any may be the one returned. -/
def compressGroups (groups : List (SolidGroup n)) (fileEntries : Fin n → FileEntry)
    (fileDatas : Fin n → Bytes) (baseline : Option Bytes) :
    Result (List (List (CompressedFileBlocks n))) := do
  if self.maxThreads ≠ 0 then
    match ext.threadPool self.maxThreads with
    | .error e => .error (.compression
        s!"Failed to create thread pool with {self.maxThreads} threads: {e}")
    | .ok () => .ok ()
  groups.mapM fun group =>
    self.compressGroup ext fileEntries fileDatas baseline group.contentType group.fileIndices []

/-! ## Phase B: blocks -/

/-- An archive whose blocks are being written. -/
structure BlockWriter (n : Nat) where
  output : Output
  fileEntries : Fin n → FileEntry
  allBlockIndices : List BlockIndexEntry
  blockIdCounter : UInt32
  globalChunkIdx : UInt32
  compressedSize : UInt64

/-- The payload of a block. -/
def blockData (encryption : EncryptionState) (blockId : UInt32) (data : Bytes) : Result Bytes :=
  match encryption with
  | some (encHeader, derivedKey) =>
      encryptBlock ext.toPrimitives encHeader.cipherId derivedKey encHeader.masterNonce blockId data
  | none => .ok data

/-- Write a block. -/
def writeBlock (encryption : EncryptionState) (groupId : UInt32) (writer : BlockWriter n)
    (compressed : CompressedChunk) : Result (BlockWriter n) := do
  let blockOffset := writer.output.position
  let blockId := writer.blockIdCounter
  let payload ← blockData ext encryption blockId compressed.data
  Result.failIf (payload.length ≥ 2 ^ 32) (.compression
    s!"Block {blockId} compressed size {payload.length} exceeds u32::MAX")
  Result.failIf (compressed.originalSize ≥ 2 ^ 32) (.compression
    s!"Block {blockId} uncompressed size {compressed.originalSize} exceeds u32::MAX")
  let blockHeader : BlockHeader :=
    { blockId, solidGroupId := groupId, compressionMethod := compressed.method
      predictorStateFlag := !compressed.predictorSynced
      compressedSize := UInt32.ofNat payload.length
      uncompressedSize := UInt32.ofNat compressed.originalSize }
  let blockTrailer : BlockTrailer := { contentBlake3 := compressed.blake3Hash }
  let output ← writeAll writer.output (blockHeader.writeTo ext.toHashing)
  let output ← writeAll output payload
  let output ← writeAll output (blockTrailer.writeTo ext.toHashing)
  let totalBlockSize := BLOCK_HEADER_SIZE + payload.length + BLOCK_TRAILER_SIZE
  Result.failIf (totalBlockSize ≥ 2 ^ 32) (.compression
    s!"Block {blockId} total size {totalBlockSize} exceeds u32::MAX")
  Result.failIf (blockId = UInt32.ofNat (2 ^ 32 - 1)) (.resourceLimitExceeded
    "Block ID counter overflow (u32::MAX blocks)")
  pure
    { writer with
      output := output
      allBlockIndices := writer.allBlockIndices ++
        [{ blockId, archiveOffset := blockOffset, compressedSize := UInt32.ofNat totalBlockSize
           uncompressedSize := UInt32.ofNat compressed.originalSize, solidGroupId := groupId }]
      blockIdCounter := blockId + 1
      compressedSize := writer.compressedSize + UInt64.ofNat payload.length }

/-- Record the blocks of a file. -/
def BlockWriter.setRange (writer : BlockWriter n) (fileIdx : Fin n)
    (chunkStartIdx chunkCount : UInt32) : BlockWriter n :=
  let entry := { writer.fileEntries fileIdx with chunkStartIdx, chunkCount }
  { writer with fileEntries := Function.update writer.fileEntries fileIdx entry }

/-- Write the blocks of a file, unless it shares those of another. -/
def writeFileBlocks (encryption : EncryptionState) (groupId : UInt32) (writer : BlockWriter n)
    (fb : CompressedFileBlocks n) : Result (BlockWriter n) :=
  match fb.dupOfFileIdx with
  | some origIdx =>
      let original := writer.fileEntries origIdx
      .ok (writer.setRange fb.fileIdx original.chunkStartIdx original.chunkCount)
  | none => do
      Result.failIf (fb.chunkCount ≥ 2 ^ 32) (.compression
        s!"File {fb.fileIdx} chunk count {fb.chunkCount} exceeds u32::MAX")
      let chunkCount := UInt32.ofNat fb.chunkCount
      let writer ← fb.blocks.foldlM (writeBlock ext encryption groupId)
        (writer.setRange fb.fileIdx writer.globalChunkIdx chunkCount)
      pure { writer with globalChunkIdx := writer.globalChunkIdx + chunkCount }

/-- Write the blocks of all groups, and record them in the group entries. -/
def writeGroups (encryption : EncryptionState) :
    List (SolidGroupEntry × List (CompressedFileBlocks n)) → BlockWriter n →
      Result (BlockWriter n × List SolidGroupEntry)
  | [], writer => .ok (writer, [])
  | (entry, fileResults) :: groups, writer => do
      let groupFirstBlock := writer.blockIdCounter
      let writer ← fileResults.foldlM (writeFileBlocks ext encryption entry.groupId) writer
      let blockCount := writer.blockIdCounter - groupFirstBlock
      let (writer, entries) ← writeGroups encryption groups writer
      pure (writer, { entry with firstBlockIdx := groupFirstBlock, blockCount } :: entries)

/-! ## Index, footer and patches -/

/-- Write the index and the footer, and everything that was incomplete again. -/
def closeArchive (opened : Opened n) (writer : BlockWriter n)
    (solidGroupEntries : List SolidGroupEntry) : Result Output := do
  let blockIndexOffset := writer.output.position
  let output ← writeAll writer.output (writer.allBlockIndices.flatMap BlockIndexEntry.writeTo)
  let footer : ArchiveFooter :=
    { blockIndexOffset, fileTableOffset := opened.fileTableOffset
      blockCount := writer.blockIdCounter, fileCount := UInt32.ofNat n }
  let output ← writeAll output (footer.writeTo ext.toHashing)
  let finalHeader := self.archiveHeader opened.usePathPrefixes n opened.solidGroupEntries.length
    writer.blockIdCounter opened.fileTableOffset blockIndexOffset
  let output ← seekWriteAll output 0 (finalHeader.writeTo ext.toHashing)
  let fileTable ← writeFileTable opened.usePathPrefixes (List.ofFn writer.fileEntries) ""
  let output ← seekWriteAll output opened.fileTableOffset fileTable
  seekWriteAll output opened.solidGroupTablePos
    (solidGroupEntries.flatMap SolidGroupEntry.writeTo)

/-- Group, compress and write scanned files. -/
def compressScanned (files : List (ScannedFile ext.arith.double)) :
    Result (CompressionStats × Output) := do
  let groups := Grouper.groupFiles fun idx : Fin files.length => files[idx].info
  let opened ← self.openArchive ext groups fun idx => files[idx].entry
  let baseline ← self.encodeBaseline
  let compressedGroups ← self.compressGroups ext groups opened.fileEntries
    (fun idx => files[idx].data) baseline
  let (writer, solidGroupEntries) ← writeGroups ext opened.encryptionState
    (opened.solidGroupEntries.zip compressedGroups)
    { output := opened.output, fileEntries := opened.fileEntries, allBlockIndices := []
      blockIdCounter := 0, globalChunkIdx := 0, compressedSize := 0 }
  let output ← self.closeArchive ext opened writer solidGroupEntries
  pure
    ({ originalSize := (files.map fun file => UInt64.ofNat file.data.length).sum
       compressedSize := writer.compressedSize, blockCount := writer.blockIdCounter
       fileCount := UInt32.ofNat files.length, groupCount := UInt32.ofNat groups.length },
      output)

/-- Compress files into an archive written to an empty output. -/
def compressToArchive (baseDir : UnixPath.Path) (filePaths : List InputFile) :
    Result (CompressionStats × Output) := do
  let files ← scanFiles ext.toHashing ext.arith.double baseDir filePaths 0
  self.compressScanned ext files

end Compressor

end AetherArch
