import AetherArch.Block
import AetherArch.Crypto
import AetherArch.Dictionary
import AetherArch.Header
import AetherArch.Pipeline.Router

/-! # Decompression: shared parts

What the seekable and the streaming reader have in common: resolving the dictionary and the
key, reassembling files from blocks, and checking extraction paths.
-/

namespace AetherArch

/-- Everything the pipeline calls that is not the program's own. -/
structure Externals extends Codecs, Primitives where
  /-- Create a pool of worker threads. -/
  threadPool : Nat → Except String Unit
  /-- The dictionary files embedded in the program. -/
  embeddedDicts : List Bytes

/-- Decryption key with its cipher. -/
structure DecryptKey where
  cipherId : UInt8
  key : Digest
  masterNonce : FixedBytes 12

/-- High-level decompressor, with a factory of predictors of type `σ`. -/
structure Decompressor (σ : Type) where
  predictorFactory : σ
  password : Option Bytes
  /-- Worker threads for parallel decompression: 0 for all cores, 1 for none. -/
  maxThreads : Nat
  dictionary : Option Dictionary

/-- Metadata parsed from an archive by seeking. -/
structure ArchiveMetadata where
  header : ArchiveHeader
  footer : ArchiveFooter
  fileEntries : List FileEntry
  solidGroups : List SolidGroupEntry
  blockIndex : List BlockIndexEntry
  encryptionHeader : Option EncryptionHeader
  dictionaryHash : Option Digest

/-- Metadata parsed from the front of a stream. -/
structure StreamingMetadata where
  header : ArchiveHeader
  fileEntries : List FileEntry
  solidGroups : List SolidGroupEntry
  encryptionHeader : Option EncryptionHeader
  dictionaryHash : Option Digest

/-- Result of verifying an archive. -/
structure VerificationResult where
  totalBlocks : Nat
  verifiedBlocks : Nat
  corruptedBlocks : List UInt32
  deriving DecidableEq

def VerificationResult.isOk (result : VerificationResult) : Bool := result.corruptedBlocks.isEmpty

/-- A file handed to the file system. -/
structure ExtractedFile where
  path : String
  data : Bytes
  mtime : Int64
  permissions : UInt32
  deriving DecidableEq

/-! ## Records after the archive header -/

/-- The encryption header of an encrypted archive. -/
def readEncryptionHeader (flags : UInt16) : Reader (Option EncryptionHeader) :=
  if hasFlag flags FLAG_ENCRYPTED then some <$> EncryptionHeader.readFrom else pure none

/-- The dictionary hash of an archive that needs a dictionary. -/
def readDictionaryHash (flags : UInt16) : Reader (Option Digest) :=
  if hasFlag flags FLAG_HAS_DICTIONARY then some <$> Reader.readExact 32 else pure none

namespace Decompressor

variable {σ : Type} [ProbabilityPredictor σ] (ext : Externals) (self : Decompressor σ)

/-! ## Dictionary and key -/

/-- The configured dictionary, or the embedded one the archive names. -/
def resolveDictionary (archiveDictHash : Option Digest) : Option Dictionary :=
  match self.dictionary with
  | some dict => some dict
  | none => archiveDictHash.bind (Dictionary.byHash ext.toHashing ext.embeddedDicts)

/-- Resolve the dictionary coding baseline the decoder should use. -/
def decodeBaselineFor (archiveDictHash : Option Digest) : Result (Option Bytes) :=
  match self.resolveDictionary ext archiveDictHash with
  | none => .ok none
  | some dict =>
      match dict.apply self.predictorFactory with
      | .error e =>
          .error (.decompression s!"Failed to apply dictionary to predictor: {e.display}")
      | .ok predictor =>
          if (ProbabilityPredictor.setCodingBaseline predictor dict.state).1 then
            .ok (some dict.state)
          else .ok none

/-- Validate that the archive's dictionary hash matches the configured dictionary or an
embedded one. -/
def validateDictionary (archiveDictHash : Option Digest) : Result Unit :=
  match archiveDictHash, self.dictionary with
  | some hash, some dict =>
      Result.failIf (hash ≠ dict.hash) (.decompression
        "Dictionary hash mismatch: archive was compressed with a different dictionary")
  | some hash, none =>
      Result.failIf (Dictionary.byHash ext.toHashing ext.embeddedDicts hash).isNone
        (.decompression ("Archive was compressed with a dictionary but no dictionary was provided. "
          ++ "Use with_dictionary() to supply the matching .aed file."))
  | none, _ => .ok ()

end Decompressor

section

variable (ext : Externals)

/-- Reject key derivation costs above the limits, or zero. -/
def checkArgon2Limits (header : EncryptionHeader) : Result Unit := do
  Result.failIf (header.mCost > MAX_ARGON2_M_COST) (.resourceLimitExceeded
    s!"Archive Argon2id m_cost {header.mCost} exceeds safety limit of {MAX_ARGON2_M_COST}")
  Result.failIf (header.tCost > MAX_ARGON2_T_COST) (.resourceLimitExceeded
    s!"Archive Argon2id t_cost {header.tCost} exceeds safety limit of {MAX_ARGON2_T_COST}")
  Result.failIf (header.pCost > MAX_ARGON2_P_COST) (.resourceLimitExceeded
    s!"Archive Argon2id p_cost {header.pCost} exceeds safety limit of {MAX_ARGON2_P_COST}")
  Result.failIf (header.mCost = 0 ∨ header.tCost = 0 ∨ header.pCost = 0)
    (.decompression "Archive Argon2id parameters must be non-zero")

/-- Derive the decryption key from archive metadata and password, for encrypted archives. -/
def deriveDecryptKey (flags : UInt16) (encryptionHeader : Option EncryptionHeader)
    (password : Option Bytes) : Result (Option DecryptKey) :=
  if hasFlag flags FLAG_ENCRYPTED then
    match encryptionHeader with
    | none =>
        .error (.decompression "Archive has FLAG_ENCRYPTED but no encryption header")
    | some header =>
        match password with
        | none => .error (.decryption
            "Archive is encrypted but no password was provided. Use with_password().")
        | some password => do
            checkArgon2Limits header
            let derived ← deriveKey ext.toPrimitives password header.salt header.mCost header.tCost
              header.pCost
            header.verifyPassword ext.toPrimitives derived
            pure (some
              { cipherId := header.cipherId.toU8, key := derived
                masterNonce := header.masterNonce })
  else .ok none

/-- Decrypt a block payload if encryption is active. -/
def maybeDecryptPayload (payload : Bytes) (decryptKey : Option DecryptKey) (blockId : UInt32) :
    Result Bytes :=
  match decryptKey with
  | none => .ok payload
  | some dk => do
      let cid ← CipherId.fromU8 dk.cipherId
      decryptBlock ext.toPrimitives cid dk.key dk.masterNonce blockId payload

end

/-! ## Reassembly -/

/-- The block range a file occupies, as start and count. -/
def fileBlockRange (entry : FileEntry) (blockCount : Nat) : Result (Option (Nat × Nat)) :=
  let start := entry.chunkStartIdx.toNat
  let count := entry.chunkCount.toNat
  if count = 0 then .ok none
  else if start + count ≥ 2 ^ 64 then
    .error (.resourceLimitExceeded s!"Chunk index overflow: start={start}, count={count}")
  else if start + count > blockCount then .error (.blockNotFound (max start blockCount))
  else .ok (some (start, count))

/-- Drop what the last chunk holds past the end of the file. -/
def truncateToFileSize (entry : FileEntry) (combined : Bytes) : Bytes :=
  combined.take entry.originalSize.toNat

/-- The blocks at some positions, joined. -/
def joinBlocks (blocks : List (Option Bytes)) : List Nat → Result Bytes
  | [] => .ok []
  | i :: rest =>
      match blocks[i]? with
      | some (some data) => do
          let joined ← joinBlocks blocks rest
          pure (data ++ joined)
      | _ => .error (.blockNotFound i)

/-- Reassemble a file from decompressed blocks, leaving the blocks in place. -/
def reassembleFileFromBlocks (entry : FileEntry) (blocks : List (Option Bytes)) : Result Bytes := do
  match ← fileBlockRange entry blocks.length with
  | none => pure []
  | some (start, count) =>
      let combined ← joinBlocks blocks (List.range' start count)
      pure (truncateToFileSize entry combined)

/-- Decompressed blocks with the number of files that still need each. -/
structure SharedBlocks where
  blocks : List (Option Bytes)
  refCounts : List Nat

/-- Count the entries that refer to each block. -/
def blockRefCounts (entries : List FileEntry) (blockCount : Nat) : List Nat :=
  entries.foldl (fun counts entry =>
    let start := entry.chunkStartIdx.toNat
    let stop := min (start + entry.chunkCount.toNat) blockCount
    counts.mapIdx fun i count =>
      if start ≤ i ∧ i < stop then min (count + 1) (2 ^ 32 - 1) else count)
    (List.replicate blockCount 0)

/-- Take a block for its last reader, or copy it. -/
def takeOrClone (shared : SharedBlocks) (i : Nat) : Result (Bytes × SharedBlocks) :=
  let remaining := shared.refCounts[i]?.getD 1
  let refCounts := shared.refCounts.set i (remaining - 1)
  match shared.blocks[i]? with
  | some (some data) =>
      .ok (data,
        { blocks := if remaining ≤ 1 then shared.blocks.set i none else shared.blocks
          refCounts := refCounts })
  | _ => .error (.blockNotFound i)

/-- Take or copy the blocks at some positions, joined. -/
def takeOrCloneAll : List Nat → SharedBlocks → Result (Bytes × SharedBlocks)
  | [], shared => .ok ([], shared)
  | i :: rest, shared => do
      let (data, shared) ← takeOrClone shared i
      let (joined, shared) ← takeOrCloneAll rest shared
      pure (data ++ joined, shared)

/-- Reassemble a file, releasing each block with its last reader. -/
def reassembleFileShared (entry : FileEntry) (shared : SharedBlocks) :
    Result (Bytes × SharedBlocks) := do
  match ← fileBlockRange entry shared.blocks.length with
  | none => pure ([], shared)
  | some (start, count) =>
      let (combined, shared) ← takeOrCloneAll (List.range' start count) shared
      pure (truncateToFileSize entry combined, shared)

/-- Reassemble a file, taking its blocks out of the array. -/
def reassembleFileConsuming (entry : FileEntry) (blocks : List (Option Bytes)) : Result Bytes := do
  let (data, _) ← reassembleFileShared entry
    { blocks := blocks, refCounts := List.replicate blocks.length 1 }
  pure data

/-! ## Extraction paths -/

/-- Whether the stem of a file name is a reserved device name. -/
def isReservedName (stem : List Char) : Bool :=
  let upper := stem.map Char.toUpper
  upper ∈ ["CON".toList, "PRN".toList, "AUX".toList, "NUL".toList] ∨
    (upper.length = 4 ∧ ("COM".toList <+: upper ∨ "LPT".toList <+: upper) ∧
      upper.getLastD '0' ∈ ['1', '2', '3', '4', '5', '6', '7', '8', '9'])

/-- Validate that a path from an archive is safe to extract. -/
def validateExtractionPath (path : String) : Result Unit := do
  Result.failIf (FileEntry.isUnsafePath path) (.pathTraversal path)
  Result.failIf ((asBytes path).length > MAX_PATH_LENGTH) (.resourceLimitExceeded
    s!"File path length {(asBytes path).length} exceeds maximum {MAX_PATH_LENGTH}")
  let filename := (pathComponents path).getLastD path.toList
  let stem := filename.takeWhile (· ≠ '.')
  Result.failIf (isReservedName stem)
    (.pathTraversal s!"Windows reserved device name in path: {path}")
  Result.failIf (filename.getLast? = some '.' ∨ filename.getLast? = some ' ')
    (.pathTraversal s!"Trailing dot or space in filename (unsafe on Windows): {path}")

/-- Validate the path of a file and hand it to the file system. -/
def writeValidatedFile (entry : FileEntry) (data : Bytes) : Result ExtractedFile := do
  validateExtractionPath entry.path
  pure { path := entry.path, data := data, mtime := entry.mtime
         permissions := entry.permissions &&& SAFE_PERMISSION_MASK }

/-- Fail unless data has the digest an entry records. -/
def checkFileHash (hashing : Hashing) (entry : FileEntry) (data : Bytes) : Result Unit :=
  let computedHash := hashing.blake3 data
  Result.failIf (computedHash ≠ entry.blake3Hash)
    (.checksumMismatch entry.chunkStartIdx.toNat (hexStr entry.blake3Hash.1)
      (hexStr computedHash.1))

/-- Reassemble, verify and write every file. -/
def writeFiles (hashing : Hashing) : List FileEntry → SharedBlocks → Result (List ExtractedFile)
  | [], _ => .ok []
  | entry :: entries, shared => do
      let (fileData, shared) ← reassembleFileShared entry shared
      checkFileHash hashing entry fileData
      let file ← writeValidatedFile entry fileData
      let files ← writeFiles hashing entries shared
      pure (file :: files)

end AetherArch
