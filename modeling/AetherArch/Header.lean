import AetherArch.Fields

/-! # Archive records outside the blocks

The archive header, the file table with plain or prefix-compressed paths, the group table
and the footer.
-/

namespace AetherArch

/-! ## Archive header -/

/-- Fixed-size preamble at the start of every archive. -/
structure ArchiveHeader where
  flags : UInt16
  predictorId : PredictorId
  fileCount : UInt32
  solidGroupCount : UInt32
  blockCount : UInt32
  fileTableOffset : UInt64
  blockIndexOffset : UInt64
  deriving DecidableEq

namespace ArchiveHeader

variable (hashing : Hashing)

/-- The protected part of the header. -/
def fields (header : ArchiveHeader) : Bytes :=
  MAGIC ++ writeU16 header.flags ++ writeU16 header.predictorId.toU16 ++
    writeU32 header.fileCount ++ writeU32 header.solidGroupCount ++ writeU32 header.blockCount ++
    writeU64 header.fileTableOffset ++ writeU64 header.blockIndexOffset

/-- The digest of the header, truncated. -/
def computeBlake3Tag (header : ArchiveHeader) : FixedBytes 8 :=
  ⟨(hashing.blake3 header.fields).1.take 8, by rw [List.length_take, (hashing.blake3 _).2]; rfl⟩

def writeTo (header : ArchiveHeader) : Bytes :=
  header.fields ++ (header.computeBlake3Tag hashing).1

/-- Reject counts no archive may have. -/
def checkCounts (fileCount blockCount solidGroupCount : UInt32) : Result Unit := do
  Result.failIf (fileCount > MAX_FILE_COUNT) (.resourceLimitExceeded
    s!"Archive claims {fileCount} files, exceeding limit of {MAX_FILE_COUNT}")
  Result.failIf (blockCount > MAX_BLOCK_COUNT) (.resourceLimitExceeded
    s!"Archive claims {blockCount} blocks, exceeding limit of {MAX_BLOCK_COUNT}")
  Result.failIf (solidGroupCount > MAX_SOLID_GROUP_COUNT) (.resourceLimitExceeded
    (s!"Archive claims {solidGroupCount} solid groups, exceeding limit of "
      ++ s!"{MAX_SOLID_GROUP_COUNT}"))

def readFrom : Reader ArchiveHeader := do
  let magic ← Reader.readExact 8
  Reader.failIf (magic.1 ≠ MAGIC ∧ magic.1 ≠ LEGACY_MAGIC) .invalidMagic
  let flags ← Reader.readU16
  let predictor ← Reader.readU16
  let predictorId ← ByteReader.lift (PredictorId.fromU16 predictor)
  let fileCount ← Reader.readU32
  let solidGroupCount ← Reader.readU32
  let blockCount ← Reader.readU32
  let fileTableOffset ← Reader.readU64
  let blockIndexOffset ← Reader.readU64
  let storedTag ← Reader.readExact 8
  let header : ArchiveHeader :=
    { flags, predictorId, fileCount, solidGroupCount, blockCount, fileTableOffset
      blockIndexOffset }
  Reader.failIf (storedTag ≠ header.computeBlake3Tag hashing) .headerIntegrityMismatch
  ByteReader.lift (checkCounts fileCount blockCount solidGroupCount)
  pure header

end ArchiveHeader

/-! ## File entries -/

/-- Metadata for a single file within the archive. -/
structure FileEntry where
  /-- Relative path, with forward slashes. -/
  path : String
  originalSize : UInt64
  blake3Hash : Digest
  solidGroupId : UInt32
  /-- The first block of the file, and how many follow each other from there. -/
  chunkStartIdx : UInt32
  chunkCount : UInt32
  permissions : UInt32
  mtime : Int64
  deriving DecidableEq

/-- The parts of a path between separators of either kind. -/
def pathComponents (path : String) : List (List Char) :=
  path.toList.splitOnP fun c => c = '/' ∨ c = '\\'

namespace FileEntry

/-- Whether a path could leave the directory it is extracted to. -/
def isUnsafePath (path : String) : Bool :=
  (asBytes path).contains 0 || path.toList.head? == some '/' || path.toList.head? == some '\\' ||
    (asBytes path)[1]? == some 58 || (pathComponents path).contains ['.', '.']

/-- The fixed part of an entry. -/
def fixedFields (entry : FileEntry) : Bytes :=
  writeU64 entry.originalSize ++ entry.blake3Hash.1 ++ writeU32 entry.solidGroupId ++
    writeU32 entry.chunkStartIdx ++ writeU32 entry.chunkCount ++ writeU32 entry.permissions ++
    writeU64 entry.mtime.toUInt64

def writeTo (entry : FileEntry) : Bytes :=
  writeU16 (UInt16.ofNat (asBytes entry.path).length) ++ asBytes entry.path ++ entry.fixedFields

/-- Decode a path and reject it when it is unsafe. -/
def parsePath (bytes : Bytes) : Result String :=
  match fromUtf8 bytes with
  | none => .error (.decompression s!"Invalid UTF-8 path: {utf8Error bytes}")
  | some path => if isUnsafePath path then .error (.pathTraversal path) else .ok path

/-- The fixed part of an entry, with permissions masked. -/
def readFixedFields (path : String) : Reader FileEntry := do
  let originalSize ← Reader.readU64
  let blake3Hash ← Reader.readExact 32
  let solidGroupId ← Reader.readU32
  let chunkStartIdx ← Reader.readU32
  let chunkCount ← Reader.readU32
  let permissions ← Reader.readU32
  let mtime ← Reader.readU64
  pure { path, originalSize, blake3Hash, solidGroupId, chunkStartIdx, chunkCount
         permissions := permissions &&& SAFE_PERMISSION_MASK, mtime := mtime.toInt64 }

def readFrom : Reader FileEntry := do
  let pathLen ← Reader.readU16
  Reader.failIf (pathLen.toNat > MAX_PATH_LENGTH) (.resourceLimitExceeded
    s!"File path length {pathLen} exceeds maximum {MAX_PATH_LENGTH}")
  let pathBytes ← Reader.readExact pathLen.toNat
  let path ← ByteReader.lift (parsePath pathBytes.1)
  readFixedFields path

/-! ### Prefix-compressed paths -/

/-- The length of the longest common prefix. -/
def commonPrefix : Bytes → Bytes → Nat
  | left :: lefts, right :: rights => if left = right then commonPrefix lefts rights + 1 else 0
  | _, _ => 0

/-- The last character boundary up to an index. -/
def boundaryBelow (path : String) : Nat → Nat
  | 0 => 0
  | index + 1 => if isCharBoundary path (index + 1) then index + 1 else boundaryBelow path index

def sharedPrefixLen (entry : FileEntry) (previousPath : String) : Nat :=
  boundaryBelow entry.path (commonPrefix (asBytes entry.path) (asBytes previousPath))

/-- Bytes used by the prefix-compressed path of this entry. -/
def prefixedPathSize (entry : FileEntry) (previousPath : String) : Nat :=
  4 + (asBytes entry.path).length - entry.sharedPrefixLen previousPath

/-- Write the entry after the prefix its path shares with the previous one. -/
def writePrefixed (entry : FileEntry) (previousPath : String) : Result Bytes := do
  let prefixLen := entry.sharedPrefixLen previousPath
  let suffix := (asBytes entry.path).drop prefixLen
  Result.failIf (prefixLen ≥ 2 ^ 16) (.resourceLimitExceeded "Path prefix exceeds u16")
  Result.failIf (suffix.length ≥ 2 ^ 16) (.resourceLimitExceeded "Path suffix exceeds u16")
  pure (writeU16 (UInt16.ofNat prefixLen) ++ writeU16 (UInt16.ofNat suffix.length) ++ suffix ++
    entry.fixedFields)

def FIXED_FIELDS_SIZE : Nat := 64

/-- Read a prefix-compressed entry, by way of the plain encoding of its path. -/
def readPrefixed (previousPath : String) : Reader FileEntry := do
  let prefixLen ← Reader.readU16
  let suffixLen ← Reader.readU16
  Reader.failIf (prefixLen.toNat > (asBytes previousPath).length ∨
      ¬isCharBoundary previousPath prefixLen.toNat ∨
      prefixLen.toNat + suffixLen.toNat > MAX_PATH_LENGTH)
    (.resourceLimitExceeded
      s!"Invalid compressed path lengths: prefix={prefixLen}, suffix={suffixLen}")
  let suffix ← Reader.readExact suffixLen.toNat
  let path := (asBytes previousPath).take prefixLen.toNat ++ suffix.1
  let fixedFields ← Reader.readExact FIXED_FIELDS_SIZE
  let canonical := writeU16 (UInt16.ofNat path.length) ++ path ++ fixedFields.1
  ByteReader.lift ((readFrom canonical).map Prod.fst)

/-- Read an entry of a table whose paths may be prefix-compressed. -/
def readEntry (isPrefixed : Bool) (previousPath : String) : Reader FileEntry :=
  if isPrefixed then readPrefixed previousPath else readFrom

/-- Write an entry of a table whose paths may be prefix-compressed. -/
def writeEntry (isPrefixed : Bool) (entry : FileEntry) (previousPath : String) : Result Bytes :=
  if isPrefixed then entry.writePrefixed previousPath else .ok entry.writeTo

end FileEntry

/-- Read a file table; every path may refer to the one before it. -/
def readFileTable (isPrefixed : Bool) : (count : Nat) → (previousPath : String) →
    Reader (List FileEntry)
  | 0, _ => pure []
  | count + 1, previousPath => do
      let entry ← FileEntry.readEntry isPrefixed previousPath
      let entries ← readFileTable isPrefixed count entry.path
      pure (entry :: entries)

/-- Write a file table. -/
def writeFileTable (isPrefixed : Bool) : List FileEntry → (previousPath : String) → Result Bytes
  | [], _ => .ok []
  | entry :: entries, previousPath => do
      let bytes ← entry.writeEntry isPrefixed previousPath
      let rest ← writeFileTable isPrefixed entries entry.path
      pure (bytes ++ rest)

/-! ## Group table -/

/-- Describes one solid group. -/
structure SolidGroupEntry where
  groupId : UInt32
  contentType : ContentType
  compressionMethod : CompressionMethod
  firstBlockIdx : UInt32
  blockCount : UInt32
  fileCount : UInt32
  deriving DecidableEq

namespace SolidGroupEntry

def writeTo (entry : SolidGroupEntry) : Bytes :=
  writeU32 entry.groupId ++ writeU16 entry.contentType.toU16 ++
    writeU16 entry.compressionMethod.toU8.toUInt16 ++ writeU32 entry.firstBlockIdx ++
    writeU32 entry.blockCount ++ writeU32 entry.fileCount ++ writeU32 0

def readFrom : Reader SolidGroupEntry := do
  let groupId ← Reader.readU32
  let type ← Reader.readU16
  let contentType ← ByteReader.lift (ContentType.fromU16 type)
  let methodRaw ← Reader.readU16
  let compressionMethod ← ByteReader.lift (CompressionMethod.fromU8 methodRaw.toUInt8)
  let firstBlockIdx ← Reader.readU32
  let blockCount ← Reader.readU32
  let fileCount ← Reader.readU32
  let _reserved ← Reader.readU32
  pure { groupId, contentType, compressionMethod, firstBlockIdx, blockCount, fileCount }

end SolidGroupEntry

/-! ## Footer -/

/-- Fixed-size trailer at the end of every archive, repeating offsets and counts. -/
structure ArchiveFooter where
  blockIndexOffset : UInt64
  fileTableOffset : UInt64
  blockCount : UInt32
  fileCount : UInt32
  deriving DecidableEq

namespace ArchiveFooter

variable (hashing : Hashing)

def fields (footer : ArchiveFooter) : Bytes :=
  writeU64 footer.blockIndexOffset ++ writeU64 footer.fileTableOffset ++
    writeU32 footer.blockCount ++ writeU32 footer.fileCount

def computeCrc (footer : ArchiveFooter) : UInt32 := hashing.crc32 footer.fields

def writeTo (footer : ArchiveFooter) : Bytes :=
  footer.fields ++ writeU32 (footer.computeCrc hashing) ++ writeU32 FOOTER_MAGIC

def readFrom : Reader ArchiveFooter := do
  let blockIndexOffset ← Reader.readU64
  let fileTableOffset ← Reader.readU64
  let blockCount ← Reader.readU32
  let fileCount ← Reader.readU32
  let storedCrc ← Reader.readU32
  let magic ← Reader.readU32
  Reader.failIf (magic ≠ FOOTER_MAGIC) .invalidFooterMagic
  let footer : ArchiveFooter := { blockIndexOffset, fileTableOffset, blockCount, fileCount }
  Reader.failIf (storedCrc ≠ footer.computeCrc hashing)
    (.headerCrcMismatch storedCrc.toNat (footer.computeCrc hashing).toNat)
  pure footer

end ArchiveFooter

end AetherArch
