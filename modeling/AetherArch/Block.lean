import AetherArch.Fields

/-! # Archive blocks

The header and trailer around each compressed payload, and the entries of the block index.
-/

namespace AetherArch

/-- Header preceding each compressed data block. -/
structure BlockHeader where
  blockId : UInt32
  solidGroupId : UInt32
  compressionMethod : CompressionMethod
  predictorStateFlag : Bool
  compressedSize : UInt32
  uncompressedSize : UInt32
  deriving DecidableEq

namespace BlockHeader

variable (hashing : Hashing)

/-- The protected part of the header. -/
def fields (header : BlockHeader) : Bytes :=
  writeU32 BLOCK_MAGIC ++ writeU32 header.blockId ++ writeU32 header.solidGroupId ++
    writeU8 header.compressionMethod.toU8 ++ writeU8 (if header.predictorStateFlag then 1 else 0) ++
    writeU16 0 ++ writeU32 header.compressedSize ++ writeU32 header.uncompressedSize

def computeCrc (header : BlockHeader) : UInt32 := hashing.crc32 header.fields

def writeTo (header : BlockHeader) : Bytes := header.fields ++ writeU32 (header.computeCrc hashing)

/-- Read a block header, naming the archive offset in errors. -/
def readFromAt (archiveOffset : Nat) : Reader BlockHeader := do
  let magic ← Reader.readU32
  Reader.failIf (magic ≠ BLOCK_MAGIC) (.invalidBlockMagic archiveOffset)
  let blockId ← Reader.readU32
  let solidGroupId ← Reader.readU32
  let method ← Reader.readU8
  let compressionMethod ← ByteReader.lift (CompressionMethod.fromU8 method)
  let stateFlag ← Reader.readU8
  let _reserved ← Reader.readU16
  let compressedSize ← Reader.readU32
  let uncompressedSize ← Reader.readU32
  let storedCrc ← Reader.readU32
  let header : BlockHeader :=
    { blockId, solidGroupId, compressionMethod, predictorStateFlag := stateFlag ≠ 0
      compressedSize, uncompressedSize }
  Reader.failIf (storedCrc ≠ header.computeCrc hashing) (.blockCrcMismatch blockId.toNat)
  pure header

/-- Read a block header from a stream. -/
def readFrom : Reader BlockHeader := readFromAt hashing 0

end BlockHeader

/-- Trailer following each compressed data block: a digest of the original data. -/
structure BlockTrailer where
  contentBlake3 : Digest
  deriving DecidableEq

namespace BlockTrailer

variable (hashing : Hashing)

def writeTo (trailer : BlockTrailer) : Bytes :=
  trailer.contentBlake3.1 ++ writeU32 (hashing.crc32 trailer.contentBlake3.1)

/-- Read a block trailer, naming the block in errors. -/
def readFromWithId (blockId : UInt32) : Reader BlockTrailer := do
  let contentBlake3 ← Reader.readExact 32
  let storedCrc ← Reader.readU32
  Reader.failIf (storedCrc ≠ hashing.crc32 contentBlake3.1) (.blockCrcMismatch blockId.toNat)
  pure { contentBlake3 }

end BlockTrailer

/-- One entry in the block index. -/
structure BlockIndexEntry where
  blockId : UInt32
  archiveOffset : UInt64
  compressedSize : UInt32
  uncompressedSize : UInt32
  solidGroupId : UInt32
  deriving DecidableEq

namespace BlockIndexEntry

def writeTo (entry : BlockIndexEntry) : Bytes :=
  writeU32 entry.blockId ++ writeU64 entry.archiveOffset ++ writeU32 entry.compressedSize ++
    writeU32 entry.uncompressedSize ++ writeU32 entry.solidGroupId

def readFrom : Reader BlockIndexEntry := do
  let blockId ← Reader.readU32
  let archiveOffset ← Reader.readU64
  let compressedSize ← Reader.readU32
  let uncompressedSize ← Reader.readU32
  let solidGroupId ← Reader.readU32
  pure { blockId, archiveOffset, compressedSize, uncompressedSize, solidGroupId }

end BlockIndexEntry

end AetherArch
