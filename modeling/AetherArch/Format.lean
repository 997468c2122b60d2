import AetherArch.Error
import AetherArch.Library.ByteReader

/-! # Archive format constants

Magic numbers, record sizes, safety limits, enumerations and header flags.
-/

namespace AetherArch

/-- The bytes of a digest. -/
abbrev Digest := FixedBytes 32

/-! ## Magic numbers -/

/-- Magic bytes identifying an archive. -/
def MAGIC : Bytes := [0xAE, 0x74, 0x68, 0x65, 0x72, 0x00, 0x01, 0x02]

/-- Legacy magic accepted for backwards-compatible extraction. -/
def LEGACY_MAGIC : Bytes := [0xAE, 0x74, 0x68, 0x65, 0x72, 0x00, 0x01, 0x00]

/-- Magic bytes at the start of each compressed data block. -/
def BLOCK_MAGIC : UInt32 := 0xB10CAE01

/-- Magic bytes at the end of the archive footer. -/
def FOOTER_MAGIC : UInt32 := 0xAE454E44

/-! ## Record sizes -/

def ARCHIVE_HEADER_SIZE : Nat := 48
def BLOCK_HEADER_SIZE : Nat := 28
def BLOCK_TRAILER_SIZE : Nat := 36
def BLOCK_INDEX_ENTRY_SIZE : Nat := 24
def ARCHIVE_FOOTER_SIZE : Nat := 32
def SOLID_GROUP_ENTRY_SIZE : Nat := 24

/-! ## Safety limits -/

def MAX_DECOMPRESSED_BLOCK_SIZE : Nat := 64 * 1024 * 1024
def MAX_FILE_COUNT : UInt32 := 1000000
def MAX_BLOCK_COUNT : UInt32 := 10000000
def MAX_SOLID_GROUP_COUNT : UInt32 := 100000
def MAX_PATH_LENGTH : Nat := 4096
def MAX_TOTAL_DECOMPRESSED_SIZE : Nat := 8 * 1024 * 1024 * 1024
def MAX_TOTAL_COMPRESSED_READ_SIZE : Nat := 16 * 1024 * 1024 * 1024
def MIN_ARGON2_M_COST : UInt32 := 16 * 1024
def MIN_ARGON2_T_COST : UInt32 := 2
def MIN_ARGON2_P_COST : UInt32 := 1
def MAX_ARGON2_M_COST : UInt32 := 1048576
def MAX_ARGON2_T_COST : UInt32 := 16
def MAX_ARGON2_P_COST : UInt32 := 16
def SAFE_PERMISSION_MASK : UInt32 := 0o777
def MAX_TOTAL_INPUT_SIZE : Nat := 8 * 1024 * 1024 * 1024
def VERIFICATION_TAG_SIZE : Nat := 32

/-- Compression ratio, in percent, below which the LZ77 trial is skipped. -/
def BWT_DECISIVE_RATIO : Nat := 55

/-! ## Enumerations -/

/-- Identifies which predictor was used to compress the archive. -/
inductive PredictorId where
  | order0
  | contextMixer
  | neuralSsm
  | contextMixerLight
  | lz4Aware
  | rle
  | mtf
  | zstdOnly
  deriving DecidableEq, Repr

namespace PredictorId

def toU16 : PredictorId → UInt16
  | order0 => 0x0000
  | contextMixer => 0x0001
  | neuralSsm => 0x0002
  | contextMixerLight => 0x0003
  | lz4Aware => 0x0004
  | rle => 0x0005
  | mtf => 0x0006
  | zstdOnly => 0x00FF

def fromU16 (value : UInt16) : Result PredictorId :=
  match value with
  | 0x0000 => .ok order0
  | 0x0001 => .ok contextMixer
  | 0x0002 => .ok neuralSsm
  | 0x0003 => .ok contextMixerLight
  | 0x0004 => .ok lz4Aware
  | 0x0005 => .ok rle
  | 0x0006 => .ok mtf
  | 0x00FF => .ok zstdOnly
  | other => .error (.unknownPredictorId other.toNat)

@[simp] theorem fromU16_toU16 (id : PredictorId) : fromU16 id.toU16 = .ok id := by
  cases id <;> rfl

def debug : PredictorId → String
  | order0 => "Order0"
  | contextMixer => "ContextMixer"
  | neuralSsm => "NeuralSsm"
  | contextMixerLight => "ContextMixerLight"
  | lz4Aware => "Lz4Aware"
  | rle => "Rle"
  | mtf => "Mtf"
  | zstdOnly => "ZstdOnly"

end PredictorId

/-- Per-block compression method stored in the block header. -/
inductive CompressionMethod where
  | predictorRans
  | zstd
  | store
  | lzPredictorRans
  | lz77PredictorRans
  | bwtPredictorRans
  | bytePlanePredictorRans
  | bcjZstd
  deriving DecidableEq, Repr

namespace CompressionMethod

def toU8 : CompressionMethod → UInt8
  | predictorRans => 0
  | zstd => 1
  | store => 2
  | lzPredictorRans => 3
  | lz77PredictorRans => 4
  | bwtPredictorRans => 5
  | bytePlanePredictorRans => 6
  | bcjZstd => 7

def fromU8 (value : UInt8) : Result CompressionMethod :=
  match value with
  | 0 => .ok predictorRans
  | 1 => .ok zstd
  | 2 => .ok store
  | 3 => .ok lzPredictorRans
  | 4 => .ok lz77PredictorRans
  | 5 => .ok bwtPredictorRans
  | 6 => .ok bytePlanePredictorRans
  | 7 => .ok bcjZstd
  | other => .error (.unknownCompressionMethod other.toNat)

@[simp] theorem fromU8_toU8 (method : CompressionMethod) : fromU8 method.toU8 = .ok method := by
  cases method <;> rfl

def debug : CompressionMethod → String
  | predictorRans => "PredictorRans"
  | zstd => "Zstd"
  | store => "Store"
  | lzPredictorRans => "LzPredictorRans"
  | lz77PredictorRans => "Lz77PredictorRans"
  | bwtPredictorRans => "BwtPredictorRans"
  | bytePlanePredictorRans => "BytePlanePredictorRans"
  | bcjZstd => "BcjZstd"

end CompressionMethod

/-- Semantic content type used for solid grouping. -/
inductive ContentType where
  | mixed
  | text
  | binaryStructured
  | binaryRandom
  | image
  | executable
  | numericData
  deriving DecidableEq, Repr

namespace ContentType

def toU16 : ContentType → UInt16
  | mixed => 0
  | text => 1
  | binaryStructured => 2
  | binaryRandom => 3
  | image => 4
  | executable => 5
  | numericData => 6

def fromU16 (value : UInt16) : Result ContentType :=
  match value with
  | 0 => .ok mixed
  | 1 => .ok text
  | 2 => .ok binaryStructured
  | 3 => .ok binaryRandom
  | 4 => .ok image
  | 5 => .ok executable
  | 6 => .ok numericData
  | other => .error (.unknownContentType other.toNat)

@[simp] theorem fromU16_toU16 (type : ContentType) : fromU16 type.toU16 = .ok type := by
  cases type <;> rfl

end ContentType

/-! ## Header flags -/

def FLAG_HAS_NEURAL_MODEL : UInt16 := (1 : UInt16) <<< 0
def FLAG_SOLID_ARCHIVE : UInt16 := (1 : UInt16) <<< 1
def FLAG_ENCRYPTED : UInt16 := (1 : UInt16) <<< 2
def FLAG_HAS_DICTIONARY : UInt16 := (1 : UInt16) <<< 3
def FLAG_PATH_PREFIXES : UInt16 := (1 : UInt16) <<< 4

/-- Whether a flag is set. -/
def hasFlag (flags flag : UInt16) : Bool := flags &&& flag ≠ 0

end AetherArch
