import Mathlib.Tactic
import AetherArch.Format
import AetherArch.Library.Numeral

/-! # Zstandard fallback

The codec itself is the vendor's; what is modelled is the guard around it.
-/

namespace AetherArch

/-- The Zstandard library: a one-shot encoder, and a stream decoder that is opened on
encoded bytes and then read up to a limit. -/
structure Zstd where
  encodeAll : Bytes → Int → Except String Bytes
  decoder : Bytes → Except String (Nat → Except String Bytes)

namespace Zstd

/-- Default compression level. -/
def ZSTD_COMPRESSION_LEVEL : Int := 3

def MAX_ZSTD_DECODE_SIZE : Nat := MAX_DECOMPRESSED_BLOCK_SIZE

variable (zstd : Zstd)

/-- Compress a data block. -/
def compress (data : Bytes) : Result Bytes :=
  match zstd.encodeAll data ZSTD_COMPRESSION_LEVEL with
  | .ok encoded => .ok encoded
  | .error e => .error (.compression s!"zstd compress: {e}")

/-- Decompress a data block, reading at most one byte past the expected size. -/
def decompress (data : Bytes) (expectedSize : Nat) : Result Bytes :=
  if expectedSize > MAX_ZSTD_DECODE_SIZE then
    .error (.decompression
      s!"zstd decode size {expectedSize} exceeds safety limit {MAX_ZSTD_DECODE_SIZE}")
  else
    match zstd.decoder data with
    | .error e => .error (.decompression s!"zstd decoder init: {e}")
    | .ok read =>
        match read (expectedSize + 1) with
        | .error e => .error (.decompression s!"zstd decompress: {e}")
        | .ok decompressed =>
            if decompressed.length ≠ expectedSize then
              .error (.decompression
                s!"zstd decode size mismatch: expected {expectedSize}, got {decompressed.length}")
            else .ok decompressed

/-- Reading back an encoded block gives as much of the data as the limit allows. -/
def Inverts : Prop :=
  ∀ data level encoded, zstd.encodeAll data level = .ok encoded →
    ∃ read, zstd.decoder encoded = .ok read ∧ ∀ limit, read limit = .ok (data.take limit)

variable {zstd}

/-- **A compressed block decompresses to itself.** -/
theorem Inverts.decompress_compress (inverts : zstd.Inverts) {data encoded : Bytes}
    (bounded : data.length ≤ MAX_ZSTD_DECODE_SIZE) (success : zstd.compress data = .ok encoded) :
    zstd.decompress encoded data.length = .ok data := by
  rw [compress] at success
  split at success
  · rename_i bytes encodes
    obtain rfl := Except.ok.inj success
    obtain ⟨read, opened, reads⟩ := inverts _ _ _ encodes
    rw [decompress, if_neg (by omega), opened]
    simp only [reads]
    rw [List.take_of_length_le (by omega), if_neg (by simp only [ne_eq, not_true_eq_false,
      not_false_eq_true])]
  · cases success

/-- What is decompressed has the expected size, within the block limit. -/
theorem length_decompress {data decompressed : Bytes} {expectedSize : Nat}
    (success : zstd.decompress data expectedSize = .ok decompressed) :
    decompressed.length = expectedSize ∧ expectedSize ≤ MAX_DECOMPRESSED_BLOCK_SIZE := by
  rw [decompress] at success
  split at success
  · cases success
  rename_i bounded
  split at success
  · cases success
  split at success
  · cases success
  split at success
  · cases success
  rename_i exact'
  obtain rfl := Except.ok.inj success
  exact ⟨by simpa only [ne_eq, not_not] using exact', not_lt.mp bounded⟩

/-- The frame of one raw block: magic number, frame header, window descriptor, and a block
header that marks the last block. -/
def rawFrame (data : Bytes) : Bytes :=
  [0x28, 0xB5, 0x2F, 0xFD, 0x00, 0x58] ++ Numeral.toLittleEndian 3 (8 * data.length + 1) ++ data

/-- A library that stores every input as one raw block. -/
def rawFrames : Zstd where
  encodeAll data _ := .ok (rawFrame data)
  decoder encoded :=
    if encoded.take 6 = [0x28, 0xB5, 0x2F, 0xFD, 0x00, 0x58] then
      .ok fun limit => .ok ((encoded.drop 9).take limit)
    else .error "Unknown frame descriptor"

theorem rawFrames_inverts : rawFrames.Inverts := by
  intro data level encoded success
  cases success
  exact ⟨_, rfl, fun limit => rfl⟩

end Zstd

end AetherArch
