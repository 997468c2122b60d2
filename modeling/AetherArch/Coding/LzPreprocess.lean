import AetherArch.Library.Numeral
import AetherArch.Format

/-! # LZ4 preprocessor

No block is written with it any more; blocks of older archives are still read.
-/

namespace AetherArch

/-- The LZ4 library's decompressor of size-prefixed frames. -/
abbrev DecompressSizePrepended := Bytes → Except String Bytes

/-- Decompress LZ4 data, checking the size prefix before the library trusts it. -/
def lzDecode (decompressSizePrepended : DecompressSizePrepended) (lzBytes : Bytes)
    (expectedOriginalSize : Nat) : Result Bytes :=
  if lzBytes.isEmpty then .error (.decompression "LZ4 decode: empty input")
  else
    let declaredSize := Numeral.littleEndian (lzBytes.take 4)
    if lzBytes.length ≥ 4 ∧ declaredSize ≠ expectedOriginalSize then
      .error (.decompression
        s!"LZ4 embedded size {declaredSize} does not match expected {expectedOriginalSize}")
    else
      match decompressSizePrepended lzBytes with
      | .error e => .error (.decompression s!"LZ4 decompress failed: {e}")
      | .ok decompressed =>
          if decompressed.length ≠ expectedOriginalSize then
            .error (.decompression (s!"LZ4 decode size mismatch: expected {expectedOriginalSize}, "
              ++ s!"got {decompressed.length}"))
          else .ok decompressed

end AetherArch
