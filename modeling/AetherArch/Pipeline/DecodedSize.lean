import AetherArch.Pipeline.Router

/-! # The size of what is decoded

Every decoder that accepts a payload gives exactly as many bytes as were claimed for it, and
no claim exceeds the block limit.
-/

namespace AetherArch

/-! ## Coders -/

namespace Rans

variable {σ : Type} [ProbabilityPredictor σ]

/-- As many symbols are decoded as asked for. -/
theorem length_decodeSymbols (count : Nat) (decoder : RangeDecoder) (predictor : σ) :
    (decodeSymbols count decoder predictor).1.length = count := by
  induction count generalizing decoder predictor with
  | zero => rfl
  | succ count recurse => rw [decodeSymbols, List.length_cons, recurse]

/-- A range-coded block decodes to the expected length. -/
theorem length_decodeBlock {compressed data : Bytes} {expectedLen : Nat} {predictor : σ}
    (success : (decodeBlock compressed expectedLen predictor).1 = .ok data) :
    data.length = expectedLen := by
  rw [decodeBlock, decodeBlockInner] at success
  split at success
  · rename_i empty
    cases success
    exact empty.symm
  · split at success
    · cases success
    · split at success
      · cases success
      · dsimp only at success
        split at success
        · cases success
        · cases success
          exact length_decodeSymbols ..

end Rans

/-- A sorted text is restored to the expected size. -/
theorem length_bwtMtfDecodeParts {primaryIndex expectedSize : Nat} {mtfData data : Bytes}
    (success : bwtMtfDecodeParts primaryIndex mtfData expectedSize = .ok data) :
    data.length = expectedSize := by
  rw [bwtMtfDecodeParts] at success
  split at success
  · cases success
  · split at success
    · cases success
    · split at success
      · cases success
      · rename_i exact'
        cases success
        exact not_not.mp exact'

/-- Dictionary coding decodes to the expected size. -/
theorem length_lz77Decode {encoded data : Bytes} {expectedSize : Nat}
    (success : lz77Decode encoded expectedSize = .ok data) : data.length = expectedSize := by
  rw [lz77Decode] at success
  split at success
  · cases success
  · dsimp only at success
    split at success
    · cases success
    · rename_i claimed
      split at success
      · cases success
      · split at success
        · cases success
        · split at success
          · cases success
          · rename_i exact'
            cases success
            rw [not_not.mp exact', not_not.mp claimed]

/-- Whichever dictionary format it is, it decodes to the expected size. -/
theorem length_lzDecode {library : DecompressSizePrepended} {lzBytes data : Bytes}
    {expectedSize : Nat} (success : lzDecode library lzBytes expectedSize = .ok data) :
    data.length = expectedSize := by
  rw [lzDecode] at success
  split at success
  · cases success
  · dsimp only at success
    split at success
    · cases success
    · split at success
      · cases success
      · split at success
        · cases success
        · rename_i exact'
          cases success
          exact not_not.mp exact'

/-- Split planes decode to the expected size. -/
theorem length_byteplaneDecode {payload data : Bytes} {uncompressedSize : Nat}
    (success : byteplaneDecode payload uncompressedSize = .ok data) :
    data.length = uncompressedSize := by
  unfold byteplaneDecode at success
  split at success
  · split at success
    · cases success
    · dsimp only at success
      split at success
      · cases success
      · obtain ⟨sizes, -, success⟩ := Result.bind_eq_ok.mp success
        split at success
        · cases success
        · obtain ⟨planes, -, success⟩ := Result.bind_eq_ok.mp success
          split at success
          · cases success
          · rename_i exact'
            cases success
            exact not_not.mp exact'
  · cases success

/-! ## Chunks -/

namespace Router

variable {codecs : Codecs} {compressedData data : Bytes} {uncompressedSize : Nat}
  {dictBaseline : Option Bytes}

/-- A sorted block decodes to the claimed size. -/
theorem length_decompressBwt
    (success : decompressBwt codecs compressedData uncompressedSize dictBaseline = .ok data) :
    data.length = uncompressedSize := by
  unfold decompressBwt at success
  split at success
  · split at success
    · cases success
    · split at success
      · cases success
      · dsimp only at success
        split at success
        · cases success
        · obtain ⟨encodeData, -, success⟩ := Result.bind_eq_ok.mp success
          split at success
          · obtain ⟨mtfData, -, success⟩ := Result.bind_eq_ok.mp success
            exact length_bwtMtfDecodeParts success
          · split at success
            · obtain ⟨mtfData, -, success⟩ := Result.bind_eq_ok.mp success
              exact length_bwtMtfDecodeParts success
            · exact length_bwtMtfDecodeParts success
  · cases success

/-- So does a block with an intermediate form. -/
theorem length_decompressIntermediate {label limitLabel : String}
    {decode : Bytes → Nat → Result Bytes}
    (length : ∀ {encoded data : Bytes}, decode encoded uncompressedSize = .ok data →
      data.length = uncompressedSize)
    (success : decompressIntermediate codecs label limitLabel decode compressedData
      uncompressedSize dictBaseline = .ok data) : data.length = uncompressedSize := by
  rw [decompressIntermediate] at success
  split at success
  · cases success
  · dsimp only at success
    split at success
    · cases success
    · obtain ⟨intermediate, -, success⟩ := Result.bind_eq_ok.mp success
      exact length success

end Router

open Router

/-- **What a chunk decompresses to has the claimed size**, within the block limit. -/
theorem length_decompressChunk {codecs : Codecs} {compressedData data : Bytes}
    {method : CompressionMethod} {uncompressedSize : Nat} {dictBaseline : Option Bytes}
    (success : decompressChunkWithBaseline codecs compressedData method uncompressedSize
      dictBaseline = .ok data) :
    data.length = uncompressedSize ∧ uncompressedSize ≤ MAX_DECOMPRESSED_BLOCK_SIZE := by
  unfold decompressChunkWithBaseline at success
  split at success
  · cases success
  rename_i bounded
  refine ⟨?_, not_lt.mp bounded⟩
  cases method with
  | store =>
      dsimp only at success
      split at success
      · cases success
      · rename_i exact'
        cases success
        exact not_not.mp exact'
  | zstd => exact (Zstd.length_decompress success).1
  | predictorRans => exact Rans.length_decodeBlock success
  | lzPredictorRans => exact length_decompressIntermediate length_lzDecode success
  | bwtPredictorRans => exact length_decompressBwt success
  | bytePlanePredictorRans => exact length_byteplaneDecode success
  | lz77PredictorRans => exact length_decompressIntermediate length_lz77Decode success
  | bcjZstd =>
      obtain ⟨original, decompressed, same⟩ := Result.bind_eq_ok.mp success
      cases same
      rw [Bcj.decodeX86, Bcj.transformX86, Bcj.length_transformFrom]
      exact (Zstd.length_decompress decompressed).1

end AetherArch
