import AetherArch.Machine.Bcj
import AetherArch.Machine.Bwt
import AetherArch.Machine.BytePlane
import AetherArch.Machine.Lz77
import AetherArch.Machine.ZeroRun
import AetherArch.Pipeline.RouterRoundTrip

/-! # Chunk decoding by machine steps

Every route of the router over its checked decoders. Whatever payload, size and method an
archive gives, no step indexes out of bounds, leaves its word or runs without end; the
libraries behind the routes are taken to be safe, and the predictor to keep its contract.
-/

namespace AetherArch

open Checked ProbabilityPredictor

/-- A slice of bytes: the language limits its length to half the address space. -/
structure ByteSlice where
  bytes : Bytes
  addressable : bytes.length < 2 ^ 63

namespace Machine

/-- Check the size prefix of LZ4 data, when there is one. -/
def checkDeclaredSize (lzBytes : Bytes) (expectedOriginalSize : Nat) : Run AetherError Unit :=
  if lzBytes.length ≥ 4 then do
    let sizeBytes ← slice lzBytes 0 4
    let declaredSize := Numeral.littleEndian sizeBytes
    if declaredSize ≠ expectedOriginalSize then
      refuse (.decompression
        s!"LZ4 embedded size {declaredSize} does not match expected {expectedOriginalSize}")
    else .ok ()
  else .ok ()

/-- Decompress LZ4 data, checking the size prefix before the library trusts it. -/
def lzDecode (decompressSizePrepended : DecompressSizePrepended) (lzBytes : Bytes)
    (expectedOriginalSize : Nat) : Run AetherError Bytes :=
  if lzBytes.isEmpty then refuse (.decompression "LZ4 decode: empty input")
  else do
    checkDeclaredSize lzBytes expectedOriginalSize
    match decompressSizePrepended lzBytes with
    | .error e => refuse (.decompression s!"LZ4 decompress failed: {e}")
    | .ok decompressed =>
        if decompressed.length ≠ expectedOriginalSize then
          refuse (.decompression (s!"LZ4 decode size mismatch: expected {expectedOriginalSize}, "
            ++ s!"got {decompressed.length}"))
        else .ok decompressed

variable (codecs : Codecs)

/-- Decode a payload of the block-sorting route. -/
def decompressBwt (compressedData : Bytes) (uncompressedSize : Nat)
    (dictBaseline : Option Bytes) : Run AetherError Bytes :=
  if compressedData.length < 9 then
    refuse (.decompression (s!"BwtPredictorRans payload too short: {compressedData.length} "
      ++ s!"bytes (need ≥9, uncompressed_size={uncompressedSize})"))
  else do
    let flags ← index compressedData 0
    if flags > 2 then
      refuse (.decompression
        s!"BwtPredictorRans: invalid flags byte 0x{hexDigits 2 flags.toNat}")
    else do
      let indexBytes ← slice compressedData 1 5
      let lenBytes ← slice compressedData 5 9
      let primaryIndex := Numeral.littleEndian indexBytes
      let encodedLen := Numeral.littleEndian lenBytes
      if encodedLen > MAX_DECOMPRESSED_BLOCK_SIZE then
        refuse (.resourceLimitExceeded (s!"BWT encoded_len {encodedLen} exceeds safety limit "
          ++ s!"{MAX_DECOMPRESSED_BLOCK_SIZE} (uncompressed_size={uncompressedSize})"))
      else do
        let rcBytes ← slice compressedData 9 compressedData.length
        let encodeData ←
          decodeBlock rcBytes encodedLen (Router.codingPredictor codecs dictBaseline)
        let mtfData ←
          if flags = 2 then rleDecodeEscaped encodeData uncompressedSize
          else if flags = 1 then rleDecode encodeData uncompressedSize
          else .ok encodeData
        bwtMtfDecodeParts primaryIndex mtfData uncompressedSize

/-- Decode a payload that holds an intermediate length and a coded intermediate stream. -/
def decompressIntermediate (label limitLabel : String)
    (decode : Bytes → Nat → Run AetherError Bytes) (compressedData : Bytes)
    (uncompressedSize : Nat) (dictBaseline : Option Bytes) : Run AetherError Bytes :=
  if compressedData.length < 4 then
    refuse (.decompression (s!"{label} payload too short: {compressedData.length} bytes "
      ++ s!"(need ≥4, uncompressed_size={uncompressedSize})"))
  else do
    let lenBytes ← slice compressedData 0 4
    let lzLen := Numeral.littleEndian lenBytes
    if lzLen > MAX_DECOMPRESSED_BLOCK_SIZE then
      refuse (.resourceLimitExceeded (s!"{limitLabel} intermediate len {lzLen} exceeds safety "
        ++ s!"limit {MAX_DECOMPRESSED_BLOCK_SIZE} (uncompressed_size={uncompressedSize})"))
    else do
      let rcBytes ← slice compressedData 4 compressedData.length
      let lzBytes ← decodeBlock rcBytes lzLen (Router.codingPredictor codecs dictBaseline)
      decode lzBytes uncompressedSize

/-- Decompress a chunk by its stored method, given the dictionary baseline. -/
def decompressChunkWithBaseline (compressedData : Bytes) (method : CompressionMethod)
    (uncompressedSize : Nat) (dictBaseline : Option Bytes) : Run AetherError Bytes :=
  if uncompressedSize > MAX_DECOMPRESSED_BLOCK_SIZE then
    refuse (.resourceLimitExceeded (s!"Decompressed block size {uncompressedSize} exceeds "
      ++ s!"maximum {MAX_DECOMPRESSED_BLOCK_SIZE} bytes"))
  else
    match method with
    | .bcjZstd => do
        let original ← ofResult (codecs.zstd.decompress compressedData uncompressedSize)
        decodeX86 original
    | .bytePlanePredictorRans => byteplaneDecode compressedData uncompressedSize
    | .bwtPredictorRans => decompressBwt codecs compressedData uncompressedSize dictBaseline
    | .lz77PredictorRans =>
        decompressIntermediate codecs "Lz77PredictorRans" "LZ77" lz77Decode compressedData
          uncompressedSize dictBaseline
    | .lzPredictorRans =>
        decompressIntermediate codecs "LzPredictorRans" "LZ4"
          (lzDecode codecs.decompressSizePrepended) compressedData uncompressedSize dictBaseline
    | .predictorRans =>
        decodeBlock compressedData uncompressedSize (Router.codingPredictor codecs dictBaseline)
    | .zstd => ofResult (codecs.zstd.decompress compressedData uncompressedSize)
    | .store =>
        if compressedData.length ≠ uncompressedSize then
          refuse (.decompression
            (s!"Store block size mismatch: payload is {compressedData.length} "
              ++ s!"bytes but uncompressed_size is {uncompressedSize}"))
        else .ok compressedData

/-! ## No fault -/

variable {codecs : Codecs} {dictBaseline : Option Bytes} {compressedData : Bytes}
  {uncompressedSize : Nat}

theorem lzDecode_eq (library : DecompressSizePrepended) (lzBytes : Bytes)
    (expectedOriginalSize : Nat) :
    lzDecode library lzBytes expectedOriginalSize =
      ofResult (AetherArch.lzDecode library lzBytes expectedOriginalSize) := by
  rw [lzDecode, AetherArch.lzDecode]
  by_cases empty : lzBytes.isEmpty
  · rw [if_pos empty, if_pos empty, ofResult_error]
  · rw [if_neg empty, if_neg empty]
    have opened : (match library lzBytes with
          | .error e => refuse (.decompression s!"LZ4 decompress failed: {e}")
          | .ok decompressed =>
              if decompressed.length ≠ expectedOriginalSize then
                refuse (.decompression
                  (s!"LZ4 decode size mismatch: expected {expectedOriginalSize}, "
                    ++ s!"got {decompressed.length}"))
              else .ok decompressed : Run AetherError Bytes) =
        ofResult (match library lzBytes with
          | .error e => .error (.decompression s!"LZ4 decompress failed: {e}")
          | .ok decompressed =>
              if decompressed.length ≠ expectedOriginalSize then
                .error (.decompression
                  (s!"LZ4 decode size mismatch: expected {expectedOriginalSize}, "
                    ++ s!"got {decompressed.length}"))
              else .ok decompressed) := by
      cases library lzBytes with
      | error e => rfl
      | ok decompressed =>
          dsimp only
          split
          · rfl
          · rfl
    rw [checkDeclaredSize]
    by_cases prefixed : lzBytes.length ≥ 4
    · rw [if_pos prefixed, slice_of_le (Nat.zero_le _) prefixed, Result.ok_bind, List.drop_zero,
        Nat.sub_zero]
      dsimp only
      by_cases other : Numeral.littleEndian (lzBytes.take 4) ≠ expectedOriginalSize
      · rw [if_pos other, if_pos ⟨prefixed, other⟩]
        rfl
      · rw [if_neg other, if_neg fun both => other both.2]
        exact opened
    · rw [if_neg prefixed]
      dsimp only
      rw [if_neg fun both => prefixed both.1]
      exact opened

/-- The rest of a slice after a cursor. -/
theorem slice_rest {start : Nat} (inside : start ≤ compressedData.length) :
    (slice compressedData start compressedData.length : Run AetherError Bytes) =
      .ok (compressedData.drop start) := by
  rw [slice_of_le inside le_rfl, ← List.length_drop, List.take_length]

theorem decompressIntermediate_eq (addressable : compressedData.length < 2 ^ 63)
    (contract : Contract (Router.codingPredictor codecs dictBaseline)) (label limitLabel : String)
    {run : Bytes → Nat → Run AetherError Bytes} {decode : Bytes → Nat → Result Bytes}
    (same : ∀ lzBytes : Bytes, lzBytes.length < 2 ^ 63 →
      run lzBytes uncompressedSize = ofResult (decode lzBytes uncompressedSize)) :
    decompressIntermediate codecs label limitLabel run compressedData uncompressedSize
        dictBaseline =
      ofResult (Router.decompressIntermediate codecs label limitLabel decode compressedData
        uncompressedSize dictBaseline) := by
  rw [decompressIntermediate, Router.decompressIntermediate]
  by_cases short : compressedData.length < 4
  · rw [if_pos short, if_pos short, ofResult_error]
  · rw [if_neg short, if_neg short, slice_of_le (Nat.zero_le _) (not_lt.mp short), Result.ok_bind,
      List.drop_zero, Nat.sub_zero]
    dsimp only
    generalize Numeral.littleEndian (compressedData.take 4) = lzLen
    by_cases large : lzLen > MAX_DECOMPRESSED_BLOCK_SIZE
    · rw [if_pos large, if_pos large, ofResult_error]
    · have limit : MAX_DECOMPRESSED_BLOCK_SIZE = 64 * 1024 * 1024 := rfl
      have rest : (compressedData.drop 4).length < 2 ^ 63 := by
        rw [List.length_drop]
        omega
      rw [if_neg large, if_neg large, slice_rest (not_lt.mp short), Result.ok_bind,
        decodeBlock_eq rest lzLen contract, ofResult_bind]
      cases decoded : (Rans.decodeBlock (compressedData.drop 4) lzLen
          (Router.codingPredictor codecs dictBaseline)).1 with
      | error error => rfl
      | ok lzBytes =>
          have length := Rans.length_decodeBlock decoded
          rw [ofResult_ok, Result.ok_bind, Result.ok_bind, same lzBytes (by omega)]

theorem length_decodeRunsExact {coding : RunCoding} {rleData data : Bytes} {expectedSize : Nat}
    (success : AetherArch.decodeRunsExact coding rleData expectedSize = .ok data) :
    data.length = expectedSize := by
  rw [AetherArch.decodeRunsExact] at success
  split at success
  · cases success
  · split at success
    · cases success
    · rename_i same
      cases success
      exact not_not.mp same

theorem decompressBwt_eq (addressable : compressedData.length < 2 ^ 63)
    (contract : Contract (Router.codingPredictor codecs dictBaseline))
    (claimed : uncompressedSize ≤ MAX_DECOMPRESSED_BLOCK_SIZE) :
    decompressBwt codecs compressedData uncompressedSize dictBaseline =
      ofResult (Router.decompressBwt codecs compressedData uncompressedSize dictBaseline) := by
  have limit : MAX_DECOMPRESSED_BLOCK_SIZE = 64 * 1024 * 1024 := rfl
  rw [decompressBwt, Router.decompressBwt.eq_def]
  cases compressedData with
  | nil => rfl
  | cons flags rest =>
      dsimp only
      by_cases short : (flags :: rest).length < 9
      · rw [if_pos short, if_pos short, ofResult_error]
      · have enough := not_lt.mp short
        rw [List.length_cons] at enough addressable
        rw [if_neg short, if_neg short, index_of_lt (Nat.succ_pos _), Result.ok_bind,
          List.getElem_cons_zero]
        by_cases invalid : flags > 2
        · rw [if_pos invalid, if_pos invalid, ofResult_error]
        · rw [if_neg invalid, if_neg invalid,
            slice_of_le (by omega) (by rw [List.length_cons]; omega), Result.ok_bind,
            slice_of_le (by omega) (by rw [List.length_cons]; omega), Result.ok_bind]
          have second : (flags :: rest).drop 1 = rest := rfl
          have sixth : (flags :: rest).drop 5 = rest.drop 4 := rfl
          have tenth : (flags :: rest).drop 9 = rest.drop 8 := rfl
          rw [second, sixth]
          dsimp only [Nat.reduceSub]
          generalize Numeral.littleEndian (rest.take 4) = primaryIndex
          generalize Numeral.littleEndian ((rest.drop 4).take 4) = encodedLen
          by_cases large : encodedLen > MAX_DECOMPRESSED_BLOCK_SIZE
          · rw [if_pos large, if_pos large, ofResult_error]
          · have coded : (rest.drop 8).length < 2 ^ 63 := by
              rw [List.length_drop]
              omega
            rw [if_neg large, if_neg large, slice_rest (by rw [List.length_cons]; omega),
              Result.ok_bind, tenth, decodeBlock_eq coded encodedLen contract,
              ofResult_bind]
            cases decoded : (Rans.decodeBlock (rest.drop 8) encodedLen
                (Router.codingPredictor codecs dictBaseline)).1 with
            | error error => rfl
            | ok encodeData =>
                have length := Rans.length_decodeBlock decoded
                have runs (coding : RunCoding) :
                    (decodeRunsExact coding encodeData uncompressedSize >>= fun mtfData =>
                      bwtMtfDecodeParts primaryIndex mtfData uncompressedSize) =
                    ofResult (AetherArch.decodeRunsExact coding encodeData uncompressedSize >>=
                      fun mtfData =>
                        AetherArch.bwtMtfDecodeParts primaryIndex mtfData uncompressedSize) := by
                  rw [decodeRunsExact_eq (by omega) (by omega), ofResult_bind]
                  cases expanded : AetherArch.decodeRunsExact coding encodeData
                      uncompressedSize with
                  | error error => rfl
                  | ok mtfData =>
                      have exact' := length_decodeRunsExact expanded
                      rw [ofResult_ok, Result.ok_bind, Result.ok_bind,
                        bwtMtfDecodeParts_eq (by omega)]
                simp only [ofResult_ok, Result.ok_bind]
                by_cases escaped : flags = 2
                · rw [if_pos escaped, if_pos escaped]
                  exact runs .escaped
                · rw [if_neg escaped, if_neg escaped]
                  by_cases standard : flags = 1
                  · rw [if_pos standard, if_pos standard]
                    exact runs .standard
                  · rw [if_neg standard, if_neg standard]
                    exact bwtMtfDecodeParts_eq (by omega) _ _

/-- **Decoding a chunk meets no fault.** -/
theorem decompressChunk_eq (addressable : compressedData.length < 2 ^ 63)
    (contract : Contract (Router.codingPredictor codecs dictBaseline))
    (method : CompressionMethod) :
    decompressChunkWithBaseline codecs compressedData method uncompressedSize dictBaseline =
      ofResult (AetherArch.decompressChunkWithBaseline codecs compressedData method
        uncompressedSize dictBaseline) := by
  rw [decompressChunkWithBaseline.eq_def, AetherArch.decompressChunkWithBaseline.eq_def]
  by_cases large : uncompressedSize > MAX_DECOMPRESSED_BLOCK_SIZE
  · rw [if_pos large, if_pos large, ofResult_error]
  · have limit : MAX_DECOMPRESSED_BLOCK_SIZE = 64 * 1024 * 1024 := rfl
    have claimed : uncompressedSize < 2 ^ 63 := by omega
    rw [if_neg large, if_neg large]
    cases method with
    | store =>
        dsimp only
        split
        · rfl
        · rfl
    | zstd => rfl
    | predictorRans => exact decodeBlock_eq addressable uncompressedSize contract
    | lzPredictorRans =>
        exact decompressIntermediate_eq addressable contract _ _ fun lzBytes _ =>
          lzDecode_eq codecs.decompressSizePrepended lzBytes uncompressedSize
    | bwtPredictorRans => exact decompressBwt_eq addressable contract (not_lt.mp large)
    | bytePlanePredictorRans => exact byteplaneDecode_eq addressable claimed
    | lz77PredictorRans =>
        exact decompressIntermediate_eq addressable contract _ _ fun lzBytes short =>
          lz77Decode_eq short uncompressedSize
    | bcjZstd =>
        dsimp only
        rw [ofResult_bind]
        cases found : codecs.zstd.decompress compressedData uncompressedSize with
        | error error => rfl
        | ok original =>
            have length := (Zstd.length_decompress found).1
            rw [ofResult_ok, Result.ok_bind, Result.ok_bind, decodeX86_eq (by omega), ofResult_ok]

/-- **Chunk decoding is safe on malformed input.** Whatever payload, method, size and baseline
are given, the run meets no fault and computes the plain result, and what it accepts has the
claimed size, within the block limit. -/
theorem decompressChunk_safe (codecs : Codecs) (payload : ByteSlice)
    (method : CompressionMethod) (uncompressedSize : Nat) (dictBaseline : Option Bytes)
    (contract : Contract (Router.codingPredictor codecs dictBaseline)) :
    (∀ reason, decompressChunkWithBaseline codecs payload.bytes method uncompressedSize
        dictBaseline ≠ fault reason) ∧
      decompressChunkWithBaseline codecs payload.bytes method uncompressedSize dictBaseline =
        ofResult (AetherArch.decompressChunkWithBaseline codecs payload.bytes method
          uncompressedSize dictBaseline) ∧
      ∀ data, decompressChunkWithBaseline codecs payload.bytes method uncompressedSize
          dictBaseline = .ok data →
        data.length = uncompressedSize ∧ uncompressedSize ≤ MAX_DECOMPRESSED_BLOCK_SIZE := by
  have same : decompressChunkWithBaseline codecs payload.bytes method uncompressedSize
      dictBaseline = ofResult (AetherArch.decompressChunkWithBaseline codecs payload.bytes method
        uncompressedSize dictBaseline) :=
    decompressChunk_eq payload.addressable contract method
  refine ⟨fun reason => ?_, same, fun data success => ?_⟩
  · rw [same]
    exact ofResult_ne_fault _ reason
  · rw [same] at success
    exact length_decompressChunk (ofResult_eq_ok.mp success)

/-- A payload of the block-sorting route with a primary index out of every range and a zero run
longer than the chunk. -/
def overlongRun : ByteSlice where
  bytes := [2, 255, 255, 255, 255, 9, 0, 0, 0, 0, 0, 0, 0, 0]
  addressable := by decide

/-- The overlong run is refused where it is found, after nine symbols of the range coder. -/
theorem decompressChunk_safe_overlong :
    let run := decompressChunkWithBaseline Router.referenceCodecs overlongRun.bytes
      .bwtPredictorRans 64 none
    run = refuse
        (.decompression "RLE zero-run length 511 exceeds remaining output capacity 64") ∧
      (∀ reason, run ≠ fault reason) ∧
      run = ofResult (AetherArch.decompressChunkWithBaseline Router.referenceCodecs
        overlongRun.bytes .bwtPredictorRans 64 none) ∧
      ∀ data, run = .ok data → data.length = 64 ∧ 64 ≤ MAX_DECOMPRESSED_BLOCK_SIZE := by
  intro run
  obtain ⟨safe, same, sized⟩ := decompressChunk_safe Router.referenceCodecs overlongRun
    .bwtPredictorRans 64 none Router.referenceCodecs_sound.contract
  have refused : AetherArch.decompressChunkWithBaseline Router.referenceCodecs overlongRun.bytes
      .bwtPredictorRans 64 none = .error
        (.decompression "RLE zero-run length 511 exceeds remaining output capacity 64") := by
    decide +kernel
  refine ⟨?_, safe, same, sized⟩
  rw [refused] at same
  exact same

end Machine

end AetherArch
