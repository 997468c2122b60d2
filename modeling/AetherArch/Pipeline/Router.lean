import AetherArch.Chunker
import AetherArch.Coding.Bcj
import AetherArch.Coding.Bwt
import AetherArch.Coding.BytePlane
import AetherArch.Coding.Lz77
import AetherArch.Coding.LzPreprocess
import AetherArch.Coding.ZeroRun
import AetherArch.Coding.ZstdFallback
import AetherArch.Entropy.NeuralSsm

/-! # Adaptive routing

Decides which compression method to use per chunk. Every predictor-backed payload is coded
by a scratch predictor that is reset for every block, so several transforms can be tried
and the smallest result kept.
-/

namespace AetherArch

/-- The codecs the router calls that are not the program's own, and its arithmetic. -/
structure Codecs where
  arith : SsmArithmetic
  zstd : Zstd
  libsais : Bytes → Option (List Nat)
  decompressSizePrepended : DecompressSizePrepended

/-- Compression policy. -/
inductive CompressionProfile where
  | archival
  | balanced
  | fast
  deriving DecidableEq, Repr

/-- Result of compressing one chunk. -/
structure CompressedChunk where
  method : CompressionMethod
  data : Bytes
  originalSize : Nat
  blake3Hash : Digest
  predictorSynced : Bool
  deriving DecidableEq

namespace Router

/-- Entropy at which the block-sorting trial is skipped. -/
def BWT_ENTROPY_SKIP (format : FloatFormat) : format.Carrier := 7.0

/-- A method with the payload it produced. -/
abbrev Candidate := CompressionMethod × Bytes

/-- The best candidate so far. -/
abbrev Best := Option Candidate

/-- Whether a payload beats the best so far. -/
def isBetter (best : Best) (payload : Bytes) : Bool :=
  match best with
  | none => true
  | some (_, b) => payload.length < b.length

/-- Take a candidate when it shrinks the chunk and beats the best so far. -/
def keep (data : Bytes) (best : Best) (method : CompressionMethod) (payload : Bytes) : Best :=
  if payload.length < data.length ∧ isBetter best payload then some (method, payload) else best

variable (codecs : Codecs)

/-- The predictor every payload is coded with, seeded with the dictionary baseline. -/
def codingPredictor (dictBaseline : Option Bytes) : NeuralSsmPredictor codecs.arith :=
  match dictBaseline with
  | none => .new
  | some baseline => (NeuralSsmPredictor.new.setDictBaseline baseline).2

/-- The byte-plane trials of numeric data. -/
def numericTrials (data : Bytes) : Best :=
  match BytePlane.detectNumericWidth codecs.arith.double data with
  | some width =>
      match byteplaneEncode codecs.arith.double data width with
      | some payload =>
          if payload.length < data.length then some (.bytePlanePredictorRans, payload) else none
      | none => none
  | none =>
      [BytePlaneWidth.two, .four].foldl (fun best width =>
        if BytePlane.isBeneficial codecs.arith.double data width then
          match byteplaneEncode codecs.arith.double data width with
          | some payload => keep data best .bytePlanePredictorRans payload
          | none => best
        else best) none

/-- Code zero runs, with escapes when the largest rank occurs; the flag tells which. -/
def codeRuns (mtfData : Bytes) : Bytes × UInt8 :=
  match rleEncode mtfData with
  | some rle => (rle, 1)
  | none => (rleEncodeEscaped mtfData, 2)

/-- Try block sorting, move-to-front and zero-run coding. The payload is a flags byte, the
primary index, the coded length and the coded bytes. -/
def bwtTrial (data : Bytes) (scratch : NeuralSsmPredictor codecs.arith) :
    Best × NeuralSsmPredictor codecs.arith :=
  match bwtMtfEncodeParts codecs.libsais data with
  | .error _ => (none, scratch)
  | .ok (primaryIndex, mtfData) =>
      let (encodeData, flags) := codeRuns mtfData
      match Rans.encodeBlock encodeData scratch with
      | (.error _, scratch) => (none, scratch)
      | (.ok rcBytes, scratch) =>
          let payload := flags :: (Numeral.toLittleEndian 4 primaryIndex ++
            Numeral.toLittleEndian 4 encodeData.length ++ rcBytes)
          (if payload.length < data.length then some (.bwtPredictorRans, payload) else none,
            scratch)

/-- Try LZ77. The payload is the intermediate length and the coded bytes. -/
def lz77Trial (data : Bytes) (best : Best) (scratch : NeuralSsmPredictor codecs.arith) :
    Best × NeuralSsmPredictor codecs.arith :=
  match lz77Encode data with
  | none => (best, scratch)
  | some lzBytes =>
      match Rans.encodeBlock lzBytes scratch with
      | (.error _, scratch) => (best, scratch)
      | (.ok rcBytes, scratch) =>
          (keep data best .lz77PredictorRans (Numeral.toLittleEndian 4 lzBytes.length ++ rcBytes),
            scratch)

/-- Try byte-plane splitting of data that is not declared numeric. -/
def byteplaneTrial (data : Bytes) (best : Best) : Best :=
  match BytePlane.detectNumericWidth codecs.arith.double data with
  | none => best
  | some width =>
      match byteplaneEncode codecs.arith.double data width with
      | none => best
      | some payload => keep data best .bytePlanePredictorRans payload

/-- Try the range coder on the data itself. -/
def plainTrial (data : Bytes) (scratch : NeuralSsmPredictor codecs.arith) : Best :=
  match (Rans.encodeBlock data scratch).1 with
  | .error _ => none
  | .ok rcBytes => if rcBytes.length < data.length then some (.predictorRans, rcBytes) else none

/-- The block-sorting trial, skipped for short chunks and for high entropy. -/
def bwtStage (chunk : ChunkRef codecs.arith.double) (scratch : NeuralSsmPredictor codecs.arith) :
    Best × NeuralSsmPredictor codecs.arith :=
  if chunk.data.length ≥ 8 ∧ chunk.entropy < BWT_ENTROPY_SKIP codecs.arith.double then
    bwtTrial codecs chunk.data scratch
  else (none, scratch)

/-- Whether block sorting won by so much that LZ77 is not tried. -/
def bwtDecisive (data : Bytes) (best : Best) : Bool :=
  match best with
  | none => false
  | some (_, b) => !data.isEmpty && b.length < data.length / 100 * BWT_DECISIVE_RATIO

/-- The LZ77 trial after the block-sorting trial. -/
def lz77Stage (data : Bytes) (sorted : Best × NeuralSsmPredictor codecs.arith) :
    Best × NeuralSsmPredictor codecs.arith :=
  if bwtDecisive data sorted.1 then sorted else lz77Trial codecs data sorted.1 sorted.2

/-- The byte-plane trial, for content neither declared numeric nor text. -/
def byteplaneStage (data : Bytes) (contentType : ContentType) (best : Best) : Best :=
  if contentType ≠ .numericData ∧ contentType ≠ .text then byteplaneTrial codecs data best
  else best

/-- The trials that share one scratch predictor. -/
def neuralTrials (chunk : ChunkRef codecs.arith.double) (dictBaseline : Option Bytes)
    (contentType : ContentType) : Best :=
  let tried := lz77Stage codecs chunk.data
    (bwtStage codecs chunk (codingPredictor codecs dictBaseline))
  match byteplaneStage codecs chunk.data contentType tried.1 with
  | some candidate => some candidate
  | none => plainTrial codecs chunk.data tried.2

/-- Zstandard, or the data as it is. -/
def tryZstdOrStore (data : Bytes) : Candidate :=
  match codecs.zstd.compress data with
  | .ok zstdBytes =>
      if zstdBytes.length < data.length then (.zstd, zstdBytes) else (.store, data)
  | .error _ => (.store, data)

/-- The candidate of the predictor route, and whether the predictor counts as synced. -/
def predictorRoute (chunk : ChunkRef codecs.arith.double) (dictBaseline : Option Bytes)
    (contentType : ContentType) : Candidate × Bool :=
  let isNumeric : Bool := contentType = .numericData
  let numeric := if isNumeric then numericTrials codecs chunk.data else none
  let numericByteplaneWon := isNumeric && numeric.isSome
  let skipNeuralTrials := numericByteplaneWon ||
    (isNumeric && decide (Analyzer.HIGH_ENTROPY_THRESHOLD codecs.arith.double < chunk.entropy))
  let best :=
    if skipNeuralTrials then numeric else neuralTrials codecs chunk dictBaseline contentType
  match best with
  | some (method, payload) =>
      ((method, payload), !(method = .bwtPredictorRans ∨ method = .bytePlanePredictorRans))
  | none => (tryZstdOrStore codecs chunk.data, true)

/-- The branch-normalized candidate of an executable. -/
def bcjCandidate (data : Bytes) (contentType : ContentType) : Best :=
  if contentType = .executable then
    match Bcj.encodeX86 data with
    | none => none
    | some transformed =>
        match codecs.zstd.compress transformed with
        | .error _ => none
        | .ok compressed =>
            if compressed.length < data.length then some (.bcjZstd, compressed) else none
  else none

/-- The route that tries Zstandard only. -/
def fastRoute (data : Bytes) (contentType : ContentType) : Result Candidate := do
  let zstd ← codecs.zstd.compress data
  let best : Candidate := if zstd.length < data.length then (.zstd, zstd) else (.store, data)
  if contentType = .executable then
    match Bcj.encodeX86 data with
    | none => .ok best
    | some transformed =>
        let compressed ← codecs.zstd.compress transformed
        .ok (if compressed.length < best.2.length then (.bcjZstd, compressed) else best)
  else .ok best

/-- The route by the recommended method. -/
def methodRoute (chunk : ChunkRef codecs.arith.double) (dictBaseline : Option Bytes)
    (contentType : ContentType) : Result (Candidate × Bool) :=
  match Analyzer.recommendMethodFor chunk.entropy contentType with
  | .predictorRans => .ok (predictorRoute codecs chunk dictBaseline contentType)
  | .zstd => do
      let compressed ← codecs.zstd.compress chunk.data
      .ok (if compressed.length ≥ chunk.data.length then (.store, chunk.data)
        else (.zstd, compressed), true)
  | .store => .ok ((.store, chunk.data), true)

/-- Whether only the fast route is tried. -/
def usesFastRoute (profile : CompressionProfile) (contentType : ContentType) : Bool :=
  profile = .fast ∨ profile = .balanced ∧
    (contentType = .binaryStructured ∨ contentType = .binaryRandom ∨ contentType = .image ∨
      contentType = .executable)

end Router

open Router

/-- Compress a chunk with the best method, given the dictionary baseline. -/
def compressChunkWithBaseline (codecs : Codecs) (chunk : ChunkRef codecs.arith.double)
    (dictBaseline : Option Bytes) (contentType : ContentType) (profile : CompressionProfile) :
    Result CompressedChunk := do
  let finish (candidate : Candidate) (synced : Bool) : CompressedChunk :=
    { method := candidate.1, data := candidate.2, originalSize := chunk.length
      blake3Hash := chunk.blake3Hash, predictorSynced := synced }
  if usesFastRoute profile contentType then
    let best ← fastRoute codecs chunk.data contentType
    .ok (finish best false)
  else
    let (best, synced) ← methodRoute codecs chunk dictBaseline contentType
    match bcjCandidate codecs chunk.data contentType with
    | some candidate =>
        .ok (if candidate.2.length < best.2.length then finish candidate false
          else finish best synced)
    | none => .ok (finish best synced)

namespace Router

variable (codecs : Codecs)

/-- Decode a payload of the block-sorting route. -/
def decompressBwt (compressedData : Bytes) (uncompressedSize : Nat)
    (dictBaseline : Option Bytes) : Result Bytes :=
  match compressedData with
  | flags :: rest => do
      if compressedData.length < 9 then
        .error (.decompression (s!"BwtPredictorRans payload too short: {compressedData.length} "
          ++ s!"bytes (need ≥9, uncompressed_size={uncompressedSize})"))
      else if flags > 2 then
        .error (.decompression
          s!"BwtPredictorRans: invalid flags byte 0x{hexDigits 2 flags.toNat}")
      else
        let primaryIndex := Numeral.littleEndian (rest.take 4)
        let encodedLen := Numeral.littleEndian ((rest.drop 4).take 4)
        if encodedLen > MAX_DECOMPRESSED_BLOCK_SIZE then
          .error (.resourceLimitExceeded (s!"BWT encoded_len {encodedLen} exceeds safety limit "
            ++ s!"{MAX_DECOMPRESSED_BLOCK_SIZE} (uncompressed_size={uncompressedSize})"))
        else
          let encodeData ←
            (Rans.decodeBlock (rest.drop 8) encodedLen (codingPredictor codecs dictBaseline)).1
          let mtfData ←
            if flags = 2 then rleDecodeEscaped encodeData uncompressedSize
            else if flags = 1 then rleDecode encodeData uncompressedSize
            else .ok encodeData
          bwtMtfDecodeParts primaryIndex mtfData uncompressedSize
  | [] =>
      .error (.decompression (s!"BwtPredictorRans payload too short: {compressedData.length} "
        ++ s!"bytes (need ≥9, uncompressed_size={uncompressedSize})"))

/-- Decode a payload that holds an intermediate length and a coded intermediate stream. -/
def decompressIntermediate (label limitLabel : String) (decode : Bytes → Nat → Result Bytes)
    (compressedData : Bytes) (uncompressedSize : Nat) (dictBaseline : Option Bytes) :
    Result Bytes := do
  if compressedData.length < 4 then
    .error (.decompression (s!"{label} payload too short: {compressedData.length} bytes "
      ++ s!"(need ≥4, uncompressed_size={uncompressedSize})"))
  else
    let lzLen := Numeral.littleEndian (compressedData.take 4)
    if lzLen > MAX_DECOMPRESSED_BLOCK_SIZE then
      .error (.resourceLimitExceeded (s!"{limitLabel} intermediate len {lzLen} exceeds safety "
        ++ s!"limit {MAX_DECOMPRESSED_BLOCK_SIZE} (uncompressed_size={uncompressedSize})"))
    else
      let lzBytes ←
        (Rans.decodeBlock (compressedData.drop 4) lzLen (codingPredictor codecs dictBaseline)).1
      decode lzBytes uncompressedSize

end Router

/-- Decompress a chunk by its stored method, given the dictionary baseline. -/
def decompressChunkWithBaseline (codecs : Codecs) (compressedData : Bytes)
    (method : CompressionMethod) (uncompressedSize : Nat) (dictBaseline : Option Bytes) :
    Result Bytes :=
  if uncompressedSize > MAX_DECOMPRESSED_BLOCK_SIZE then
    .error (.resourceLimitExceeded (s!"Decompressed block size {uncompressedSize} exceeds "
      ++ s!"maximum {MAX_DECOMPRESSED_BLOCK_SIZE} bytes"))
  else
    match method with
    | .bcjZstd => do
        let original ← codecs.zstd.decompress compressedData uncompressedSize
        .ok (Bcj.decodeX86 original)
    | .bytePlanePredictorRans => byteplaneDecode compressedData uncompressedSize
    | .bwtPredictorRans => decompressBwt codecs compressedData uncompressedSize dictBaseline
    | .lz77PredictorRans =>
        decompressIntermediate codecs "Lz77PredictorRans" "LZ77" lz77Decode compressedData
          uncompressedSize dictBaseline
    | .lzPredictorRans =>
        decompressIntermediate codecs "LzPredictorRans" "LZ4"
          (lzDecode codecs.decompressSizePrepended) compressedData uncompressedSize dictBaseline
    | .predictorRans =>
        (Rans.decodeBlock compressedData uncompressedSize (codingPredictor codecs dictBaseline)).1
    | .zstd => codecs.zstd.decompress compressedData uncompressedSize
    | .store =>
        if compressedData.length ≠ uncompressedSize then
          .error (.decompression (s!"Store block size mismatch: payload is {compressedData.length} "
            ++ s!"bytes but uncompressed_size is {uncompressedSize}"))
        else .ok compressedData

end AetherArch
