import AetherArch.Entropy.Traits

/-! # Byte-aligned range coder

The encoder keeps the interval `[low, low + range)` and shifts out resolved top
bytes; a byte that a carry may still change is held back in `cache`, with the
`0xFF` bytes behind it only counted. The decoder follows the same intervals from
the byte stream.
-/

namespace AetherArch

/-- Range is renormalized when it drops below this threshold. -/
def TOP : Nat := 1 <<< 24

/-- Byte-aligned range encoder with carry propagation. -/
structure RangeEncoder where
  low : Nat
  range : Nat
  cache : UInt8
  cacheSize : Nat
  output : Bytes
  cacheOverflow : Bool
  deriving DecidableEq

namespace RangeEncoder

def new : RangeEncoder where
  low := 0
  range := 0xFFFFFFFF
  cache := 0
  cacheSize := 1
  output := []
  cacheOverflow := false

/-- Emit the held-back bytes with the carry `lowHi`, and hold back the next one. -/
def flushCache (encoder : RangeEncoder) (lowHi : UInt8) : RangeEncoder :=
  { encoder with
    output := encoder.output ++ (encoder.cache + lowHi) ::
      List.replicate (encoder.cacheSize - 1) (0xFF + lowHi)
    cache := UInt8.ofNat (encoder.low >>> 24)
    cacheSize := 0 }

/-- Flag the stream as corrupt when the held-back run grows past its cap. -/
def capCache (encoder : RangeEncoder) : RangeEncoder :=
  if encoder.cacheSize > 1 <<< 24 then
    { encoder with
      cacheOverflow := true
      output := encoder.output ++ encoder.cache :: List.replicate (encoder.cacheSize - 2) 0xFF
      cache := UInt8.ofNat (encoder.low >>> 24)
      cacheSize := 1 }
  else encoder

/-- Carry-propagating byte output. -/
def shiftLow (encoder : RangeEncoder) : RangeEncoder :=
  let lowHi := UInt8.ofNat (encoder.low >>> 32)
  let flushed :=
    if encoder.low % 2 ^ 32 < 0xFF000000 ∨ lowHi ≠ 0 then encoder.flushCache lowHi else encoder
  let capped := capCache { flushed with cacheSize := flushed.cacheSize + 1 }
  { capped with low := ((encoder.low % 2 ^ 32) <<< 8) % 2 ^ 32 }

/-- One round of the renormalization loop. -/
def renormRound (encoder : RangeEncoder) : RangeEncoder :=
  { encoder.shiftLow with range := (encoder.range <<< 8) % 2 ^ 32 }

/-- The renormalization loop: shift out top bytes while the range is below `TOP`.
The range is a positive 32-bit number, so it passes `TOP` within three rounds. -/
def renormalize : (fuel : Nat) → RangeEncoder → RangeEncoder
  | 0, encoder => encoder
  | fuel + 1, encoder =>
      if encoder.range < TOP then renormalize fuel encoder.renormRound else encoder

/-- Rounds of the renormalization loop. -/
def renormFuel : Nat := 4

/-- Narrow the interval to a symbol's share of it. -/
def narrow (encoder : RangeEncoder) (cdfLo cdfHi : UInt16) : RangeEncoder :=
  let cum := cdfLo.toNat
  let freq := (cdfHi - cdfLo).toNat
  let r := encoder.range / PROB_TOTAL
  { encoder with low := encoder.low + cum * r, range := freq * r }

/-- Encode a symbol given only its `(cdfLo, cdfHi)` interval. -/
def encodeInterval (encoder : RangeEncoder) (cdfLo cdfHi : UInt16) : RangeEncoder :=
  renormalize renormFuel (encoder.narrow cdfLo cdfHi)

/-- Encode a symbol given its CDF table. -/
def encodeCdf (encoder : RangeEncoder) (symbol : UInt8) (cdf : Cdf) : RangeEncoder :=
  encoder.encodeInterval (cdf.lower symbol) (cdf.upper symbol)

/-- Flush the remaining state and return the byte stream. -/
def finish (encoder : RangeEncoder) : Except String Bytes :=
  let flushed := shiftLow^[5] encoder
  if flushed.cacheOverflow then
    .error "range encoder cache overflow: pathological predictor produced corrupt output"
  else .ok flushed.output

end RangeEncoder

/-- Byte-aligned range decoder. -/
structure RangeDecoder where
  code : Nat
  range : Nat
  input : Bytes
  pos : Nat
  /-- Virtual zero bytes consumed past the end of the input. -/
  eofOverread : Nat
  deriving DecidableEq

namespace RangeDecoder

def readByte (decoder : RangeDecoder) : UInt8 × RangeDecoder :=
  match decoder.input[decoder.pos]? with
  | some byte => (byte, { decoder with pos := decoder.pos + 1 })
  | none => (0, { decoder with eofOverread := decoder.eofOverread + 1 })

/-- Shift the next byte into the code. -/
def shiftIn (decoder : RangeDecoder) : RangeDecoder :=
  let (byte, next) := decoder.readByte
  { next with code := (decoder.code <<< 8) % 2 ^ 32 ||| byte.toNat }

/-- A decoder whose code is the first five bytes of the data. -/
def new (data : Bytes) : RangeDecoder :=
  shiftIn^[5] { code := 0, range := 0xFFFFFFFF, input := data, pos := 0, eofOverread := 0 }

/-- The scale factor, and the cumulative frequency the next symbol's interval
must contain. -/
def decodeFreq (decoder : RangeDecoder) : Nat × Nat :=
  let r := decoder.range / PROB_TOTAL
  (r, min (decoder.code / r) (PROB_TOTAL - 1))

/-- One round of the decoder's renormalization loop. -/
def renormRound (decoder : RangeDecoder) : RangeDecoder :=
  { decoder.shiftIn with range := (decoder.range <<< 8) % 2 ^ 32 }

/-- The renormalization loop of the decoder. -/
def renormalize : (fuel : Nat) → RangeDecoder → RangeDecoder
  | 0, decoder => decoder
  | fuel + 1, decoder =>
      if decoder.range < TOP then renormalize fuel decoder.renormRound else decoder

/-- Narrow the interval to a resolved symbol's share of it. -/
def narrow (decoder : RangeDecoder) (r : Nat) (cdfLo cdfHi : UInt16) : RangeDecoder :=
  { decoder with code := decoder.code - cdfLo.toNat * r, range := (cdfHi - cdfLo).toNat * r }

/-- Consume the resolved symbol's interval. -/
def advance (decoder : RangeDecoder) (r : Nat) (cdfLo cdfHi : UInt16) : RangeDecoder :=
  renormalize RangeEncoder.renormFuel (decoder.narrow r cdfLo cdfHi)

/-- Decode one symbol using a CDF table. -/
def decodeCdf (decoder : RangeDecoder) (cdf : Cdf) : UInt8 × RangeDecoder :=
  let (r, freq) := decoder.decodeFreq
  let symbol := UInt8.ofNat (findSymbol cdf freq)
  (symbol, decoder.advance r (cdf.lower symbol) (cdf.upper symbol))

end RangeDecoder

/-! ## Block interface -/

namespace Rans

open ProbabilityPredictor

variable {σ : Type} [ProbabilityPredictor σ]

/-- Code the bytes of a block in turn. -/
def encodeSymbols : Bytes → RangeEncoder → σ → RangeEncoder × σ
  | [], encoder, predictor => (encoder, predictor)
  | byte :: data, encoder, predictor =>
      let ((lo, hi), queried) := queryCdf predictor byte
      encodeSymbols data (encoder.encodeInterval lo hi) (update queried byte)

/-- The predictor state a block is coded from. -/
def blockStart (predictor : σ) (reset : Bool) : σ :=
  if reset then ProbabilityPredictor.reset predictor else predictor

/-- Encode a block; the predictor is returned with the outcome. -/
def encodeBlockInner (data : Bytes) (predictor : σ) (reset : Bool) : Result Bytes × σ :=
  if data.isEmpty then (.ok [], predictor)
  else
    let (encoder, final) := encodeSymbols data RangeEncoder.new (blockStart predictor reset)
    match encoder.finish with
    | .ok output => (.ok output, final)
    | .error message => (.error (.compression message), final)

/-- Encode a block of data using predictor-guided range coding. -/
def encodeBlock (data : Bytes) (predictor : σ) : Result Bytes × σ :=
  encodeBlockInner data predictor true

/-- Encode a block without resetting the predictor first. -/
def encodeBlockContinuing (data : Bytes) (predictor : σ) : Result Bytes × σ :=
  encodeBlockInner data predictor false

/-- Maximum decodable block size. -/
def MAX_DECODE_SIZE : Nat := MAX_DECOMPRESSED_BLOCK_SIZE

/-- Up to this many virtual zero bytes past the end of the input are tolerated. -/
def MAX_NORMAL_OVERREAD : Nat := 5

/-- Decode a number of bytes in turn. -/
def decodeSymbols : Nat → RangeDecoder → σ → Bytes × RangeDecoder × σ
  | 0, decoder, predictor => ([], decoder, predictor)
  | count + 1, decoder, predictor =>
      let (r, freq) := decoder.decodeFreq
      let ((byte, lo, hi), resolved) := decodeSymbol predictor freq
      let (data, last, final) :=
        decodeSymbols count (decoder.advance r lo hi) (update resolved byte)
      (byte :: data, last, final)

/-- Decode a block; the predictor is returned with the outcome. -/
def decodeBlockInner (compressed : Bytes) (expectedLen : Nat) (predictor : σ) (reset : Bool) :
    Result Bytes × σ :=
  if expectedLen = 0 then (.ok [], predictor)
  else if compressed.isEmpty then
    (.error (.decompression "Empty compressed data for non-zero expected length"), predictor)
  else if expectedLen > MAX_DECODE_SIZE then
    (.error (.decompression
      s!"Decode size {expectedLen} exceeds safety limit {MAX_DECODE_SIZE}"), predictor)
  else
    let (output, decoder, final) :=
      decodeSymbols expectedLen (RangeDecoder.new compressed) (blockStart predictor reset)
    if decoder.eofOverread > MAX_NORMAL_OVERREAD then
      (.error (.decompression
        s!"Range decoder read {decoder.eofOverread} bytes past end of input (truncated stream?)"),
        final)
    else (.ok output, final)

/-- Decode a block from compressed bytes back to the original data. -/
def decodeBlock (compressed : Bytes) (expectedLen : Nat) (predictor : σ) : Result Bytes × σ :=
  decodeBlockInner compressed expectedLen predictor true

/-- Decode a block without resetting the predictor first. -/
def decodeBlockContinuing (compressed : Bytes) (expectedLen : Nat) (predictor : σ) :
    Result Bytes × σ :=
  decodeBlockInner compressed expectedLen predictor false

/-! ## Trials

A predictor that coded some blocks codes the next one as a fresh predictor would, when
its reset states cannot be told apart. -/

theorem encodeSymbols_reachable {data : Bytes} {encoder : RangeEncoder} {start predictor : σ}
    (reached : Reachable start predictor) :
    Reachable start (encodeSymbols data encoder predictor).2 := by
  induction data generalizing encoder predictor with
  | nil => exact reached
  | cons byte data recurse => exact recurse ((reached.query byte).update byte)

/-- Coding a block leaves the predictor in a state it can reach. -/
theorem encodeBlock_reachable (data : Bytes) {start predictor : σ}
    (reached : Reachable start predictor) : Reachable start (encodeBlock data predictor).2 := by
  have final : Reachable start
      (encodeSymbols data RangeEncoder.new (ProbabilityPredictor.reset predictor)).2 :=
    encodeSymbols_reachable reached.reset
  simp only [encodeBlock, encodeBlockInner, blockStart, ↓reduceIte]
  split
  · exact reached
  · split
    · exact final
    · exact final

/-- A block's encoding depends on what the reset state predicts only. -/
theorem encodeBlock_congr {data : Bytes} {first second : σ}
    (same : Indistinguishable (ProbabilityPredictor.reset first)
      (ProbabilityPredictor.reset second)) :
    (encodeBlock data first).1 = (encodeBlock data second).1 := by
  cases data with
  | nil => rfl
  | cons byte data =>
      have coded : encodeSymbols (byte :: data) RangeEncoder.new
          (ProbabilityPredictor.reset first) =
          encodeSymbols (byte :: data) RangeEncoder.new (ProbabilityPredictor.reset second) := by
        simp only [encodeSymbols, same.query_eq]
      simp only [encodeBlock, encodeBlockInner, blockStart, ↓reduceIte, coded]
      split
      · rfl
      · split
        · rfl
        · rfl

end Rans

end AetherArch
