import AetherArch.Coding.Rans
import AetherArch.Library.Checked

/-! # Range decoding by machine steps

The decoder's divisions, products and differences of 32-bit words, checked. Under the
predictor contract every interval contains the frequency it was resolved from, so none of
them leaves its word, whatever bytes are decoded and however early they end.
-/

namespace AetherArch

open Checked ProbabilityPredictor

namespace Machine

/-! ## The decoder -/

def readByte (decoder : RangeDecoder) : Run AetherError (UInt8 × RangeDecoder) :=
  if decoder.pos < decoder.input.length then do
    let byte ← index decoder.input decoder.pos
    let pos ← add 64 decoder.pos 1
    .ok (byte, { decoder with pos := pos })
  else do
    let eofOverread ← add 64 decoder.eofOverread 1
    .ok (0, { decoder with eofOverread := eofOverread })

/-- Shift the next byte into the code. -/
def shiftIn (decoder : RangeDecoder) : Run AetherError RangeDecoder := do
  let (byte, next) ← readByte decoder
  .ok { next with code := (decoder.code <<< 8) % 2 ^ 32 ||| byte.toNat }

/-- A decoder whose code is the first five bytes of the data. -/
def newDecoder (data : Bytes) : Run AetherError RangeDecoder :=
  forRange (fun _ => shiftIn) 0 5
    { code := 0, range := 0xFFFFFFFF, input := data, pos := 0, eofOverread := 0 }

/-- The scale factor, and the cumulative frequency the next symbol's interval must contain. -/
def decodeFreq (decoder : RangeDecoder) : Run AetherError (Nat × Nat) := do
  let r ← div decoder.range PROB_TOTAL
  let freq ← div decoder.code r
  .ok (r, min freq (PROB_TOTAL - 1))

/-- One round of the renormalization loop. -/
def renormRound (decoder : RangeDecoder) : Run AetherError (Round RangeDecoder RangeDecoder) :=
  if decoder.range < TOP then do
    let next ← shiftIn decoder
    .ok (.next { next with range := (decoder.range <<< 8) % 2 ^ 32 })
  else .ok (.done decoder)

/-- Consume the resolved symbol's interval. -/
def advance (decoder : RangeDecoder) (r : Nat) (cdfLo cdfHi : UInt16) :
    Run AetherError RangeDecoder := do
  let symFreq ← sub cdfHi.toNat cdfLo.toNat
  let low ← mul 32 cdfLo.toNat r
  let code ← sub decoder.code low
  let range ← mul 32 symFreq r
  loop renormRound (RangeEncoder.renormFuel + 1) { decoder with code := code, range := range }

/-- The part of `advance` before the renormalization loop. -/
def narrow (decoder : RangeDecoder) (r : Nat) (cdfLo cdfHi : UInt16) :
    Run AetherError RangeDecoder := do
  let symFreq ← sub cdfHi.toNat cdfLo.toNat
  let low ← mul 32 cdfLo.toNat r
  let code ← sub decoder.code low
  let range ← mul 32 symFreq r
  .ok { decoder with code := code, range := range }

variable {σ : Type} [ProbabilityPredictor σ]

/-- Decode a number of bytes in turn. -/
def decodeSymbols : Nat → RangeDecoder → σ → Run AetherError (Bytes × RangeDecoder × σ)
  | 0, decoder, predictor => .ok ([], decoder, predictor)
  | count + 1, decoder, predictor => do
      let (r, freq) ← decodeFreq decoder
      let ((byte, lo, hi), resolved) := decodeSymbol predictor freq
      let decoder ← advance decoder r lo hi
      let (data, last, final) ← decodeSymbols count decoder (update resolved byte)
      .ok (byte :: data, last, final)

/-- Decode a block from compressed bytes back to the original data. -/
def decodeBlock (compressed : Bytes) (expectedLen : Nat) (predictor : σ) :
    Run AetherError Bytes :=
  if expectedLen = 0 then .ok []
  else if compressed.isEmpty then
    refuse (.decompression "Empty compressed data for non-zero expected length")
  else if expectedLen > Rans.MAX_DECODE_SIZE then
    refuse (.decompression
      s!"Decode size {expectedLen} exceeds safety limit {Rans.MAX_DECODE_SIZE}")
  else do
    let decoder ← newDecoder compressed
    let (output, decoder, _) ← decodeSymbols expectedLen decoder (reset predictor)
    if decoder.eofOverread > Rans.MAX_NORMAL_OVERREAD then
      refuse (.decompression
        s!"Range decoder read {decoder.eofOverread} bytes past end of input (truncated stream?)")
    else .ok output

/-! ## No fault -/

/-- A decoder between two symbols, before which it has read so many zeros past the end. -/
structure Steady (overread : Nat) (decoder : RangeDecoder) : Prop where
  top_le : TOP ≤ decoder.range
  range_lt : decoder.range < 2 ^ 32
  addressable : decoder.input.length < 2 ^ 63
  overread_le : decoder.eofOverread ≤ overread

theorem shiftIn_eq {decoder : RangeDecoder} (addressable : decoder.input.length < 2 ^ 63)
    (few : decoder.eofOverread < 2 ^ 63) :
    shiftIn decoder = .ok decoder.shiftIn ∧ decoder.shiftIn.input = decoder.input ∧
      decoder.shiftIn.range = decoder.range ∧
      decoder.shiftIn.eofOverread ≤ decoder.eofOverread + 1 := by
  rw [shiftIn, readByte, RangeDecoder.shiftIn, RangeDecoder.readByte]
  by_cases inside : decoder.pos < decoder.input.length
  · rw [if_pos inside, index_of_lt inside, Result.ok_bind, add_of_lt (by omega), Result.ok_bind,
      List.getElem?_eq_getElem inside]
    exact ⟨rfl, rfl, rfl, Nat.le_succ _⟩
  · rw [if_neg inside, add_of_lt (by omega), Result.ok_bind,
      List.getElem?_eq_none (not_lt.mp inside)]
    exact ⟨rfl, rfl, rfl, le_rfl⟩

/-- A new decoder reads five bytes, or as many zeros. -/
theorem newDecoder_eq {data : Bytes} (addressable : data.length < 2 ^ 63) :
    newDecoder data = .ok (RangeDecoder.new data) ∧ Steady 5 (RangeDecoder.new data) := by
  obtain ⟨decoder, ran, same, input, range, overread⟩ := @forRange_ends AetherError RangeDecoder
    (fun _ => shiftIn)
    (fun i decoder => decoder = RangeDecoder.shiftIn^[i]
        { code := 0, range := 0xFFFFFFFF, input := data, pos := 0, eofOverread := 0 } ∧
      decoder.input = data ∧ decoder.range = 0xFFFFFFFF ∧ decoder.eofOverread ≤ i)
    0 5 { code := 0, range := 0xFFFFFFFF, input := data, pos := 0, eofOverread := 0 } (by
      rintro i decoder - below ⟨same, input, range, overread⟩
      obtain ⟨shifted, inputKept, rangeKept, more⟩ :=
        shiftIn_eq (show decoder.input.length < 2 ^ 63 by rw [input]; exact addressable) (by omega)
      refine ⟨_, shifted, ?_, inputKept.trans input, rangeKept.trans range, by omega⟩
      rw [Function.iterate_succ_apply', ← same])
    ⟨rfl, rfl, rfl, le_rfl⟩
  have new : decoder = RangeDecoder.new data := same
  rw [newDecoder, ran, ← new]
  refine ⟨rfl, ?_, ?_, ?_, overread⟩
  · rw [range]
    decide
  · rw [range]
    decide
  · rw [input]
    exact addressable

/-- **The renormalization loop ends**: a positive range passes `TOP` within its rounds. -/
theorem renormalize_ends {fuel : Nat} {decoder : RangeDecoder}
    (reaches : TOP ≤ decoder.range * 256 ^ fuel) (small : decoder.range < 2 ^ 32)
    (addressable : decoder.input.length < 2 ^ 63) (few : decoder.eofOverread + fuel < 2 ^ 63) :
    loop renormRound (fuel + 1) decoder = .ok (decoder.renormalize fuel) ∧
      Steady (decoder.eofOverread + fuel) (decoder.renormalize fuel) := by
  induction fuel generalizing decoder with
  | zero =>
      rw [Nat.pow_zero, Nat.mul_one] at reaches
      have settled : ¬decoder.range < TOP := not_lt.mpr reaches
      rw [loop, renormRound, if_neg settled]
      exact ⟨rfl, reaches, small, addressable, le_rfl⟩
  | succ fuel recurse =>
      rw [loop, renormRound, RangeDecoder.renormalize]
      by_cases low : decoder.range < TOP
      · obtain ⟨shifted, input, -, more⟩ := shiftIn_eq addressable (by omega)
        have top : TOP = 2 ^ 24 := rfl
        have scaled : (decoder.range <<< 8) % 2 ^ 32 = decoder.range * 256 := by
          rw [Nat.shiftLeft_eq]
          exact Nat.mod_eq_of_lt (by omega)
        obtain ⟨ran, steady⟩ := @recurse decoder.renormRound
          (by
            change TOP ≤ (decoder.range <<< 8) % 2 ^ 32 * 256 ^ fuel
            rw [scaled, Nat.mul_assoc, ← Nat.pow_succ']
            exact reaches)
          (by
            change (decoder.range <<< 8) % 2 ^ 32 < 2 ^ 32
            exact Nat.mod_lt _ (Nat.two_pow_pos 32))
          (by
            change decoder.shiftIn.input.length < 2 ^ 63
            rw [input]
            exact addressable)
          (by
            change decoder.shiftIn.eofOverread + fuel < 2 ^ 63
            omega)
        rw [if_pos low, if_pos low, shifted, Result.ok_bind, Result.ok_bind]
        refine ⟨ran, steady.top_le, steady.range_lt, steady.addressable, ?_⟩
        have := steady.overread_le
        change _ ≤ decoder.shiftIn.eofOverread + fuel at this
        omega
      · rw [if_neg low, if_neg low]
        exact ⟨rfl, not_lt.mp low, small, addressable, Nat.le_add_right _ _⟩

theorem decodeFreq_eq {decoder : RangeDecoder} (above : TOP ≤ decoder.range) :
    decodeFreq decoder = .ok decoder.decodeFreq ∧ 0 < decoder.decodeFreq.1 ∧
      decoder.decodeFreq.1 * PROB_TOTAL ≤ decoder.range ∧ decoder.decodeFreq.2 < PROB_TOTAL ∧
      decoder.decodeFreq.2 * decoder.decodeFreq.1 ≤ decoder.code := by
  have total : PROB_TOTAL = 2 ^ 15 := rfl
  have top : TOP = 2 ^ 24 := rfl
  have positive : 0 < decoder.range / PROB_TOTAL :=
    Nat.div_pos (by omega) (by omega)
  refine ⟨?_, positive, Nat.div_mul_le_self _ _, ?_, ?_⟩
  · rw [decodeFreq, div_of_pos (by omega), Result.ok_bind, div_of_pos positive, Result.ok_bind]
    rfl
  · exact (Nat.min_le_right _ _).trans_lt (by omega)
  · exact (Nat.mul_le_mul_right _ (Nat.min_le_left _ _)).trans (Nat.div_mul_le_self _ _)

/-- **Narrowing to an interval meets no fault** when it contains the frequency, and leaves a range
that renormalization ends with. -/
theorem narrow_eq {decoder : RangeDecoder} (top : TOP ≤ decoder.range)
    (rangeLt : decoder.range < 2 ^ 32) {cdfLo cdfHi : UInt16}
    (above : cdfLo.toNat ≤ decoder.decodeFreq.2) (below : decoder.decodeFreq.2 < cdfHi.toNat)
    (total : cdfHi.toNat ≤ PROB_TOTAL) :
    narrow decoder decoder.decodeFreq.1 cdfLo cdfHi =
        .ok (decoder.narrow decoder.decodeFreq.1 cdfLo cdfHi) ∧
      TOP ≤ (decoder.narrow decoder.decodeFreq.1 cdfLo cdfHi).range *
        256 ^ RangeEncoder.renormFuel ∧
      (decoder.narrow decoder.decodeFreq.1 cdfLo cdfHi).range < 2 ^ 32 := by
  obtain ⟨-, positive, scaled, -, freqLe⟩ := decodeFreq_eq top
  generalize decoder.decodeFreq.1 = r at positive scaled freqLe ⊢
  generalize decoder.decodeFreq.2 = freq at above below freqLe
  have size : (cdfHi - cdfLo).toNat = cdfHi.toNat - cdfLo.toNat :=
    UInt16.toNat_sub_of_le _ _ (UInt16.le_iff_toNat_le.mpr (above.trans below.le))
  have lowLe : cdfLo.toNat * r ≤ freq * r := Nat.mul_le_mul_right _ above
  have within : cdfLo.toNat * r ≤ decoder.range := by
    calc cdfLo.toNat * r ≤ PROB_TOTAL * r :=
          Nat.mul_le_mul_right _ ((above.trans below.le).trans total)
      _ = r * PROB_TOTAL := Nat.mul_comm _ _
      _ ≤ decoder.range := scaled
  have share : (cdfHi.toNat - cdfLo.toNat) * r ≤ decoder.range := by
    calc (cdfHi.toNat - cdfLo.toNat) * r ≤ PROB_TOTAL * r :=
          Nat.mul_le_mul_right _ ((Nat.sub_le _ _).trans total)
      _ = r * PROB_TOTAL := Nat.mul_comm _ _
      _ ≤ decoder.range := scaled
  have shared : 1 ≤ (cdfHi.toNat - cdfLo.toNat) * r :=
    Nat.mul_pos (Nat.sub_pos_of_lt (above.trans_lt below)) positive
  refine ⟨?_, ?_, ?_⟩
  · unfold narrow RangeDecoder.narrow
    rw [sub_of_le (above.trans below.le), Result.ok_bind, mul_of_lt (within.trans_lt rangeLt),
      Result.ok_bind, sub_of_le (lowLe.trans freqLe), Result.ok_bind,
      mul_of_lt (share.trans_lt rangeLt), Result.ok_bind, size]
  · change TOP ≤ (cdfHi - cdfLo).toNat * r * 256 ^ 4
    have scale : TOP = 2 ^ 24 := rfl
    rw [size]
    omega
  · change (cdfHi - cdfLo).toNat * r < 2 ^ 32
    rw [size]
    exact share.trans_lt rangeLt

/-- What `advance` does is to narrow and to renormalize. -/
theorem advance_of_narrow {decoder narrowed : RangeDecoder} {r : Nat} {cdfLo cdfHi : UInt16}
    (ran : narrow decoder r cdfLo cdfHi = .ok narrowed) :
    advance decoder r cdfLo cdfHi = loop renormRound (RangeEncoder.renormFuel + 1) narrowed := by
  unfold narrow at ran
  obtain ⟨symFreq, size, ran⟩ := Result.bind_eq_ok.mp ran
  obtain ⟨low, product, ran⟩ := Result.bind_eq_ok.mp ran
  obtain ⟨code, difference, ran⟩ := Result.bind_eq_ok.mp ran
  obtain ⟨range, share, ran⟩ := Result.bind_eq_ok.mp ran
  cases ran
  unfold advance
  rw [size, Result.ok_bind, product, Result.ok_bind, difference, Result.ok_bind, share,
    Result.ok_bind]

/-- **Consuming an interval meets no fault** when it contains the frequency. -/
theorem advance_eq {overread : Nat} {decoder : RangeDecoder} (steady : Steady overread decoder)
    (few : overread + RangeEncoder.renormFuel < 2 ^ 63) {cdfLo cdfHi : UInt16}
    (above : cdfLo.toNat ≤ decoder.decodeFreq.2) (below : decoder.decodeFreq.2 < cdfHi.toNat)
    (total : cdfHi.toNat ≤ PROB_TOTAL) :
    advance decoder decoder.decodeFreq.1 cdfLo cdfHi =
        .ok (decoder.advance decoder.decodeFreq.1 cdfLo cdfHi) ∧
      Steady (overread + RangeEncoder.renormFuel)
        (decoder.advance decoder.decodeFreq.1 cdfLo cdfHi) := by
  obtain ⟨ran, reaches, small⟩ := narrow_eq steady.top_le steady.range_lt above below total
  have overreadLe := steady.overread_le
  obtain ⟨renormalized, next⟩ := renormalize_ends reaches small steady.addressable
    (show decoder.eofOverread + RangeEncoder.renormFuel < 2 ^ 63 by omega)
  rw [advance_of_narrow ran]
  exact ⟨renormalized, next.top_le, next.range_lt, next.addressable,
    next.overread_le.trans (Nat.add_le_add_right overreadLe _)⟩

/-- **Decoding symbols meets no fault** under the predictor contract. -/
theorem decodeSymbols_eq {count overread : Nat} {decoder : RangeDecoder} {predictor : σ}
    (contract : Contract predictor) (steady : Steady overread decoder)
    (few : overread + RangeEncoder.renormFuel * count < 2 ^ 63) :
    decodeSymbols count decoder predictor = .ok (Rans.decodeSymbols count decoder predictor) := by
  induction count generalizing overread decoder predictor with
  | zero => rfl
  | succ count recurse =>
      rw [Nat.mul_succ] at few
      obtain ⟨resolved, -, -, inside, -⟩ := decodeFreq_eq steady.top_le
      have coherent := contract predictor .start
      obtain ⟨symbol, ⟨above, below⟩, -, decoded⟩ := coherent.routesAgree.decode_eq _ inside
      obtain ⟨ran, next⟩ := advance_eq steady (by omega) above below
        (coherent.upper_le_total symbol)
      have later : Contract (update (decodeSymbol predictor decoder.decodeFreq.2).2 symbol) :=
        contract.of_reachable ((Reachable.start.decode _ inside).update _)
      rw [decodeSymbols, resolved, Result.ok_bind, Rans.decodeSymbols]
      dsimp only
      generalize decodeSymbol predictor decoder.decodeFreq.2 = found at decoded later ⊢
      obtain ⟨⟨byte, lo, hi⟩, after⟩ := found
      cases decoded
      dsimp only at later ⊢
      rw [ran, Result.ok_bind, recurse later next (by omega), Result.ok_bind]

/-- **Range decoding meets no fault** under the predictor contract. -/
theorem decodeBlock_eq {compressed : Bytes} (addressable : compressed.length < 2 ^ 63)
    (expectedLen : Nat) {predictor : σ} (contract : Contract predictor) :
    decodeBlock compressed expectedLen predictor =
      ofResult (Rans.decodeBlock compressed expectedLen predictor).1 := by
  rw [decodeBlock, Rans.decodeBlock, Rans.decodeBlockInner]
  by_cases zero : expectedLen = 0
  · rw [if_pos zero, if_pos zero, ofResult_ok]
  · rw [if_neg zero, if_neg zero]
    by_cases empty : compressed.isEmpty
    · rw [if_pos empty, if_pos empty, ofResult_error]
    · rw [if_neg empty, if_neg empty]
      by_cases large : expectedLen > Rans.MAX_DECODE_SIZE
      · rw [if_pos large, if_pos large, ofResult_error]
      · rw [if_neg large, if_neg large]
        have limit : Rans.MAX_DECODE_SIZE = 64 * 1024 * 1024 := rfl
        have fuel : RangeEncoder.renormFuel = 4 := rfl
        obtain ⟨opened, steady⟩ := newDecoder_eq addressable
        have restarted : Contract (reset predictor) := contract.of_reachable Reachable.start.reset
        have ran := decodeSymbols_eq restarted steady
          (show 5 + RangeEncoder.renormFuel * expectedLen < 2 ^ 63 by rw [fuel]; omega)
        rw [opened, Result.ok_bind, ran, Result.ok_bind, Rans.blockStart, if_pos rfl]
        dsimp only
        split
        · rfl
        · rfl

end Machine

end AetherArch
