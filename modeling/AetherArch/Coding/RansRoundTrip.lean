import AetherArch.Library.IntervalCoding
import AetherArch.Library.Numeral
import AetherArch.Coding.Rans

/-! # Round trip of the range coder

The bytes the encoder has emitted or holds back, followed by `low`, are one exact
number (`RangeEncoder.value`): a shift multiplies it by the radix
(`RangeEncoder.shiftLow_spec`), carries included, and coding a symbol narrows the
interval that starts at it. The finished stream is a point of every one of these
intervals, which is what the decoder's code measures
(`RangeDecoder.Tracks`), so the decoder resolves the encoder's symbols in turn.
-/

namespace AetherArch

open Numeral

namespace RangeEncoder

/-- The bytes that have left `low`: those written, and those held back for a carry. -/
def shiftedOut (encoder : RangeEncoder) : Bytes :=
  encoder.output ++ encoder.cache :: List.replicate (encoder.cacheSize - 1) 255

/-- The exact lower end of the interval, over all bytes shifted out so far. -/
def value (encoder : RangeEncoder) : Nat :=
  bigEndian encoder.shiftedOut * 2 ^ 32 + encoder.low

/-- The number of bytes shifted out of `low`. -/
def shifts (encoder : RangeEncoder) : Nat :=
  encoder.output.length + encoder.cacheSize - 1

/-- The exact interval of the encoder. -/
def interval (encoder : RangeEncoder) : CodeInterval where
  low := encoder.value
  width := encoder.range

/-- The interval of the given width above `value` reaches neither past two words
nor past the bytes already written. -/
structure Settled (encoder : RangeEncoder) (width : Nat) : Prop where
  held : 0 < encoder.cacheSize
  low_le : encoder.low + width ≤ 2 ^ 33
  carry : encoder.value + width ≤
    (bigEndian encoder.output + 1) * 256 ^ encoder.cacheSize * 2 ^ 32

/-- A settled encoder is settled for smaller widths. -/
theorem Settled.mono {encoder : RangeEncoder} {width smaller : Nat}
    (settled : encoder.Settled width) (le : smaller ≤ width) : encoder.Settled smaller where
  held := settled.held
  low_le := by have := settled.low_le; omega
  carry := by have := settled.carry; omega

/-- A new encoder is settled. -/
theorem new_settled : new.Settled new.range where
  held := by decide
  low_le := by decide
  carry := by decide

/-- Adding a carry to a held-back byte turns the `0xFF` run behind it into zeros. -/
theorem bigEndian_carry (output : Bytes) (cache : UInt8) (count : Nat)
    (room : cache.toNat + 1 < 256) :
    bigEndian (output ++ (cache + 1) :: List.replicate count 0) =
      bigEndian (output ++ cache :: List.replicate count 255) + 1 := by
  have next : (cache + 1).toNat = cache.toNat + 1 := by
    rw [UInt8.toNat_add]
    exact Nat.mod_eq_of_lt room
  have run := bigEndian_replicate_max count
  rw [bigEndian_append_cons, bigEndian_append_cons, bigEndian_replicate_zero, next,
    List.length_replicate, List.length_replicate, Nat.add_assoc _ (bigEndian _) 1, run]
  ring

/-- The overflow flag is only ever set. -/
theorem capCache_of_intact {encoder : RangeEncoder}
    (intact : encoder.capCache.cacheOverflow = false) : encoder.capCache = encoder := by
  unfold capCache at intact ⊢
  split
  · rename_i large
    simp only [large, ↓reduceIte, Bool.true_eq_false] at intact
  · rfl

/-- The state after the held-back bytes were written with the carry `lowHi`. -/
theorem shiftLow_of_flush {encoder : RangeEncoder}
    (flush : encoder.low % 2 ^ 32 < 0xFF000000 ∨ UInt8.ofNat (encoder.low >>> 32) ≠ 0) :
    encoder.shiftLow =
      { encoder.flushCache (UInt8.ofNat (encoder.low >>> 32)) with
        cacheSize := 1
        low := ((encoder.low % 2 ^ 32) <<< 8) % 2 ^ 32 } := by
  simp only [shiftLow, flush, ↓reduceIte, capCache, flushCache]
  rfl

/-- The state after one more `0xFF` byte was held back. -/
theorem shiftLow_of_hold {encoder : RangeEncoder}
    (hold : ¬(encoder.low % 2 ^ 32 < 0xFF000000 ∨ UInt8.ofNat (encoder.low >>> 32) ≠ 0))
    (intact : encoder.shiftLow.cacheOverflow = false) :
    encoder.shiftLow =
      { encoder with
        cacheSize := encoder.cacheSize + 1
        low := ((encoder.low % 2 ^ 32) <<< 8) % 2 ^ 32 } := by
  have capped : (capCache { encoder with cacheSize := encoder.cacheSize + 1 }).cacheOverflow =
      false := by
    simpa only [shiftLow, hold, ↓reduceIte] using intact
  simp only [shiftLow, hold, ↓reduceIte, capCache_of_intact capped]

/-- The bytes written by a flush are the ones held back, plus the carry. -/
theorem bigEndian_flushCache {encoder : RangeEncoder} {width : Nat}
    (settled : encoder.Settled width) (positive : 0 < width) :
    bigEndian (encoder.flushCache (UInt8.ofNat (encoder.low >>> 32))).output =
      bigEndian encoder.shiftedOut + encoder.low / 2 ^ 32 := by
  obtain ⟨held, lowLe, carry⟩ := settled
  rw [Nat.shiftRight_eq_div_pow]
  by_cases small : encoder.low < 2 ^ 32
  · rw [Nat.div_eq_of_lt small, Nat.add_zero]
    have zero : UInt8.ofNat 0 = 0 := rfl
    simp only [flushCache, shiftedOut, zero, UInt8.add_zero]
  · have one : encoder.low / 2 ^ 32 = 1 := by omega
    have carried : UInt8.ofNat 1 = 1 := rfl
    have wrapped : (0xFF : UInt8) + 1 = 0 := rfl
    -- A carry out of an all-`0xFF` run would leave the room `carry` grants.
    have room : encoder.cache.toNat + 1 < 256 := by
      by_contra full
      have last : encoder.cache.toNat = 255 := by
        have := encoder.cache.toNat_lt
        omega
      have run := bigEndian_replicate_max (encoder.cacheSize - 1)
      have all : bigEndian encoder.shiftedOut + 1 =
          (bigEndian encoder.output + 1) * 256 ^ encoder.cacheSize := by
        rw [shiftedOut, bigEndian_append_cons, last, List.length_replicate, Nat.add_assoc, run,
          ← Nat.sub_add_cancel held, pow_succ, Nat.add_sub_cancel]
        ring
      rw [← all, value] at carry
      omega
    rw [one, carried]
    simp only [flushCache, shiftedOut, wrapped]
    exact bigEndian_carry encoder.output encoder.cache _ room

/-- **A shift multiplies the exact value by the radix.** The bytes already
written stay as they are, a carry included. -/
theorem shiftLow_spec {encoder : RangeEncoder} {width : Nat} (settled : encoder.Settled width)
    (positive : 0 < width) (narrow : width ≤ 2 ^ 24)
    (intact : encoder.shiftLow.cacheOverflow = false) :
    encoder.shiftLow.value = encoder.value * 256 ∧
      encoder.shiftLow.shifts = encoder.shifts + 1 ∧
      encoder.shiftLow.Settled (width * 256) := by
  obtain ⟨held, lowLe, carry⟩ := id settled
  have lowHi : (UInt8.ofNat (encoder.low >>> 32)).toNat = encoder.low / 2 ^ 32 := by
    rw [UInt8.toNat_ofNat', Nat.shiftRight_eq_div_pow]
    omega
  have lowByte : (UInt8.ofNat (encoder.low >>> 24)).toNat = encoder.low / 2 ^ 24 % 256 := by
    rw [UInt8.toNat_ofNat', Nat.shiftRight_eq_div_pow]
  have shifted : ((encoder.low % 2 ^ 32) <<< 8) % 2 ^ 32 = encoder.low % 2 ^ 24 * 256 := by
    rw [Nat.shiftLeft_eq]
    omega
  by_cases flush : encoder.low % 2 ^ 32 < 0xFF000000 ∨ UInt8.ofNat (encoder.low >>> 32) ≠ 0
  · have written := bigEndian_flushCache settled positive
    have state := shiftLow_of_flush flush
    have output : encoder.shiftLow.shiftedOut =
        (encoder.flushCache (UInt8.ofNat (encoder.low >>> 32))).output ++
          [UInt8.ofNat (encoder.low >>> 24)] := by
      rw [state]
      rfl
    have valueEq : encoder.shiftLow.value = encoder.value * 256 := by
      rw [value, output, bigEndian_snoc, written, lowByte, state]
      simp only [value, shifted]
      omega
    refine ⟨valueEq, ?_, ?_, ?_, ?_⟩
    · rw [state]
      simp only [shifts, flushCache, List.length_append, List.length_cons, List.length_replicate]
      omega
    · rw [state]
      exact Nat.one_pos
    · rw [state]
      simp only [shifted]
      omega
    · rw [valueEq, state]
      simp only [written, value]
      have fits : encoder.low + width ≤ (encoder.low / 2 ^ 32 + 1) * 2 ^ 32 := by
        rcases flush with below | carried
        · omega
        · have : encoder.low / 2 ^ 32 ≠ 0 := by
            rw [← lowHi]
            exact fun zero => carried (UInt8.toNat_inj.mp zero)
          omega
      omega
  · have state := shiftLow_of_hold flush intact
    have lowHiZero : encoder.low / 2 ^ 32 = 0 := by
      rw [not_or, not_not] at flush
      rw [← lowHi, flush.2]
      rfl
    have output : encoder.shiftLow.shiftedOut = encoder.shiftedOut ++ [255] := by
      rw [state]
      simp only [shiftedOut, Nat.add_sub_cancel, List.append_assoc, List.cons_append]
      rw [← List.replicate_succ', Nat.sub_add_cancel held]
    have valueEq : encoder.shiftLow.value = encoder.value * 256 := by
      have last : (255 : UInt8).toNat = 255 := rfl
      rw [value, output, bigEndian_snoc, last, state]
      simp only [value, shifted]
      omega
    refine ⟨valueEq, ?_, ?_, ?_, ?_⟩
    · rw [state]
      simp only [shifts]
      omega
    · rw [state]
      exact Nat.succ_pos _
    · rw [state]
      simp only [shifted]
      omega
    · rw [valueEq, state]
      simp only [pow_succ]
      have scaled := Nat.mul_le_mul_right 256 carry
      calc encoder.value * 256 + width * 256 = (encoder.value + width) * 256 := by ring
        _ ≤ _ := scaled
        _ = _ := by ring

/-- A shift drops the highest byte of the low end. -/
theorem shiftLow_low (encoder : RangeEncoder) :
    encoder.shiftLow.low = encoder.low % 2 ^ 24 * 256 := by
  simp only [shiftLow, Nat.shiftLeft_eq]
  omega

/-! ## Renormalization -/

/-- Rounds the renormalization loop makes for a range. -/
def renormRounds : (fuel : Nat) → (range : Nat) → Nat
  | 0, _ => 0
  | fuel + 1, range =>
      if range < TOP then renormRounds fuel ((range <<< 8) % 2 ^ 32) + 1 else 0

/-- A range below the threshold is shifted without loss. -/
theorem shifted_range {range : Nat} (small : range < TOP) :
    (range <<< 8) % 2 ^ 32 = range * 256 := by
  have top : TOP = 2 ^ 24 := rfl
  rw [Nat.shiftLeft_eq]
  omega

/-- What coding a symbol starts from and returns to. -/
structure Ready (encoder : RangeEncoder) : Prop where
  settled : encoder.Settled encoder.range
  range_ge : TOP ≤ encoder.range
  range_lt : encoder.range < 2 ^ 32

/-- A new encoder is ready. -/
theorem new_ready : new.Ready where
  settled := new_settled
  range_ge := by decide
  range_lt := by decide

@[simp] theorem shiftLow_overflow {encoder : RangeEncoder}
    (flagged : encoder.cacheOverflow = true) :
    encoder.shiftLow.cacheOverflow = true := by
  simp only [shiftLow, capCache, flushCache]
  split <;> split <;> simp only [flagged]

/-- Renormalization does not forget an overflow. -/
theorem renormalize_overflow {fuel : Nat} {encoder : RangeEncoder}
    (flagged : encoder.cacheOverflow = true) :
    (renormalize fuel encoder).cacheOverflow = true := by
  induction fuel generalizing encoder with
  | zero => exact flagged
  | succ fuel ih =>
      rw [renormalize]
      split
      · exact ih (shiftLow_overflow flagged)
      · exact flagged

/-- A later intact state was intact before. -/
theorem intact_of_renormalize {fuel : Nat} {encoder : RangeEncoder}
    (intact : (renormalize fuel encoder).cacheOverflow = false) :
    encoder.cacheOverflow = false := by
  by_contra flagged
  rw [Bool.not_eq_false] at flagged
  rw [renormalize_overflow flagged] at intact
  exact Bool.noConfusion intact

/-- One round of the loop multiplies every quantity by the radix. -/
theorem renormRound_spec {encoder : RangeEncoder} (settled : encoder.Settled encoder.range)
    (positive : 0 < encoder.range) (small : encoder.range < TOP)
    (intact : encoder.renormRound.cacheOverflow = false) :
    encoder.renormRound.interval = encoder.interval.refine 256 ∧
      encoder.renormRound.shifts = encoder.shifts + 1 ∧
      encoder.renormRound.range = encoder.range * 256 ∧
      encoder.renormRound.Settled encoder.renormRound.range := by
  have top : TOP = 2 ^ 24 := rfl
  obtain ⟨valueEq, shiftsEq, after⟩ := shiftLow_spec settled positive (by omega) intact
  have rangeEq : encoder.renormRound.range = encoder.range * 256 := shifted_range small
  refine ⟨?_, shiftsEq, rangeEq, ?_⟩
  · change CodeInterval.mk encoder.shiftLow.value encoder.renormRound.range = _
    rw [valueEq, rangeEq]
    rfl
  · rw [rangeEq]
    exact ⟨after.held, after.low_le, after.carry⟩

/-- **Renormalization refines the interval** by one radix for every byte shifted out. -/
theorem renormalize_spec {fuel : Nat} {encoder : RangeEncoder}
    (settled : encoder.Settled encoder.range) (positive : 0 < encoder.range)
    (intact : (renormalize fuel encoder).cacheOverflow = false) :
    (renormalize fuel encoder).interval =
        encoder.interval.refine (256 ^ renormRounds fuel encoder.range) ∧
      (renormalize fuel encoder).shifts = encoder.shifts + renormRounds fuel encoder.range ∧
      (renormalize fuel encoder).Settled (renormalize fuel encoder).range := by
  induction fuel generalizing encoder with
  | zero => exact ⟨by rw [renormRounds, pow_zero, CodeInterval.refine_one]; rfl, rfl, settled⟩
  | succ fuel ih =>
      rw [renormalize] at intact ⊢
      rw [renormRounds]
      split at intact
      · rename_i small
        simp only [small, ↓reduceIte]
        have before := intact_of_renormalize intact
        obtain ⟨intervalEq, shiftsEq, rangeEq, after⟩ :=
          renormRound_spec settled positive small before
        obtain ⟨restInterval, restShifts, restSettled⟩ := ih after (by omega) intact
        rw [shifted_range small, ← rangeEq]
        refine ⟨?_, by omega, restSettled⟩
        rw [restInterval, intervalEq, CodeInterval.refine_refine, pow_succ' 256]
      · rename_i large
        simp only [large, ↓reduceIte, pow_zero, CodeInterval.refine_one, Nat.add_zero, true_and]
        exact settled

/-- A positive 32-bit range passes the threshold within the rounds allowed. -/
theorem renormalize_range {encoder : RangeEncoder} (positive : 0 < encoder.range)
    (below : encoder.range < 2 ^ 32) :
    TOP ≤ (renormalize renormFuel encoder).range ∧
      (renormalize renormFuel encoder).range < 2 ^ 32 := by
  have top : TOP = 2 ^ 24 := rfl
  -- A range that takes `fuel` rounds or fewer is at least this large.
  have passes (fuel : Nat) : ∀ encoder : RangeEncoder, encoder.range < 2 ^ 32 →
      2 ^ 24 ≤ encoder.range * 256 ^ fuel →
      TOP ≤ (renormalize fuel encoder).range ∧ (renormalize fuel encoder).range < 2 ^ 32 := by
    induction fuel with
    | zero =>
        intro encoder below large
        exact ⟨by rw [renormalize]; omega, below⟩
    | succ fuel ih =>
        intro encoder below large
        rw [renormalize]
        split
        · rename_i small
          have rangeEq : encoder.renormRound.range = encoder.range * 256 := shifted_range small
          apply ih
          · omega
          · rw [rangeEq, mul_assoc, ← pow_succ']
            exact large
        · exact ⟨by omega, below⟩
  apply passes renormFuel encoder below
  have : (256 : Nat) ^ renormFuel = 2 ^ 32 := by decide
  rw [this]
  omega

/-! ## Coding a symbol -/

/-- A symbol's interval in a frequency table. -/
def Share (cdfLo cdfHi : UInt16) : Prop :=
  cdfLo.toNat < cdfHi.toNat ∧ cdfHi.toNat ≤ PROB_TOTAL

theorem Share.size_eq {cdfLo cdfHi : UInt16} (share : Share cdfLo cdfHi) :
    (cdfHi - cdfLo).toNat = cdfHi.toNat - cdfLo.toNat :=
  UInt16.toNat_sub_of_le _ _ (UInt16.le_iff_toNat_le.mpr (Nat.le_of_lt share.1))

/-- The scale factor of a ready encoder is positive. -/
theorem Ready.unit_pos {encoder : RangeEncoder} (ready : encoder.Ready) :
    0 < encoder.range / PROB_TOTAL := by
  have := ready.range_ge
  have top : TOP = 2 ^ 24 := rfl
  have total : PROB_TOTAL = 2 ^ 15 := rfl
  rw [total]
  omega

/-- A share fits the interval it is taken of. -/
theorem Share.fits {cdfLo cdfHi : UInt16} (share : Share cdfLo cdfHi) (range : Nat) :
    (cdfLo.toNat + (cdfHi - cdfLo).toNat) * (range / PROB_TOTAL) ≤ range := by
  rw [share.size_eq, Nat.add_sub_of_le (Nat.le_of_lt share.1)]
  calc cdfHi.toNat * (range / PROB_TOTAL)
      ≤ PROB_TOTAL * (range / PROB_TOTAL) := Nat.mul_le_mul_right _ share.2
    _ ≤ range := Nat.mul_div_le range PROB_TOTAL

/-- Narrowing the encoder narrows its interval. -/
theorem narrow_interval (encoder : RangeEncoder) (cdfLo cdfHi : UInt16) :
    (encoder.narrow cdfLo cdfHi).interval =
      encoder.interval.narrow cdfLo.toNat (cdfHi - cdfLo).toNat (encoder.range / PROB_TOTAL) := by
  simp only [interval, CodeInterval.narrow, value, narrow, shiftedOut, Nat.add_assoc]

/-- A narrowed encoder is settled. -/
theorem narrow_settled {encoder : RangeEncoder} {cdfLo cdfHi : UInt16}
    (settled : encoder.Settled encoder.range) (share : Share cdfLo cdfHi) :
    (encoder.narrow cdfLo cdfHi).Settled (encoder.narrow cdfLo cdfHi).range := by
  have fits := share.fits encoder.range
  rw [Nat.add_mul] at fits
  obtain ⟨held, lowLe, carry⟩ := settled
  refine ⟨held, ?_, ?_⟩
  · simp only [narrow]
    omega
  · simp only [value, shiftedOut, narrow] at carry ⊢
    omega

/-- A narrowed range is positive and no larger. -/
theorem narrow_range {encoder : RangeEncoder} {cdfLo cdfHi : UInt16}
    (ready : encoder.Ready) (share : Share cdfLo cdfHi) :
    0 < (encoder.narrow cdfLo cdfHi).range ∧
      (encoder.narrow cdfLo cdfHi).range ≤ encoder.range := by
  have fits := share.fits encoder.range
  have unit := ready.unit_pos
  have size := share.size_eq
  have order := share.1
  rw [Nat.add_mul] at fits
  simp only [narrow]
  refine ⟨Nat.mul_pos (by omega) unit, by omega⟩

/-- Rounds of the loop after a symbol was coded. -/
def encodeRounds (encoder : RangeEncoder) (cdfLo cdfHi : UInt16) : Nat :=
  renormRounds renormFuel (encoder.narrow cdfLo cdfHi).range

/-- **Coding a symbol** narrows the interval to its share and refines the outcome. -/
theorem encodeInterval_spec {encoder : RangeEncoder} {cdfLo cdfHi : UInt16}
    (ready : encoder.Ready) (share : Share cdfLo cdfHi)
    (intact : (encoder.encodeInterval cdfLo cdfHi).cacheOverflow = false) :
    (encoder.encodeInterval cdfLo cdfHi).interval =
        (encoder.interval.narrow cdfLo.toNat (cdfHi - cdfLo).toNat
          (encoder.range / PROB_TOTAL)).refine (256 ^ encoder.encodeRounds cdfLo cdfHi) ∧
      (encoder.encodeInterval cdfLo cdfHi).shifts =
        encoder.shifts + encoder.encodeRounds cdfLo cdfHi ∧
      (encoder.encodeInterval cdfLo cdfHi).Ready := by
  obtain ⟨positive, le⟩ := narrow_range ready share
  obtain ⟨intervalEq, shiftsEq, settled⟩ :=
    renormalize_spec (narrow_settled ready.settled share) positive intact
  obtain ⟨rangeGe, rangeLt⟩ :=
    renormalize_range positive (Nat.lt_of_le_of_lt le ready.range_lt)
  refine ⟨?_, shiftsEq, settled, rangeGe, rangeLt⟩
  rw [encodeInterval, intervalEq, narrow_interval]
  rfl

/-! ## The final flush -/

/-- Nor do several shifts forget an overflow. -/
theorem iterate_shiftLow_overflow {count : Nat} {encoder : RangeEncoder}
    (flagged : encoder.cacheOverflow = true) :
    (shiftLow^[count] encoder).cacheOverflow = true := by
  induction count with
  | zero => exact flagged
  | succ count ih =>
      rw [Function.iterate_succ_apply']
      exact shiftLow_overflow ih

/-- What several shifts without an overflow do to a settled encoder. -/
theorem iterate_shiftLow_spec {count : Nat} {encoder : RangeEncoder} (settled : encoder.Settled 1)
    (intact : (shiftLow^[count] encoder).cacheOverflow = false) :
    (shiftLow^[count] encoder).value = encoder.value * 256 ^ count ∧
      (shiftLow^[count] encoder).shifts = encoder.shifts + count ∧
      (shiftLow^[count] encoder).Settled 1 := by
  induction count with
  | zero => exact ⟨(Nat.mul_one _).symm, rfl, settled⟩
  | succ count ih =>
      rw [Function.iterate_succ_apply'] at intact ⊢
      have before : (shiftLow^[count] encoder).cacheOverflow = false := by
        by_contra flagged
        rw [Bool.not_eq_false] at flagged
        rw [shiftLow_overflow flagged] at intact
        exact Bool.noConfusion intact
      obtain ⟨valueEq, shiftsEq, after⟩ := ih before
      obtain ⟨nextValue, nextShifts, next⟩ := shiftLow_spec after Nat.one_pos (by decide) intact
      refine ⟨?_, by omega, next.mono (by decide)⟩
      rw [nextValue, valueEq, pow_succ, mul_assoc]

/-- A finished stream is what five shifts have written, the overflow flag clear. -/
theorem flushed_of_finish {encoder : RangeEncoder} {output : Bytes}
    (finished : encoder.finish = .ok output) :
    (shiftLow^[5] encoder).cacheOverflow = false ∧ (shiftLow^[5] encoder).output = output := by
  unfold finish at finished
  generalize shiftLow^[5] encoder = flushed at finished ⊢
  dsimp only at finished
  split at finished
  · cases finished
  · rename_i unflagged
    exact ⟨Bool.eq_false_iff.mpr unflagged, Except.ok.inj finished⟩

/-- An encoder that finishes has had no overflow. -/
theorem intact_of_finish {encoder : RangeEncoder} {output : Bytes}
    (finished : encoder.finish = .ok output) : encoder.cacheOverflow = false := by
  by_contra flagged
  rw [Bool.not_eq_false] at flagged
  have intact := (flushed_of_finish finished).1
  rw [iterate_shiftLow_overflow flagged] at intact
  exact Bool.noConfusion intact

/-- **The stream is the exact value**: four bytes of `low` and the byte held back
follow what was shifted out. -/
theorem finish_spec {encoder : RangeEncoder} {output : Bytes} (settled : encoder.Settled 1)
    (finished : encoder.finish = .ok output) :
    bigEndian output = encoder.value ∧ output.length = encoder.shifts + 5 := by
  obtain ⟨intact, written⟩ := flushed_of_finish finished
  obtain ⟨valueEq, shiftsEq, -⟩ := iterate_shiftLow_spec settled intact
  have drained : (shiftLow^[4] encoder).low = 0 := by
    simp only [Function.iterate_succ_apply', Function.iterate_zero_apply, shiftLow_low]
    omega
  have last : shiftLow^[5] encoder =
      { (shiftLow^[4] encoder).flushCache 0 with cacheSize := 1, low := 0 } := by
    rw [Function.iterate_succ_apply', shiftLow_of_flush (by rw [drained]; decide), drained]
    rfl
  have cache : (shiftLow^[5] encoder).cache = 0 := by
    rw [last]
    simp only [flushCache, drained]
    rfl
  have low : (shiftLow^[5] encoder).low = 0 := by rw [last]
  have size : (shiftLow^[5] encoder).cacheSize = 1 := by rw [last]
  constructor
  · have zero : (0 : UInt8).toNat = 0 := rfl
    rw [value, shiftedOut, size, cache, low, written, Nat.sub_self, List.replicate_zero,
      bigEndian_snoc, zero] at valueEq
    omega
  · rw [shifts, size, written] at shiftsEq
    omega

end RangeEncoder

/-! ## The decoder follows the encoder -/

/-- A finished stream, read as far as the encoder has come, is a point of the
encoder's interval. -/
structure RangeEncoder.Covers (encoder : RangeEncoder) (stream : Bytes) : Prop where
  room : encoder.shifts + 5 ≤ stream.length
  point : bigEndian (stream.take (encoder.shifts + 5)) ∈ encoder.interval

/-- Covering the coded symbol's interval covers the interval it was coded in, and
names the symbol. -/
theorem RangeEncoder.Covers.of_encodeInterval {encoder : RangeEncoder} {cdfLo cdfHi : UInt16}
    {stream : Bytes} (ready : encoder.Ready) (share : Share cdfLo cdfHi)
    (intact : (encoder.encodeInterval cdfLo cdfHi).cacheOverflow = false)
    (covers : (encoder.encodeInterval cdfLo cdfHi).Covers stream) :
    encoder.Covers stream ∧
      bigEndian (stream.take (encoder.shifts + 5)) ∈ encoder.interval.narrow cdfLo.toNat
        (cdfHi - cdfLo).toNat (encoder.range / PROB_TOTAL) := by
  obtain ⟨intervalEq, shiftsEq, -⟩ := encodeInterval_spec ready share intact
  obtain ⟨room, point⟩ := covers
  rw [shiftsEq] at room point
  rw [intervalEq, CodeInterval.mem_refine_iff _ (by positivity)] at point
  have coarse : bigEndian (stream.take (encoder.shifts + 5)) =
      bigEndian (stream.take (encoder.shifts + encoder.encodeRounds cdfLo cdfHi + 5)) /
        256 ^ encoder.encodeRounds cdfLo cdfHi := by
    have reading := bigEndian_take
      (stream.take (encoder.shifts + encoder.encodeRounds cdfLo cdfHi + 5)) (encoder.shifts + 5)
    rw [List.take_take, List.length_take, Nat.min_eq_left room, Nat.min_eq_left (by omega)]
      at reading
    rw [reading]
    congr 2
    omega
  rw [← coarse] at point
  exact ⟨⟨by omega, CodeInterval.mem_of_mem_narrow (share.fits _) point⟩, point⟩

namespace RangeDecoder

/-- Reading inside the input appends the byte to the code and stays in bounds. -/
theorem shiftIn_of_lt {decoder : RangeDecoder} {byte : UInt8}
    (inside : decoder.input[decoder.pos]? = some byte) :
    decoder.shiftIn =
      { decoder with
        code := (decoder.code * 256) % 2 ^ 32 + byte.toNat
        pos := decoder.pos + 1 } := by
  have byteLt : byte.toNat < 2 ^ 8 := byte.toNat_lt
  have joined : (decoder.code <<< 8) % 2 ^ 32 ||| byte.toNat =
      (decoder.code * 256) % 2 ^ 32 + byte.toNat := by
    have factored : (decoder.code * 256) % 2 ^ 32 = (decoder.code % 2 ^ 24) <<< 8 := by
      rw [Nat.shiftLeft_eq]
      omega
    rw [Nat.shiftLeft_eq, show (2 : Nat) ^ 8 = 256 from rfl, factored,
      Nat.shiftLeft_add_eq_or_of_lt byteLt]
  simp only [shiftIn, readByte, inside, joined]

/-- The decoder stands where the encoder stood: its code is the distance of the
stream, read so far, from the encoder's value. -/
structure Tracks (decoder : RangeDecoder) (stream : Bytes) (encoder : RangeEncoder) : Prop where
  input_eq : decoder.input = stream
  pos_eq : decoder.pos = encoder.shifts + 5
  range_eq : decoder.range = encoder.range
  eof_eq : decoder.eofOverread = 0
  code_lt : decoder.code < decoder.range
  code_eq : decoder.code + encoder.value = bigEndian (stream.take decoder.pos)

/-- One byte more of a numeral. -/
theorem bigEndian_take_succ {stream : Bytes} {pos : Nat} {byte : UInt8}
    (inside : stream[pos]? = some byte) :
    bigEndian (stream.take (pos + 1)) = bigEndian (stream.take pos) * 256 + byte.toNat := by
  obtain ⟨lt, rfl⟩ := List.getElem?_eq_some_iff.mp inside
  rw [List.take_succ_eq_append_getElem lt, bigEndian_snoc]

/-- The two renormalization loops run in lockstep. -/
theorem Tracks.renormalize {fuel : Nat} {decoder : RangeDecoder} {stream : Bytes}
    {encoder : RangeEncoder} (tracks : decoder.Tracks stream encoder)
    (settled : encoder.Settled encoder.range) (positive : 0 < encoder.range)
    (intact : (encoder.renormalize fuel).cacheOverflow = false)
    (room : (encoder.renormalize fuel).shifts + 5 ≤ stream.length) :
    (decoder.renormalize fuel).Tracks stream (encoder.renormalize fuel) := by
  induction fuel generalizing encoder decoder with
  | zero => exact tracks
  | succ fuel ih =>
      rw [RangeEncoder.renormalize] at intact room ⊢
      rw [RangeDecoder.renormalize]
      obtain ⟨inputEq, posEq, rangeEq, eofEq, codeLt, codeEq⟩ := tracks
      rw [rangeEq]
      split at intact
      · rename_i small
        simp only [small, ↓reduceIte] at room ⊢
        have before := RangeEncoder.intact_of_renormalize intact
        obtain ⟨intervalEq, shiftsEq, nextRange, after⟩ :=
          RangeEncoder.renormRound_spec settled positive small before
        have nextPositive : 0 < encoder.renormRound.range := by omega
        have restShifts := (RangeEncoder.renormalize_spec after nextPositive intact).2.1
        have inside : decoder.pos < stream.length := by omega
        have next : decoder.input[decoder.pos]? = some (stream[decoder.pos]) := by
          rw [inputEq, List.getElem?_eq_getElem inside]
        have grown := bigEndian_take_succ (List.getElem?_eq_getElem inside)
        have byteLt : stream[decoder.pos].toNat < 256 := stream[decoder.pos].toNat_lt
        have valueEq : encoder.renormRound.value = encoder.value * 256 :=
          congrArg CodeInterval.low intervalEq
        have top : TOP = 2 ^ 24 := rfl
        have unwrapped : decoder.code * 256 % 2 ^ 32 = decoder.code * 256 := by omega
        apply ih _ after nextPositive intact room
        rw [renormRound, shiftIn_of_lt next, unwrapped, rangeEq]
        refine ⟨inputEq, ?_, rfl, eofEq, ?_, ?_⟩
        · dsimp only
          omega
        · dsimp only
          rw [RangeEncoder.shifted_range small]
          omega
        · dsimp only
          rw [valueEq, grown, ← codeEq]
          ring
      · rename_i large
        simp only [large, ↓reduceIte]
        exact ⟨inputEq, posEq, rangeEq, eofEq, codeLt, codeEq⟩

/-- The decoder reads off a cumulative frequency inside the coded symbol's share. -/
theorem Tracks.decodeFreq {decoder : RangeDecoder} {stream : Bytes} {encoder : RangeEncoder}
    {cdfLo cdfHi : UInt16} (tracks : decoder.Tracks stream encoder) (ready : encoder.Ready)
    (share : RangeEncoder.Share cdfLo cdfHi)
    (point : bigEndian (stream.take (encoder.shifts + 5)) ∈ encoder.interval.narrow cdfLo.toNat
      (cdfHi - cdfLo).toNat (encoder.range / PROB_TOTAL)) :
    decoder.decodeFreq.1 = encoder.range / PROB_TOTAL ∧
      cdfLo.toNat ≤ decoder.decodeFreq.2 ∧ decoder.decodeFreq.2 < cdfHi.toNat := by
  have codeEq := tracks.code_eq
  rw [tracks.pos_eq] at codeEq
  have above : encoder.interval.low ≤ bigEndian (stream.take (encoder.shifts + 5)) := by
    change encoder.value ≤ _
    omega
  rw [CodeInterval.mem_narrow_iff ready.unit_pos above] at point
  have code : bigEndian (stream.take (encoder.shifts + 5)) - encoder.interval.low =
      decoder.code := by
    change _ - encoder.value = _
    omega
  rw [code, share.size_eq] at point
  have order := share.1
  have total := share.2
  have unclamped : min (decoder.code / (encoder.range / PROB_TOTAL)) (PROB_TOTAL - 1) =
      decoder.code / (encoder.range / PROB_TOTAL) := Nat.min_eq_left (by omega)
  simp only [RangeDecoder.decodeFreq, tracks.range_eq, unclamped, true_and]
  omega

/-- A decoder that tracks the encoder still does after both narrow. -/
theorem Tracks.narrow {decoder : RangeDecoder} {stream : Bytes} {encoder : RangeEncoder}
    {cdfLo cdfHi : UInt16} (tracks : decoder.Tracks stream encoder)
    (point : bigEndian (stream.take (encoder.shifts + 5)) ∈ encoder.interval.narrow cdfLo.toNat
      (cdfHi - cdfLo).toNat (encoder.range / PROB_TOTAL)) :
    (decoder.narrow (encoder.range / PROB_TOTAL) cdfLo cdfHi).Tracks stream
      (encoder.narrow cdfLo cdfHi) := by
  obtain ⟨inputEq, posEq, rangeEq, eofEq, codeLt, codeEq⟩ := tracks
  rw [posEq] at codeEq
  simp only [CodeInterval.mem_def, CodeInterval.narrow, RangeEncoder.interval] at point
  have valueEq : (encoder.narrow cdfLo cdfHi).value =
      encoder.value + cdfLo.toNat * (encoder.range / PROB_TOTAL) :=
    congrArg CodeInterval.low (RangeEncoder.narrow_interval encoder cdfLo cdfHi)
  refine ⟨inputEq, posEq, rfl, eofEq, ?_, ?_⟩
  · simp only [RangeDecoder.narrow]
    omega
  · rw [valueEq]
    simp only [RangeDecoder.narrow, posEq]
    omega

/-- **The decoder follows the encoder over one symbol.** -/
theorem Tracks.advance {decoder : RangeDecoder} {stream : Bytes} {encoder : RangeEncoder}
    {cdfLo cdfHi : UInt16} (tracks : decoder.Tracks stream encoder) (ready : encoder.Ready)
    (share : RangeEncoder.Share cdfLo cdfHi)
    (intact : (encoder.encodeInterval cdfLo cdfHi).cacheOverflow = false)
    (covers : (encoder.encodeInterval cdfLo cdfHi).Covers stream) :
    (decoder.advance (encoder.range / PROB_TOTAL) cdfLo cdfHi).Tracks stream
      (encoder.encodeInterval cdfLo cdfHi) := by
  have point := (covers.of_encodeInterval ready share intact).2
  exact (tracks.narrow point).renormalize (RangeEncoder.narrow_settled ready.settled share)
    (RangeEncoder.narrow_range ready share).1 intact covers.room

/-- The bytes read so far, modulo the word the code is kept in. -/
theorem iterate_shiftIn {input : Bytes} {range count : Nat} (inside : count ≤ input.length) :
    shiftIn^[count] { code := 0, range := range, input := input, pos := 0, eofOverread := 0 } =
      { code := bigEndian (input.take count) % 2 ^ 32, range := range, input := input,
        pos := count, eofOverread := 0 } := by
  induction count with
  | zero => rfl
  | succ count ih =>
      have lt : count < input.length := inside
      rw [Function.iterate_succ_apply', ih (Nat.le_of_lt lt),
        shiftIn_of_lt (List.getElem?_eq_getElem lt),
        bigEndian_take_succ (List.getElem?_eq_getElem lt)]
      have byteLt : input[count].toNat < 256 := input[count].toNat_lt
      congr 1
      dsimp only
      omega

/-- A new decoder follows a new encoder. -/
theorem new_tracks {stream : Bytes} (covers : RangeEncoder.new.Covers stream) :
    (new stream).Tracks stream RangeEncoder.new := by
  obtain ⟨room, point⟩ := covers
  have shifts : RangeEncoder.new.shifts = 0 := by decide
  have value : RangeEncoder.new.value = 0 := by decide
  have range : RangeEncoder.new.range = 0xFFFFFFFF := rfl
  rw [shifts, Nat.zero_add] at room point
  simp only [CodeInterval.mem_def, RangeEncoder.interval, value, range] at point
  rw [new, iterate_shiftIn room]
  refine ⟨rfl, by rw [shifts], rfl, rfl, ?_, ?_⟩
  · dsimp only
    omega
  · rw [value]
    dsimp only
    omega

end RangeDecoder

/-! ## Whole blocks -/

namespace Rans

open ProbabilityPredictor

variable {σ : Type} [ProbabilityPredictor σ]

/-- Rounds the encoder's renormalization loop makes over a block. -/
def encodeShifts : Bytes → RangeEncoder → σ → Nat
  | [], _, _ => 0
  | byte :: data, encoder, predictor =>
      let ((lo, hi), queried) := queryCdf predictor byte
      encoder.encodeRounds lo hi +
        encodeShifts data (encoder.encodeInterval lo hi) (update queried byte)

/-- Coding a byte narrows the encoder to its interval. -/
theorem encodeSymbols_cons {byte : UInt8} {data : Bytes} {encoder : RangeEncoder} {predictor : σ}
    (coherent : Coherent predictor) :
    encodeSymbols (byte :: data) encoder predictor =
      encodeSymbols data
        (encoder.encodeInterval ((predictCdf predictor).1.lower byte)
          ((predictCdf predictor).1.upper byte))
        (update (queryCdf predictor byte).2 byte) := by
  simp only [encodeSymbols, coherent.query_eq byte]

/-- The shifts of a byte come ahead of those of the rest. -/
theorem encodeShifts_cons {byte : UInt8} {data : Bytes} {encoder : RangeEncoder} {predictor : σ}
    (coherent : Coherent predictor) :
    encodeShifts (byte :: data) encoder predictor =
      encoder.encodeRounds ((predictCdf predictor).1.lower byte)
          ((predictCdf predictor).1.upper byte) +
        encodeShifts data
          (encoder.encodeInterval ((predictCdf predictor).1.lower byte)
            ((predictCdf predictor).1.upper byte))
          (update (queryCdf predictor byte).2 byte) := by
  simp only [encodeShifts, coherent.query_eq byte]

/-- A byte's share in a coherent state. -/
theorem share_of_coherent {predictor : σ} (coherent : Coherent predictor) (byte : UInt8) :
    RangeEncoder.Share ((predictCdf predictor).1.lower byte)
      ((predictCdf predictor).1.upper byte) :=
  ⟨coherent.lower_lt_upper byte, coherent.upper_le_total byte⟩

/-- The predictor a coded byte leads to keeps the contract. -/
theorem contract_next {predictor : σ} (contract : Contract predictor) (byte : UInt8) :
    Contract (update (queryCdf predictor byte).2 byte) :=
  contract.of_reachable ((Reachable.start.query byte).update byte)

/-- Coding does not forget an overflow. -/
theorem encodeSymbols_overflow {data : Bytes} {encoder : RangeEncoder} {predictor : σ}
    (flagged : encoder.cacheOverflow = true) :
    (encodeSymbols data encoder predictor).1.cacheOverflow = true := by
  induction data generalizing encoder predictor with
  | nil => exact flagged
  | cons byte data ih => exact ih (RangeEncoder.renormalize_overflow flagged)

/-- Coding without an overflow starts without one. -/
theorem intact_of_encodeSymbols {data : Bytes} {encoder : RangeEncoder} {predictor : σ}
    (intact : (encodeSymbols data encoder predictor).1.cacheOverflow = false) :
    encoder.cacheOverflow = false := by
  by_contra flagged
  rw [Bool.not_eq_false] at flagged
  rw [encodeSymbols_overflow flagged] at intact
  exact Bool.noConfusion intact

/-- The encoder stays ready over a block, and counts its rounds. -/
theorem encodeSymbols_spec {data : Bytes} {encoder : RangeEncoder} {predictor : σ}
    (contract : Contract predictor) (ready : encoder.Ready)
    (intact : (encodeSymbols data encoder predictor).1.cacheOverflow = false) :
    (encodeSymbols data encoder predictor).1.Ready ∧
      (encodeSymbols data encoder predictor).1.shifts =
        encoder.shifts + encodeShifts data encoder predictor := by
  induction data generalizing encoder predictor with
  | nil => exact ⟨ready, rfl⟩
  | cons byte data ih =>
      have coherent := contract predictor Reachable.start
      have share := share_of_coherent coherent byte
      rw [encodeSymbols_cons coherent] at intact ⊢
      obtain ⟨-, shiftsEq, next⟩ :=
        RangeEncoder.encodeInterval_spec ready share (intact_of_encodeSymbols intact)
      obtain ⟨final, total⟩ := ih (contract_next contract byte) next intact
      refine ⟨final, ?_⟩
      rw [total, shiftsEq, encodeShifts_cons coherent, Nat.add_assoc]

/-- The finished stream is a point of every interval of the run. -/
theorem covers_of_encodeSymbols {data : Bytes} {encoder : RangeEncoder} {predictor : σ}
    {stream : Bytes} (contract : Contract predictor) (ready : encoder.Ready)
    (intact : (encodeSymbols data encoder predictor).1.cacheOverflow = false)
    (covers : (encodeSymbols data encoder predictor).1.Covers stream) :
    encoder.Covers stream := by
  induction data generalizing encoder predictor with
  | nil => exact covers
  | cons byte data ih =>
      have coherent := contract predictor Reachable.start
      have share := share_of_coherent coherent byte
      rw [encodeSymbols_cons coherent] at intact covers
      have before := intact_of_encodeSymbols intact
      have next := (RangeEncoder.encodeInterval_spec ready share before).2.2
      have later := ih (contract_next contract byte) next intact covers
      exact (later.of_encodeInterval ready share before).1

/-- **The decoder resolves the encoder's bytes in turn**, and both predictors end
in the same state. -/
theorem decodeSymbols_encodeSymbols {data : Bytes} {encoder : RangeEncoder}
    {decoder : RangeDecoder} {predictor : σ} {stream : Bytes} (contract : Contract predictor)
    (ready : encoder.Ready) (tracks : decoder.Tracks stream encoder)
    (intact : (encodeSymbols data encoder predictor).1.cacheOverflow = false)
    (covers : (encodeSymbols data encoder predictor).1.Covers stream) :
    ∃ last, decodeSymbols data.length decoder predictor =
        (data, last, (encodeSymbols data encoder predictor).2) ∧
      last.Tracks stream (encodeSymbols data encoder predictor).1 := by
  induction data generalizing encoder decoder predictor with
  | nil => exact ⟨decoder, rfl, tracks⟩
  | cons byte data ih =>
      have coherent := contract predictor Reachable.start
      have share := share_of_coherent coherent byte
      rw [encodeSymbols_cons coherent] at intact covers ⊢
      have before := intact_of_encodeSymbols intact
      have next := (RangeEncoder.encodeInterval_spec ready share before).2.2
      have nextContract := contract_next contract byte
      have later := covers_of_encodeSymbols nextContract next intact covers
      have point := (later.of_encodeInterval ready share before).2
      obtain ⟨unitEq, above, below⟩ := tracks.decodeFreq ready share point
      have total : decoder.decodeFreq.2 < PROB_TOTAL := Nat.lt_of_lt_of_le below share.2
      have resolved := coherent.decode_eq _ byte total above below
      have synced := coherent.update_eq _ byte total (congrArg Prod.fst resolved)
      obtain ⟨last, rest, final⟩ :=
        ih nextContract next (tracks.advance ready share before later) intact covers
      refine ⟨last, ?_, final⟩
      rw [List.length_cons, decodeSymbols]
      simp only [resolved, unitEq, synced, rest]

/-- A finished run: the stream covers the encoder's last interval. -/
theorem covers_of_finish {encoder : RangeEncoder} {stream : Bytes} (ready : encoder.Ready)
    (finished : encoder.finish = .ok stream) : encoder.Covers stream := by
  have positive : 0 < encoder.range := Nat.lt_of_lt_of_le (by decide) ready.range_ge
  obtain ⟨valueEq, lengthEq⟩ :=
    RangeEncoder.finish_spec (ready.settled.mono positive) finished
  refine ⟨Nat.le_of_eq lengthEq.symm, ?_⟩
  rw [← lengthEq, List.take_length, valueEq]
  exact ⟨Nat.le_refl _, Nat.lt_add_of_pos_right positive⟩

/-- A predictor keeps its contract at the start of a block. -/
theorem contract_blockStart {predictor : σ} (contract : Contract predictor) (reset : Bool) :
    Contract (blockStart predictor reset) := by
  cases reset with
  | true => exact contract.of_reachable Reachable.start.reset
  | false => exact contract

/-- An encoded block is the finished stream of its bytes. -/
theorem finish_of_encodeBlockInner {data : Bytes} {start : σ} {reset : Bool} {bytes : Bytes}
    (nonempty : data ≠ []) (encoded : (encodeBlockInner data start reset).1 = .ok bytes) :
    (encodeSymbols data RangeEncoder.new (blockStart start reset)).1.finish = .ok bytes ∧
      (encodeBlockInner data start reset).2 =
        (encodeSymbols data RangeEncoder.new (blockStart start reset)).2 := by
  have test : data.isEmpty = false := by simpa using nonempty
  simp only [encodeBlockInner, test, Bool.false_eq_true, ↓reduceIte] at encoded ⊢
  split at encoded
  · rename_i finished
    exact ⟨finished.trans (congrArg Except.ok (Except.ok.inj encoded)), rfl⟩
  · cases encoded

/-- The run of the decoder over a finished stream. -/
theorem decodeSymbols_of_finish {data : Bytes} {start : σ} {stream : Bytes}
    (contract : Contract start)
    (finished : (encodeSymbols data RangeEncoder.new start).1.finish = .ok stream) :
    stream.length = encodeShifts data RangeEncoder.new start + 5 ∧
      ∃ last, decodeSymbols data.length (RangeDecoder.new stream) start =
          (data, last, (encodeSymbols data RangeEncoder.new start).2) ∧
        last.pos = stream.length ∧ last.eofOverread = 0 := by
  have intact := RangeEncoder.intact_of_finish finished
  obtain ⟨ready, shiftsEq⟩ := encodeSymbols_spec contract RangeEncoder.new_ready intact
  have covers := covers_of_finish ready finished
  have first := covers_of_encodeSymbols contract RangeEncoder.new_ready intact covers
  obtain ⟨last, decoded, tracks⟩ := decodeSymbols_encodeSymbols contract
    RangeEncoder.new_ready (RangeDecoder.new_tracks first) intact covers
  have positive : 0 < RangeEncoder.range (encodeSymbols data RangeEncoder.new start).1 :=
    Nat.lt_of_lt_of_le (by decide) ready.range_ge
  have lengthEq := (RangeEncoder.finish_spec (ready.settled.mono positive) finished).2
  have fresh : RangeEncoder.new.shifts = 0 := by decide
  rw [fresh, Nat.zero_add] at shiftsEq
  refine ⟨by rw [lengthEq, shiftsEq], last, decoded, ?_, tracks.eof_eq⟩
  rw [tracks.pos_eq, lengthEq]

/-- **Range-coder round trip.** A block the encoder accepts is decoded from the
same predictor state to exactly its bytes, leaving the predictor where the encoder
left it. The stream is five bytes longer than the rounds made, and the decoder
consumes all of it and nothing past its end. -/
theorem decodeBlockInner_encodeBlockInner (data : Bytes) (start : σ) (reset : Bool)
    (contract : Contract start) (bounded : data.length ≤ MAX_DECOMPRESSED_BLOCK_SIZE)
    (bytes : Bytes) (encoded : (encodeBlockInner data start reset).1 = .ok bytes) :
    decodeBlockInner bytes data.length start reset =
        (.ok data, (encodeBlockInner data start reset).2) ∧
      (data ≠ [] →
        bytes.length = encodeShifts data RangeEncoder.new (blockStart start reset) + 5 ∧
        (decodeSymbols data.length (RangeDecoder.new bytes) (blockStart start reset)).2.1.pos =
          bytes.length ∧
        (decodeSymbols data.length (RangeDecoder.new bytes)
          (blockStart start reset)).2.1.eofOverread = 0) := by
  by_cases empty : data = []
  · subst empty
    exact ⟨rfl, fun nonempty => absurd rfl nonempty⟩
  · obtain ⟨finished, final⟩ := finish_of_encodeBlockInner empty encoded
    obtain ⟨lengthEq, last, decoded, posEq, eofEq⟩ :=
      decodeSymbols_of_finish (contract_blockStart contract reset) finished
    have positive : data.length ≠ 0 := fun zero => empty (List.length_eq_zero_iff.mp zero)
    have stream : bytes.isEmpty = false := by
      rw [List.isEmpty_eq_false_iff, ← List.length_pos_iff]
      omega
    have limit : ¬data.length > MAX_DECODE_SIZE := Nat.not_lt.mpr bounded
    refine ⟨?_, fun _ => ⟨lengthEq, ?_, ?_⟩⟩
    · simp only [decodeBlockInner, positive, stream, limit, decoded, eofEq, final,
        Bool.false_eq_true, ↓reduceIte]
      rfl
    · rw [decoded]
      exact posEq
    · rw [decoded]
      exact eofEq

/-- **Range-coder round trip**, for a block coded from the reset state and for one
that continues from the given state. -/
theorem rangeCoder_roundTrip (data : Bytes) (start : σ) (contract : Contract start)
    (bounded : data.length ≤ MAX_DECOMPRESSED_BLOCK_SIZE) :
    (∀ bytes, (encodeBlock data start).1 = .ok bytes →
      decodeBlock bytes data.length start = (.ok data, (encodeBlock data start).2) ∧
        (data ≠ [] →
          bytes.length = encodeShifts data RangeEncoder.new (ProbabilityPredictor.reset start) + 5 ∧
          (decodeSymbols data.length (RangeDecoder.new bytes)
            (ProbabilityPredictor.reset start)).2.1.pos = bytes.length ∧
          (decodeSymbols data.length (RangeDecoder.new bytes)
            (ProbabilityPredictor.reset start)).2.1.eofOverread = 0)) ∧
    (∀ bytes, (encodeBlockContinuing data start).1 = .ok bytes →
      decodeBlockContinuing bytes data.length start =
          (.ok data, (encodeBlockContinuing data start).2) ∧
        (data ≠ [] →
          bytes.length = encodeShifts data RangeEncoder.new start + 5 ∧
          (decodeSymbols data.length (RangeDecoder.new bytes) start).2.1.pos = bytes.length ∧
          (decodeSymbols data.length (RangeDecoder.new bytes) start).2.1.eofOverread = 0)) :=
  ⟨decodeBlockInner_encodeBlockInner data start true contract bounded,
    decodeBlockInner_encodeBlockInner data start false contract bounded⟩

/-- A predictor that never learns: every byte keeps the same share. -/
inductive Uniform where
  | mk

namespace Uniform

def cdf : Cdf := fun index => UInt16.ofNat (index.val * 128)

theorem toNat_cdf (index : Fin 257) : (cdf index).toNat = index.val * 128 := by
  rw [cdf, UInt16.toNat_ofNat']
  omega

instance : ProbabilityPredictor Uniform where
  predictCdf state := (cdf, state)
  queryCdf state byte := ((cdf.lower byte, cdf.upper byte), state)
  decodeSymbol state freq :=
    let symbol := UInt8.ofNat (freq / 128)
    ((symbol, cdf.lower symbol, cdf.upper symbol), state)
  update state _ := state
  reset state := state
  name _ := "Uniform"
  predictorId _ := .order0

/-- The uniform predictor meets the contract. -/
theorem contract (start : Uniform) : Contract start := by
  intro state _
  refine ⟨⟨rfl, rfl, ?_⟩, fun _ => rfl, ?_, fun _ _ _ _ => rfl⟩
  · intro first second less
    change (cdf first).toNat < (cdf second).toNat
    rw [toNat_cdf, toNat_cdf]
    have : first.val < second.val := less
    omega
  · intro freq symbol _ above below
    change (cdf _).toNat ≤ freq at above
    change freq < (cdf _).toNat at below
    rw [toNat_cdf] at above below
    have found : UInt8.ofNat (freq / 128) = symbol := by
      have quotient : freq / 128 = symbol.toNat := by
        dsimp only at above below
        omega
      rw [quotient, UInt8.ofNat_toNat]
    change (UInt8.ofNat (freq / 128), cdf.lower (UInt8.ofNat (freq / 128)),
      cdf.upper (UInt8.ofNat (freq / 128))) = _
    rw [found]
    rfl

end Uniform

/-- A short block is coded and decoded. -/
theorem rangeCoder_roundTrip_uniform :
    (encodeBlock [97, 255, 0] Uniform.mk).1 = .ok [0, 97, 254, 207, 0, 128, 0, 0] ∧
      decodeBlock [0, 97, 254, 207, 0, 128, 0, 0] 3 Uniform.mk =
        (.ok [97, 255, 0], (encodeBlock [97, 255, 0] Uniform.mk).2) :=
  have encoded : (encodeBlock [97, 255, 0] Uniform.mk).1 = .ok [0, 97, 254, 207, 0, 128, 0, 0] := by
    decide +kernel
  ⟨encoded, ((rangeCoder_roundTrip [97, 255, 0] Uniform.mk (Uniform.contract _)
    (by decide)).1 _ encoded).1⟩

end Rans

end AetherArch
