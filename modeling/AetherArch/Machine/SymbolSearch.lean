import AetherArch.Coding.ProbsToCdf
import AetherArch.Machine.Rans

/-! # Symbol lookup by machine steps

The search for the symbol whose interval contains a frequency, with every table index checked, and
the decoding step built on it. Over a valid table the search never leaves the table, and decoding
subtracts no more than the code holds, whatever bytes the code was read from.
-/

namespace AetherArch

open Checked

namespace Machine

/-- An entry of a table. -/
def readCdf (cdf : Cdf) (i : Nat) : Run AetherError UInt16 :=
  if inside : i < 257 then .ok (cdf ⟨i, inside⟩) else fault .outOfBounds

/-- One round of the bounded binary search. -/
def searchRound (cdf : Cdf) (freq : Nat) : Nat × Nat → Run AetherError (Round (Nat × Nat) Nat)
  | (lo, hi) =>
      if lo < hi then do
        let sum ← add 64 lo hi
        let mid := sum >>> 1
        let above ← add 64 mid 1
        let boundary ← readCdf cdf above
        if boundary.toNat ≤ freq then .ok (.next (above, hi)) else .ok (.next (lo, mid))
      else .ok (.done lo)

/-- Resolve a cumulative frequency to its symbol: two prefix checks, then a binary search. -/
def findSymbol (cdf : Cdf) (freq : Nat) : Run AetherError Nat := do
  let first ← readCdf cdf 1
  if freq < first.toNat then .ok 0
  else
    let second ← readCdf cdf 2
    if freq < second.toNat then .ok 1
    else loop (searchRound cdf freq) 255 (2, 256)

/-- Decode one symbol using a CDF table, up to renormalization. -/
def decodeCdf (decoder : RangeDecoder) (cdf : Cdf) : Run AetherError (UInt8 × RangeDecoder) := do
  let (r, freq) ← decodeFreq decoder
  let symbol ← findSymbol cdf freq
  let lo ← readCdf cdf symbol
  let next ← add 64 symbol 1
  let hi ← readCdf cdf next
  let narrowed ← narrow decoder r lo hi
  .ok (UInt8.ofNat symbol, narrowed)

/-! ## The search -/

theorem readCdf_of_lt {cdf : Cdf} {i : Nat} (inside : i < 257) :
    readCdf cdf i = .ok (cdf ⟨i, inside⟩) :=
  dif_pos inside

/-- The rounds of the search read no entry outside the table, whatever it holds, and end. -/
theorem loop_searchRound {cdf : Cdf} {freq fuel lo hi : Nat} (bound : hi ≤ 256)
    (enough : hi - lo < fuel) :
    loop (searchRound cdf freq) fuel (lo, hi) = .ok (findSymbolLoop cdf freq lo hi bound) := by
  induction fuel generalizing lo hi with
  | zero => exact absurd enough (Nat.not_lt_zero _)
  | succ fuel recurse =>
      rw [loop, searchRound, findSymbolLoop]
      by_cases unclosed : lo < hi
      · have half : (lo + hi) >>> 1 = (lo + hi) / 2 := Nat.shiftRight_one _
        have inside : (lo + hi) / 2 + 1 < 257 := by omega
        rw [if_pos unclosed, dif_pos unclosed, add_of_lt (by omega), Result.ok_bind]
        dsimp only
        rw [half, add_of_lt (by omega), Result.ok_bind, readCdf_of_lt inside, Result.ok_bind]
        by_cases reached : (cdf ⟨(lo + hi) / 2 + 1, inside⟩).toNat ≤ freq
        · rw [if_pos reached, if_pos reached, Result.ok_bind]
          exact recurse bound (by omega)
        · rw [if_neg reached, if_neg reached, Result.ok_bind]
          exact recurse (by omega) (by omega)
      · rw [if_neg unclosed, dif_neg unclosed, Result.ok_bind]

/-- **The search meets no fault**, whatever the table holds. -/
theorem findSymbol_eq (cdf : Cdf) (freq : Nat) :
    findSymbol cdf freq = .ok (AetherArch.findSymbol cdf freq) := by
  unfold findSymbol AetherArch.findSymbol
  rw [readCdf_of_lt (by omega), Result.ok_bind]
  by_cases first : freq < (cdf 1).toNat
  · rw [if_pos first]
    exact if_pos first
  · rw [if_neg first]
    refine (if_neg first).trans ?_
    rw [readCdf_of_lt (by omega), Result.ok_bind]
    by_cases second : freq < (cdf 2).toNat
    · rw [if_pos second]
      exact if_pos second
    · rw [if_neg second]
      exact (if_neg second).trans (loop_searchRound le_rfl (by decide))

end Machine

/-! ## What the search finds -/

namespace Cdf

/-- Where the search stands: no boundary up to `lo` is past the frequency, and every one behind
`hi` is. -/
structure Bracketed (cdf : Cdf) (freq lo hi : Nat) : Prop where
  lo_le : lo ≤ hi
  below (index : Fin 257) : index.val ≤ lo → (cdf index).toNat ≤ freq
  above (index : Fin 257) : hi < index.val → freq < (cdf index).toNat

variable {cdf : Cdf} {freq : Nat}

/-- The brackets close on a symbol whose interval holds the frequency. -/
theorem Bracketed.contains (valid : cdf.Valid) (small : freq < PROB_TOTAL) {lo : Nat}
    (bracketed : cdf.Bracketed freq lo lo) :
    ∃ symbol : UInt8, symbol.toNat = lo ∧ cdf.Contains freq symbol := by
  have lt : lo < 256 := by
    by_contra last
    have reached := bracketed.below 256 (Nat.le_of_not_lt last)
    rw [valid.total] at reached
    omega
  have byte : (UInt8.ofNat lo).toNat = lo := UInt8.toNat_ofNat_of_lt' lt
  refine ⟨UInt8.ofNat lo, byte, ?_, ?_⟩
  · apply bracketed.below
    exact byte.le
  · apply bracketed.above
    exact Nat.lt_succ_of_le byte.ge

theorem Bracketed.findSymbolLoop (valid : cdf.Valid) (small : freq < PROB_TOTAL) {lo hi : Nat}
    (bound : hi ≤ 256) (bracketed : cdf.Bracketed freq lo hi) :
    ∃ symbol : UInt8, symbol.toNat = findSymbolLoop cdf freq lo hi bound ∧
      cdf.Contains freq symbol := by
  induction lo, hi, bound using findSymbolLoop.induct cdf freq with
  | case1 lo hi bound unclosed mid midLt reached recurse =>
      rw [AetherArch.findSymbolLoop, dif_pos unclosed, if_pos reached]
      apply recurse
      refine ⟨Nat.succ_le_of_lt midLt, ?_, bracketed.above⟩
      intro index le
      exact (valid.increasing.monotone (Fin.mk_le_mk.mpr le)).trans reached
  | case2 lo hi bound unclosed mid midLt missed recurse =>
      rw [AetherArch.findSymbolLoop, dif_pos unclosed, if_neg missed]
      apply recurse
      refine ⟨?_, bracketed.below, ?_⟩
      · change lo ≤ (lo + hi) / 2
        omega
      · intro index lt
        exact (not_le.mp missed).trans_le (valid.increasing.monotone (Fin.mk_le_mk.mpr lt))
  | case3 lo hi bound closed =>
      have same : lo = hi := bracketed.lo_le.antisymm (not_lt.mp closed)
      subst same
      rw [AetherArch.findSymbolLoop, dif_neg closed]
      exact bracketed.contains valid small

/-- **The search finds the symbol** whose interval holds the frequency. -/
theorem Valid.findSymbol (valid : cdf.Valid) (small : freq < PROB_TOTAL) :
    ∃ symbol : UInt8, symbol.toNat = findSymbol cdf freq ∧ cdf.Contains freq symbol := by
  unfold AetherArch.findSymbol
  split
  · rename_i first
    refine ⟨0, rfl, ?_, first⟩
    change (cdf 0).toNat ≤ freq
    rw [valid.zero]
    exact Nat.zero_le _
  · rename_i first
    split
    · rename_i second
      exact ⟨1, rfl, not_lt.mp first, second⟩
    · rename_i second
      apply Bracketed.findSymbolLoop valid small
      refine ⟨by decide, ?_, ?_⟩
      · intro index le
        exact (valid.increasing.monotone (Fin.mk_le_mk.mpr le)).trans (not_lt.mp second)
      · intro index lt
        exact absurd (Nat.le_of_lt_succ index.isLt) (Nat.not_le_of_lt lt)

end Cdf

/-! ## Decoding -/

namespace Machine

/-- The decoders that a stream of bytes leads to, whatever valid tables it is decoded with. -/
inductive Decoding (data : Bytes) : RangeDecoder → Prop where
  | new : Decoding data (RangeDecoder.new data)
  | symbol {decoder : RangeDecoder} {cdf : Cdf} :
      Decoding data decoder → cdf.Valid → Decoding data (decoder.decodeCdf cdf).2

/-- Renormalization lifts the range over `TOP`, within its word. -/
theorem range_renormalize {fuel : Nat} {decoder : RangeDecoder}
    (reaches : TOP ≤ decoder.range * 256 ^ fuel) (small : decoder.range < 2 ^ 32) :
    TOP ≤ (decoder.renormalize fuel).range ∧ (decoder.renormalize fuel).range < 2 ^ 32 := by
  induction fuel generalizing decoder with
  | zero => exact ⟨reaches.trans_eq (Nat.mul_one _), small⟩
  | succ fuel recurse =>
      unfold RangeDecoder.renormalize
      split
      · rename_i low
        have top : TOP = 2 ^ 24 := rfl
        have scaled : decoder.renormRound.range = decoder.range * 256 := by
          change (decoder.range <<< 8) % 2 ^ 32 = decoder.range * 256
          rw [Nat.shiftLeft_eq]
          exact Nat.mod_eq_of_lt (by omega)
        apply recurse
        · rw [scaled, Nat.mul_assoc, ← Nat.pow_succ']
          exact reaches
        · rw [scaled]
          omega
      · rename_i settled
        exact ⟨not_lt.mp settled, small⟩

/-- **A decoding step** subtracts no more than the code holds and leaves a range to go on with,
whatever the code is. -/
theorem decodeCdf_eq {decoder : RangeDecoder} {cdf : Cdf} (valid : cdf.Valid)
    (top : TOP ≤ decoder.range) (rangeLt : decoder.range < 2 ^ 32) :
    ∃ narrowed, decodeCdf decoder cdf = .ok ((decoder.decodeCdf cdf).1, narrowed) ∧
      0 < narrowed.range ∧
      (decoder.decodeCdf cdf).2 = narrowed.renormalize RangeEncoder.renormFuel ∧
      TOP ≤ (decoder.decodeCdf cdf).2.range ∧ (decoder.decodeCdf cdf).2.range < 2 ^ 32 := by
  obtain ⟨resolved, -, -, small, -⟩ := decodeFreq_eq top
  obtain ⟨symbol, found, above, below⟩ := valid.findSymbol small
  have byte := symbol.toNat_lt
  have total : (cdf.upper symbol).toNat ≤ PROB_TOTAL := by
    rw [← valid.total]
    exact valid.increasing.monotone (Fin.mk_le_mk.mpr (Nat.succ_le_of_lt byte))
  obtain ⟨ran, reaches, narrowLt⟩ := narrow_eq top rangeLt above below total
  have same : decoder.decodeCdf cdf =
      (symbol, decoder.advance decoder.decodeFreq.1 (cdf.lower symbol) (cdf.upper symbol)) := by
    unfold RangeDecoder.decodeCdf
    dsimp only
    rw [← found, UInt8.ofNat_toNat]
  refine ⟨_, ?_, ?_, congrArg Prod.snd same, ?_⟩
  · unfold decodeCdf
    rw [resolved, Result.ok_bind]
    dsimp only
    rw [findSymbol_eq, Result.ok_bind, ← found, readCdf_of_lt (by omega), Result.ok_bind,
      add_of_lt (by omega), Result.ok_bind, readCdf_of_lt (by omega), Result.ok_bind]
    refine (congrArg (· >>= _) ran).trans ?_
    rw [Result.ok_bind, UInt8.ofNat_toNat, same]
  · apply Nat.pos_of_ne_zero
    intro zero
    rw [zero, Nat.zero_mul] at reaches
    exact absurd reaches (by decide)
  · rw [same]
    exact range_renormalize reaches narrowLt

theorem range_shiftIn (decoder : RangeDecoder) : decoder.shiftIn.range = decoder.range := by
  unfold RangeDecoder.shiftIn RangeDecoder.readByte
  cases decoder.input[decoder.pos]? with
  | none => rfl
  | some byte => rfl

theorem range_new (data : Bytes) : (RangeDecoder.new data).range = 0xFFFFFFFF := by
  unfold RangeDecoder.new
  simp only [Function.iterate_succ_apply', Function.iterate_zero, id, range_shiftIn]

/-- A decoder on its way through a stream has a range to divide. -/
theorem Decoding.range {data : Bytes} {decoder : RangeDecoder} (decoding : Decoding data decoder) :
    TOP ≤ decoder.range ∧ decoder.range < 2 ^ 32 := by
  induction decoding with
  | new =>
      rw [range_new]
      exact ⟨by decide, by decide⟩
  | symbol _ valid recurse =>
      obtain ⟨_, -, -, -, kept⟩ := decodeCdf_eq valid recurse.1 recurse.2
      exact kept

/-- **Symbol lookup is exact**: over a valid table the search ends without leaving the table, at the
one symbol whose interval holds the frequency. Decoding with what it finds subtracts no more than
the code holds and leaves a range that is not zero, whatever the code is, and every stream keeps
the decoder in the states it decodes from. -/
theorem symbolLookup_exact {cdf : Cdf} (valid : cdf.Valid) :
    (∀ freq < PROB_TOTAL, ∃ symbol : UInt8, findSymbol cdf freq = .ok symbol.toNat ∧
      cdf.Contains freq symbol ∧ ∀ other, cdf.Contains freq other → other = symbol) ∧
    (∀ decoder : RangeDecoder, TOP ≤ decoder.range → decoder.range < 2 ^ 32 → ∃ narrowed,
      decodeCdf decoder cdf = .ok ((decoder.decodeCdf cdf).1, narrowed) ∧ 0 < narrowed.range ∧
        (decoder.decodeCdf cdf).2 = narrowed.renormalize RangeEncoder.renormFuel ∧
        TOP ≤ (decoder.decodeCdf cdf).2.range ∧ (decoder.decodeCdf cdf).2.range < 2 ^ 32) ∧
    ∀ data decoder, Decoding data decoder → TOP ≤ decoder.range ∧ decoder.range < 2 ^ 32 := by
  refine ⟨?_, fun decoder => decodeCdf_eq valid, fun data decoder => Decoding.range⟩
  intro freq small
  obtain ⟨symbol, found, above, below⟩ := valid.findSymbol small
  refine ⟨symbol, found ▸ findSymbol_eq cdf freq, ⟨above, below⟩, ?_⟩
  intro other contains
  exact valid.symbol_unique contains.1 contains.2 above below

theorem symbolLookup_exact_uniform : ∃ symbol : UInt8,
    findSymbol ProbsToCdf.uniform 300 = .ok symbol.toNat ∧
      ProbsToCdf.uniform.Contains 300 symbol := by
  obtain ⟨symbol, found, contains, -⟩ :=
    (symbolLookup_exact ProbsToCdf.uniform_valid).1 300 (by decide)
  exact ⟨symbol, found, contains⟩

end Machine

end AetherArch
