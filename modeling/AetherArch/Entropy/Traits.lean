import Mathlib.Tactic
import Mathlib.Order.Monotone.Basic
import AetherArch.Format

/-! # Byte-level probability prediction

The interface every predictor implements, and the contract under which the
range coder and its decoder stay in step.
-/

namespace AetherArch

/-- CDF precision: 15 bits. -/
def PROB_BITS : Nat := 15

/-- Total probability mass. -/
def PROB_TOTAL : Nat := 1 <<< PROB_BITS

/-- A cumulative frequency table: entry `i` is the mass of the symbols below `i`. -/
abbrev Cdf := Fin 257 → UInt16

namespace Cdf

/-- The lower boundary of a symbol's interval. -/
def lower (cdf : Cdf) (symbol : UInt8) : UInt16 :=
  cdf ⟨symbol.toNat, by have := symbol.toNat_lt; omega⟩

/-- The upper boundary of a symbol's interval. -/
def upper (cdf : Cdf) (symbol : UInt8) : UInt16 :=
  cdf ⟨symbol.toNat + 1, by have := symbol.toNat_lt; omega⟩

/-- A table the range coder can code with: strictly increasing from zero to the
total probability mass. -/
structure Valid (cdf : Cdf) : Prop where
  zero : cdf 0 = 0
  total : (cdf 256).toNat = PROB_TOTAL
  increasing : StrictMono fun index => (cdf index).toNat

/-- A cumulative frequency lies in the interval of one symbol only. -/
theorem Valid.symbol_unique {cdf : Cdf} (valid : cdf.Valid) {freq : Nat} {first second : UInt8}
    (firstAbove : (cdf.lower first).toNat ≤ freq) (firstBelow : freq < (cdf.upper first).toNat)
    (secondAbove : (cdf.lower second).toNat ≤ freq)
    (secondBelow : freq < (cdf.upper second).toNat) :
    first = second := by
  have ordered {low high : UInt8} (lowBelow : freq < (cdf.upper low).toNat)
      (highAbove : (cdf.lower high).toNat ≤ freq) : ¬low.toNat < high.toNat := by
    intro less
    have := valid.increasing.monotone (Fin.mk_le_mk.mpr (Nat.succ_le_of_lt less) :
      (⟨low.toNat + 1, by have := low.toNat_lt; omega⟩ : Fin 257) ≤
        ⟨high.toNat, by have := high.toNat_lt; omega⟩)
    unfold upper at lowBelow
    unfold lower at highAbove
    omega
  apply UInt8.toNat_inj.mp
  have := ordered firstBelow secondAbove
  have := ordered secondBelow firstAbove
  omega

/-- A cumulative frequency lies in the interval of a symbol. -/
def Contains (cdf : Cdf) (freq : Nat) (symbol : UInt8) : Prop :=
  (cdf.lower symbol).toNat ≤ freq ∧ freq < (cdf.upper symbol).toNat

/-- The intervals of the symbols cover the whole mass. -/
theorem Valid.exists_contains {cdf : Cdf} (valid : cdf.Valid) {freq : Nat}
    (inside : freq < PROB_TOTAL) : ∃ symbol, cdf.Contains freq symbol := by
  have some_above : ∃ index, ∃ bound : index + 1 < 257, freq < (cdf ⟨index + 1, bound⟩).toNat :=
    ⟨255, by omega, valid.total.symm ▸ inside⟩
  -- The first boundary above the frequency closes the interval.
  obtain ⟨bound, above⟩ := Nat.find_spec some_above
  have least := @Nat.find_min _ _ some_above
  generalize Nat.find some_above = index at bound above least
  have byte : index < 2 ^ 8 := by omega
  have symbol : (UInt8.ofNat index).toNat = index := UInt8.toNat_ofNat_of_lt' byte
  refine ⟨UInt8.ofNat index, ?_, ?_⟩
  · simp only [lower, symbol]
    cases index with
    | zero =>
        rw [show (cdf ⟨0, by omega⟩) = 0 from valid.zero]
        exact Nat.zero_le _
    | succ index =>
        have below := least (Nat.lt_succ_self index)
        exact not_lt.mp fun less => below ⟨bound.trans' (Nat.lt_succ_self _), less⟩
  · simp only [upper, symbol]
    exact above

/-- A table of boundaries that increase from zero to the total. -/
theorem valid_of_boundary {cdf : Cdf} {boundary : Nat → Nat}
    (reads : ∀ index, cdf index = UInt16.ofNat (boundary index)) (zero : boundary 0 = 0)
    (total : boundary 256 = PROB_TOTAL) (increasing : StrictMonoOn boundary (Set.Iic 256)) :
    cdf.Valid := by
  have scale : PROB_TOTAL = 32768 := by decide
  have toNat (index : Fin 257) : (cdf index).toNat = boundary index := by
    have inside : (index : Nat) ≤ 256 := Nat.le_of_lt_succ index.isLt
    have le := increasing.monotoneOn inside (Set.mem_Iic.mpr le_rfl) inside
    rw [reads, UInt16.toNat_ofNat', Nat.mod_eq_of_lt]
    omega
  refine ⟨?_, ?_, ?_⟩
  · rw [reads]
    exact congrArg UInt16.ofNat zero
  · rw [toNat]
    exact total
  · intro low high less
    dsimp only
    rw [toNat, toNat]
    exact increasing (Nat.le_of_lt_succ low.isLt) (Nat.le_of_lt_succ high.isLt) less

/-- Over a table of boundaries, a byte whose interval holds a frequency is the only one. -/
theorem interval_of_boundary {cdf : Cdf} {boundary : Nat → Nat}
    (reads : ∀ index : Fin 257, cdf index = UInt16.ofNat (boundary index)) (zero : boundary 0 = 0)
    (total : boundary 256 = PROB_TOTAL) (increasing : StrictMonoOn boundary (Set.Iic 256))
    {freq low high : Nat} {symbol found : UInt8} (above : (cdf.lower symbol).toNat ≤ freq)
    (below : freq < (cdf.upper symbol).toNat) (lowEq : low = boundary found.toNat)
    (highEq : high = boundary (found.toNat + 1)) (lowLe : low ≤ freq) (ltHigh : freq < high) :
    (found, UInt16.ofNat low, UInt16.ofNat high) =
      (symbol, cdf.lower symbol, cdf.upper symbol) := by
  have scale : PROB_TOTAL = 32768 := by decide
  have entry (index : Fin 257) : (cdf index).toNat = boundary index := by
    have inside : (index : Nat) ≤ 256 := Nat.le_of_lt_succ index.isLt
    have le := increasing.monotoneOn inside (Set.mem_Iic.mpr le_rfl) inside
    rw [reads, UInt16.toNat_ofNat', Nat.mod_eq_of_lt]
    omega
  have same : found = symbol := by
    apply (valid_of_boundary reads zero total increasing).symbol_unique _ _ above below
    · rw [lower, entry]
      exact lowEq ▸ lowLe
    · rw [upper, entry]
      exact highEq ▸ ltHigh
  subst same
  rw [lower, upper, reads, reads, lowEq, highEq]

end Cdf

/-- The search range of `find_symbol`, halved until a single symbol is left. -/
def findSymbolLoop (cdf : Cdf) (freq : Nat) (lo hi : Nat) (bound : hi ≤ 256) : Nat :=
  if inside : lo < hi then
    let mid := (lo + hi) / 2
    have midLt : mid < hi := by omega
    if (cdf ⟨mid + 1, by omega⟩).toNat ≤ freq then
      findSymbolLoop cdf freq (mid + 1) hi bound
    else
      findSymbolLoop cdf freq lo mid (by omega)
  else lo
termination_by hi - lo

/-- Resolve a cumulative frequency to its symbol. -/
def findSymbol (cdf : Cdf) (freq : Nat) : Nat :=
  if freq < (cdf 1).toNat then 0
  else if freq < (cdf 2).toNat then 1
  else findSymbolLoop cdf freq 2 256 (Nat.le_refl _)

/-- A byte-level probability predictor with state `σ`. -/
class ProbabilityPredictor (σ : Type) where
  /-- The cumulative frequency table for the next byte. -/
  predictCdf : σ → Cdf × σ
  /-- The two table entries bounding one byte. -/
  queryCdf : σ → UInt8 → (UInt16 × UInt16) × σ
  /-- The symbol whose interval contains a cumulative frequency, with its interval. -/
  decodeSymbol : σ → Nat → (UInt8 × UInt16 × UInt16) × σ
  /-- Feed a confirmed byte to the model. -/
  update : σ → UInt8 → σ
  /-- Return to the initial conditions. -/
  reset : σ → σ
  /-- Human-readable name for error messages. -/
  name : σ → String
  /-- Identifier stored in the archive header. -/
  predictorId : σ → PredictorId
  /-- The learned state, for dictionary pretraining. -/
  saveState : σ → Option Bytes := fun _ => none
  /-- Load a pretrained state; the flag tells whether it was accepted. -/
  loadState : σ → Bytes → Bool × σ := fun state _ => (false, state)
  /-- The per-block coding baseline this predictor resets to. -/
  codingBaseline : σ → Option Bytes := fun _ => none
  /-- Install a dictionary state as the per-block reset baseline. -/
  setCodingBaseline : σ → Bytes → Bool × σ := fun state _ => (false, state)

namespace ProbabilityPredictor

variable {σ : Type} [ProbabilityPredictor σ]

/-- The states a predictor reaches from `start` while blocks are coded with it. -/
inductive Reachable (start : σ) : σ → Prop where
  | start : Reachable start start
  | predict {state : σ} : Reachable start state → Reachable start (predictCdf state).2
  | query {state : σ} (byte : UInt8) : Reachable start state →
      Reachable start (queryCdf state byte).2
  | decode {state : σ} (freq : Nat) : freq < PROB_TOTAL → Reachable start state →
      Reachable start (decodeSymbol state freq).2
  | update {state : σ} (byte : UInt8) : Reachable start state → Reachable start (update state byte)
  | reset {state : σ} : Reachable start state → Reachable start (reset state)

/-- What the range coder relies on in one predictor state: a valid table, the two
fast paths agreeing with it, and one successor per byte whichever path was taken. -/
structure Coherent (state : σ) : Prop where
  valid : (predictCdf state).1.Valid
  query_eq (byte : UInt8) :
    (queryCdf state byte).1 = ((predictCdf state).1.lower byte, (predictCdf state).1.upper byte)
  decode_eq (freq : Nat) (symbol : UInt8) :
    freq < PROB_TOTAL →
    ((predictCdf state).1.lower symbol).toNat ≤ freq →
    freq < ((predictCdf state).1.upper symbol).toNat →
    (decodeSymbol state freq).1 =
      (symbol, (predictCdf state).1.lower symbol, (predictCdf state).1.upper symbol)
  update_eq (freq : Nat) (symbol : UInt8) :
    freq < PROB_TOTAL →
    (decodeSymbol state freq).1.1 = symbol →
    update (decodeSymbol state freq).2 symbol = update (queryCdf state symbol).2 symbol

/-- The predictor contract: every state reached while coding is coherent. -/
def Contract (start : σ) : Prop :=
  ∀ state, Reachable start state → Coherent state

theorem Reachable.trans {first second third : σ} (before : Reachable first second)
    (after : Reachable second third) : Reachable first third := by
  induction after with
  | start => exact before
  | predict _ ih => exact ih.predict
  | query byte _ ih => exact ih.query byte
  | decode freq below _ ih => exact ih.decode freq below
  | update byte _ ih => exact ih.update byte
  | reset _ ih => exact ih.reset

/-- The contract is inherited by every state reached. -/
theorem Contract.of_reachable {first second : σ} (contract : Contract first)
    (reached : Reachable first second) : Contract second :=
  fun state after => contract state (reached.trans after)

/-- Two states that no prediction, query or decoding tells apart, by its result or by the
state it leaves. -/
structure Indistinguishable (first second : σ) : Prop where
  predict_eq : predictCdf first = predictCdf second
  query_eq (byte : UInt8) : queryCdf first byte = queryCdf second byte
  decode_eq (freq : Nat) : decodeSymbol first freq = decodeSymbol second freq

/-- The three routes to one table: it is valid, a query reads it, and a decoding finds the one
symbol whose interval contains the frequency. -/
structure RoutesAgree (state : σ) : Prop where
  valid : (predictCdf state).1.Valid
  query_eq (byte : UInt8) :
    (queryCdf state byte).1 = ((predictCdf state).1.lower byte, (predictCdf state).1.upper byte)
  decode_eq (freq : Nat) : freq < PROB_TOTAL →
    ∃ symbol, (predictCdf state).1.Contains freq symbol ∧
      (∀ other, (predictCdf state).1.Contains freq other → other = symbol) ∧
      (decodeSymbol state freq).1 =
        (symbol, (predictCdf state).1.lower symbol, (predictCdf state).1.upper symbol)

theorem Coherent.routesAgree {state : σ} (coherent : Coherent state) : RoutesAgree state where
  valid := coherent.valid
  query_eq := coherent.query_eq
  decode_eq freq inside := by
    obtain ⟨symbol, above, below⟩ := coherent.valid.exists_contains inside
    refine ⟨symbol, ⟨above, below⟩, ?_, coherent.decode_eq freq symbol inside above below⟩
    rintro other ⟨otherAbove, otherBelow⟩
    exact coherent.valid.symbol_unique otherAbove otherBelow above below

theorem Coherent.lower_lt_upper {state : σ} (coherent : Coherent state) (byte : UInt8) :
    ((predictCdf state).1.lower byte).toNat < ((predictCdf state).1.upper byte).toNat :=
  coherent.valid.increasing (Fin.mk_lt_mk.mpr (Nat.lt_succ_self _))

theorem Coherent.upper_le_total {state : σ} (coherent : Coherent state) (byte : UInt8) :
    ((predictCdf state).1.upper byte).toNat ≤ PROB_TOTAL := by
  rw [← coherent.valid.total]
  apply coherent.valid.increasing.monotone
  change byte.toNat + 1 ≤ 256
  have := byte.toNat_lt
  omega

end ProbabilityPredictor

end AetherArch
