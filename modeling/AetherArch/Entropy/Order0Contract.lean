import AetherArch.Entropy.Order0

/-! # The order-0 model keeps the predictor contract

In every state it reaches, the tree of an `Order0Model` is the prefix-sum tree of
its positive counts and the total is their sum (`Order0Model.WellFormed`). Division
by reciprocal is exact on the operands of the quantizer (`ExactDivisor.div_eq`), so
the table, the point query and the search all read the same boundaries.
-/

namespace AetherArch

namespace ExactDivisor

/-- **Multiply-and-shift is division** while the dividend and the divisor leave the
rounding error below one unit of the shift. -/
theorem div_eq {total n : Nat} (positive : 0 < total)
    (small : total ≤ MAX_MAGIC_TOTAL → n ≤ total * 2 ^ 15) : (new total).div n = n / total := by
  by_cases exact : total ≤ MAX_MAGIC_TOTAL
  · have divisor : total ≤ 2 ^ 20 := exact
    have dividend : n ≤ 2 ^ 35 :=
      calc n ≤ total * 2 ^ 15 := small exact
        _ ≤ 2 ^ 20 * 2 ^ 15 := Nat.mul_le_mul_right _ divisor
        _ = 2 ^ 35 := by norm_num
    have scale : (1 : Nat) <<< SHIFT = 2 ^ 56 := by decide
    simp only [div, new, exact, positive, and_self, decide_true, ↓reduceIte, scale,
      Nat.shiftRight_eq_div_pow]
    change n * (2 ^ 56 / total + 1) / 2 ^ 56 % 2 ^ 64 = n / total
    have quotient : n * (2 ^ 56 / total + 1) / 2 ^ 56 = n / total := by
      -- The magic number exceeds `2 ^ 56 / total` by `error / total`.
      obtain ⟨error, errorLe, magic⟩ :
          ∃ error ≤ total, total * (2 ^ 56 / total + 1) = 2 ^ 56 + error := by
        generalize 2 ^ 56 = power
        have division := Nat.div_add_mod power total
        have := Nat.mod_lt power positive
        exact ⟨total - power % total, Nat.sub_le _ _, by rw [Nat.mul_add]; omega⟩
      have product : n * error < 2 ^ 56 :=
        calc n * error ≤ 2 ^ 35 * 2 ^ 20 := Nat.mul_le_mul dividend (errorLe.trans divisor)
          _ < 2 ^ 56 := by norm_num
      have expand : total * (n * (2 ^ 56 / total + 1)) = n * 2 ^ 56 + n * error := by
        rw [← Nat.mul_add, ← magic]
        ring
      apply Nat.div_eq_of_lt_le
      · apply Nat.le_of_mul_le_mul_left _ positive
        rw [expand]
        calc total * (n / total * 2 ^ 56) = total * (n / total) * 2 ^ 56 := by ring
          _ ≤ n * 2 ^ 56 := Nat.mul_le_mul_right _ (Nat.mul_div_le n total)
          _ ≤ _ := Nat.le_add_right _ _
      · apply Nat.lt_of_mul_lt_mul_left (a := total)
        rw [expand]
        have above : n + 1 ≤ total * (n / total + 1) := Nat.lt_mul_div_succ n positive
        calc n * 2 ^ 56 + n * error < (n + 1) * 2 ^ 56 := by omega
          _ ≤ total * (n / total + 1) * 2 ^ 56 := Nat.mul_le_mul_right _ above
          _ = total * ((n / total + 1) * 2 ^ 56) := by ring
    rw [quotient, Nat.mod_eq_of_lt]
    calc n / total ≤ n := Nat.div_le_self n total
      _ ≤ 2 ^ 35 := dividend
      _ < 2 ^ 64 := by norm_num
  · simp only [div, new, exact, and_false, decide_false, Bool.false_eq_true, ↓reduceIte]

end ExactDivisor

namespace Order0Model

/-- The cumulative count is a sum over the positions of the tree. -/
theorem cumulative_eq_sum (counts : Nat → Nat) (symbol : Nat) :
    cumulative counts symbol = ∑ i ∈ Finset.Ioc 0 symbol, counts (i - 1) := by
  induction symbol with
  | zero => rfl
  | succ symbol ih =>
      rw [cumulative, ih, Finset.sum_Ioc_succ_top (Nat.zero_le _), Nat.add_sub_cancel]

theorem cumulative_mono (counts : Nat → Nat) : Monotone (cumulative counts) :=
  monotone_nat_of_le_succ fun _ => Nat.le_add_right _ _

/-- What every reachable state satisfies. -/
structure WellFormed (model : Order0Model) : Prop where
  represents : Fenwick.Represents model.fenwick (fun position => model.counts (position - 1)) 256
  total_eq : model.total = cumulative model.counts 256
  positive (symbol : Nat) : symbol < 256 → 0 < model.counts symbol
  bounded : model.total ≤ 256 * MAX_COUNT

/-- The rebuilt tree represents the counts. -/
theorem rebuildFenwick_represents (counts : Nat → Nat) :
    Fenwick.Represents (rebuildFenwick counts) (fun position => counts (position - 1)) 256 := by
  unfold rebuildFenwick
  exact Fenwick.build_represents (M := ℕ) 256 fun position => counts (position - 1)

/-- Equal counts accumulate to a multiple. -/
theorem cumulative_const (count symbol : Nat) :
    cumulative (fun _ => count) symbol = symbol * count := by
  induction symbol with
  | zero => rw [cumulative, Nat.zero_mul]
  | succ symbol ih => rw [cumulative, ih, Nat.succ_mul]

theorem new_counts : new.counts = fun _ => 1 := rfl

/-- A new model is well formed. -/
theorem new_wellFormed : new.WellFormed where
  represents := rebuildFenwick_represents fun _ => 1
  total_eq := by
    rw [new_counts, cumulative_const]
    rfl
  positive _ _ := Nat.one_pos
  bounded := by norm_num [new, MAX_COUNT]

/-- Larger counts accumulate to more. -/
theorem cumulative_le {counts bounds : Nat → Nat} {symbol : Nat}
    (le : ∀ i < symbol, counts i ≤ bounds i) :
    cumulative counts symbol ≤ cumulative bounds symbol := by
  induction symbol with
  | zero => exact le_rfl
  | succ symbol ih =>
      exact Nat.add_le_add (ih fun i less => le i (by omega)) (le symbol (Nat.lt_succ_self _))

/-- Raising one count raises the cumulative counts after it. -/
theorem cumulative_update (counts : Nat → Nat) (symbol delta bound : Nat)
    (inside : symbol < bound) :
    cumulative (Function.update counts symbol (counts symbol + delta)) bound =
      cumulative counts bound + delta := by
  have below (limit : Nat) (outside : limit ≤ symbol) :
      cumulative (Function.update counts symbol (counts symbol + delta)) limit =
        cumulative counts limit := by
    induction limit with
    | zero => rfl
    | succ limit ih =>
        rw [cumulative, cumulative, ih (by omega), Function.update_of_ne (by omega)]
  induction bound with
  | zero => omega
  | succ bound ih =>
      rw [cumulative, cumulative]
      by_cases last : symbol = bound
      · subst last
        rw [below symbol le_rfl, Function.update_self]
        omega
      · rw [ih (by omega), Function.update_of_ne (Ne.symm last)]
        omega

/-- An update keeps a model well formed. -/
theorem update_wellFormed {model : Order0Model} (wellFormed : model.WellFormed) (byte : UInt8) :
    (model.update byte).WellFormed := by
  obtain ⟨represents, totalEq, positive, bounded⟩ := wellFormed
  have byteLt : byte.toNat < 256 := byte.toNat_lt
  have counted := cumulative_update model.counts byte.toNat 1 256 byteLt
  have stillPositive (symbol : Nat) (inside : symbol < 256) :
      0 < Function.update model.counts byte.toNat (model.counts byte.toNat + 1) symbol := by
    by_cases same : symbol = byte.toNat
    · rw [same, Function.update_self]
      exact Nat.succ_pos _
    · rw [Function.update_of_ne same]
      exact positive symbol inside
  unfold update
  dsimp only
  split
  · have rescaled (model : Order0Model) (bounded : model.rescale.total ≤ 256 * MAX_COUNT) :
        model.rescale.WellFormed :=
      ⟨rebuildFenwick_represents model.rescale.counts, by dsimp only [rescale],
        fun _ _ => Nat.lt_of_lt_of_le Nat.one_pos (Nat.le_max_right _ _), bounded⟩
    apply rescaled
    have halved : cumulative (fun symbol => max
        (Function.update model.counts byte.toNat (model.counts byte.toNat + 1) symbol >>> 1) 1)
          256 ≤ cumulative model.counts 256 := by
      refine cumulative_le fun symbol inside => ?_
      -- A positive count is at least half of its successor.
      have countPositive := positive symbol inside
      rw [Nat.shiftRight_one]
      by_cases same : symbol = byte.toNat
      · rw [same] at countPositive ⊢
        rw [Function.update_self]
        omega
      · rw [Function.update_of_ne same]
        omega
    rw [totalEq] at bounded
    exact halved.trans bounded
  · rename_i small
    refine ⟨?_, ?_, stillPositive, ?_⟩
    · have added := Fenwick.add_represents 1 represents (Nat.succ_pos byte.toNat)
      refine added.congr fun position positionPositive _ => ?_
      by_cases same : position = byte.toNat + 1
      · rw [same, Function.update_self, Nat.add_sub_cancel]
        symm
        exact Function.update_self ..
      · rw [Function.update_of_ne same]
        symm
        exact Function.update_of_ne (by omega) ..
    · change model.total + 1 = _
      rw [totalEq]
      exact counted.symm
    · change model.total + 1 ≤ _
      have : MAX_COUNT = 2000000 := rfl
      omega

/-! ## One boundary for all three readers -/

/-- The quantized boundary below a symbol. -/
def boundary (model : Order0Model) (symbol : Nat) : Nat :=
  symbol + cumulative model.counts symbol * SCALABLE / model.total

/-- The total is positive. -/
theorem WellFormed.total_pos {model : Order0Model} (wellFormed : model.WellFormed) :
    0 < model.total := by
  rw [wellFormed.total_eq]
  have first := wellFormed.positive 255 (by omega)
  exact Nat.lt_of_lt_of_le first (Nat.le_add_left _ (cumulative model.counts 255))

/-- No cumulative count exceeds the total. -/
theorem WellFormed.cumulative_le_total {model : Order0Model} (wellFormed : model.WellFormed)
    {symbol : Nat} (inside : symbol ≤ 256) : cumulative model.counts symbol ≤ model.total := by
  rw [wellFormed.total_eq]
  exact cumulative_mono model.counts inside

/-- **Quantizing is exact**: neither the reciprocal nor the word widths lose anything. -/
theorem WellFormed.quantizeBoundary_eq {model : Order0Model} (wellFormed : model.WellFormed)
    {symbol : Nat} (inside : symbol ≤ 256) :
    quantizeBoundary (ExactDivisor.new model.total) (cumulative model.counts symbol) symbol =
      model.boundary symbol := by
  have le := wellFormed.cumulative_le_total inside
  have scalable : SCALABLE = 32512 := by decide
  have dividend : cumulative model.counts symbol * SCALABLE ≤ model.total * 2 ^ 15 := by
    rw [scalable]
    omega
  have quotient : cumulative model.counts symbol * SCALABLE / model.total ≤ SCALABLE := by
    apply Nat.div_le_of_le_mul
    exact Nat.mul_le_mul_right _ le
  rw [quantizeBoundary, ExactDivisor.div_eq wellFormed.total_pos fun _ => dividend,
    Nat.mod_eq_of_lt (by omega)]
  rfl

/-- The boundaries strictly increase. -/
theorem WellFormed.boundary_lt_succ {model : Order0Model} (symbol : Nat) :
    model.boundary symbol < model.boundary (symbol + 1) := by
  have : cumulative model.counts symbol * SCALABLE / model.total ≤
      cumulative model.counts (symbol + 1) * SCALABLE / model.total :=
    Nat.div_le_div_right (Nat.mul_le_mul_right _ (cumulative_mono _ (Nat.le_succ symbol)))
  unfold boundary
  omega

/-- The boundary of a symbol is below the end of the range. -/
theorem WellFormed.boundary_lt_total {model : Order0Model} (wellFormed : model.WellFormed)
    {symbol : Nat} (inside : symbol < 256) : model.boundary symbol < PROB_TOTAL := by
  have quotient : cumulative model.counts symbol * SCALABLE / model.total ≤ SCALABLE := by
    apply Nat.div_le_of_le_mul
    exact Nat.mul_le_mul_right _ (wellFormed.cumulative_le_total inside.le)
  have scalable : SCALABLE = 32512 := by decide
  have total : PROB_TOTAL = 32768 := by decide
  unfold boundary
  omega

/-- The table holds the boundaries, and the total past the last symbol. -/
theorem WellFormed.toNat_predictCdf {model : Order0Model} (wellFormed : model.WellFormed)
    (index : Fin 257) :
    (model.predictCdf index).toNat =
      if index.val < 256 then model.boundary index.val else PROB_TOTAL := by
  have total : PROB_TOTAL = 32768 := by decide
  unfold predictCdf
  split
  · rename_i inside
    have := wellFormed.boundary_lt_total inside
    rw [wellFormed.quantizeBoundary_eq inside.le, UInt16.toNat_ofNat', Nat.mod_eq_of_lt (by omega)]
  · rw [total]
    rfl

/-- **The predicted table is valid.** -/
theorem WellFormed.predictCdf_valid {model : Order0Model} (wellFormed : model.WellFormed) :
    model.predictCdf.Valid where
  zero := by
    apply UInt16.toNat_inj.mp
    rw [wellFormed.toNat_predictCdf]
    simp [boundary, cumulative]
  total := wellFormed.toNat_predictCdf 256
  increasing := by
    apply Fin.strictMono_iff_lt_succ.mpr
    intro index
    have indexLt := index.isLt
    rw [wellFormed.toNat_predictCdf, wellFormed.toNat_predictCdf, Fin.val_castSucc, Fin.val_succ,
      if_pos indexLt]
    split
    · exact WellFormed.boundary_lt_succ _
    · exact wellFormed.boundary_lt_total indexLt

theorem WellFormed.fenwickPrefix_eq {model : Order0Model} (wellFormed : model.WellFormed)
    {len : Nat} (inside : len ≤ 256) : model.fenwickPrefix len = cumulative model.counts len := by
  rw [fenwickPrefix, Fenwick.prefixSum_eq wellFormed.represents inside, cumulative_eq_sum]

/-- The point query reads the table. -/
theorem WellFormed.queryCdf_eq {model : Order0Model} (wellFormed : model.WellFormed)
    (byte : UInt8) :
    model.queryCdf byte = (model.predictCdf.lower byte, model.predictCdf.upper byte) := by
  have byteLt : byte.toNat < 256 := byte.toNat_lt
  have sum : cumulative model.counts byte.toNat + model.counts byte.toNat =
      cumulative model.counts (byte.toNat + 1) := rfl
  rw [queryCdf]
  simp only [wellFormed.fenwickPrefix_eq byteLt.le, sum, Cdf.lower, Cdf.upper, predictCdf, byteLt,
    ↓reduceIte, Prod.mk.injEq, true_and]
  by_cases last : byte.toNat = 255
  · rw [if_pos last, if_neg (by omega)]
  · rw [if_neg last, if_pos (by omega)]

/-- The search starts between zero and the total. -/
theorem WellFormed.search_brackets {model : Order0Model} (wellFormed : model.WellFormed)
    {freq : Nat}
    (inside : freq < PROB_TOTAL) :
    Fenwick.Search.Brackets (fun position => model.counts (position - 1))
      (fun candidate cum => quantizeBoundary (ExactDivisor.new model.total) cum candidate) 256
      PROB_TOTAL freq 8 { low := 0, sum := 0, lowValue := 0, highValue := PROB_TOTAL } := by
  refine ⟨dvd_zero _, by decide, rfl, ?_, by simp [Fenwick.boundaryAt], Nat.zero_le _, inside⟩
  have zero := wellFormed.quantizeBoundary_eq (show 0 ≤ 256 by decide)
  rw [cumulative_eq_sum] at zero
  simp only [Fenwick.boundaryAt, Nat.ofNat_pos, ↓reduceIte, zero]
  simp [boundary, cumulative]

/-- The search ends at the symbol whose interval contains the frequency. -/
theorem WellFormed.decodeSymbol_eq {model : Order0Model} (wellFormed : model.WellFormed)
    {freq : Nat} {symbol : UInt8} (inside : freq < PROB_TOTAL)
    (above : (model.predictCdf.lower symbol).toNat ≤ freq)
    (below : freq < (model.predictCdf.upper symbol).toNat) :
    model.decodeSymbol freq =
      (symbol, model.predictCdf.lower symbol, model.predictCdf.upper symbol) := by
  have found := (wellFormed.search_brackets inside).foldl wellFormed.represents (by decide)
  have steps : Fenwick.halvings 8 = [128, 64, 32, 16, 8, 4, 2, 1] := by decide
  rw [steps] at found
  unfold decodeSymbol
  dsimp only
  generalize List.foldl _ _ _ = search at found ⊢
  obtain ⟨-, low, -, lowEq, highEq, lowLe, ltHigh⟩ := found
  have boundaryAt (position : Nat) (le : position ≤ 256) :
      Fenwick.boundaryAt (fun position => model.counts (position - 1))
        (fun candidate cum => quantizeBoundary (ExactDivisor.new model.total) cum candidate) 256
        PROB_TOTAL position =
      (model.predictCdf ⟨position, by omega⟩).toNat := by
    rw [wellFormed.toNat_predictCdf, Fenwick.boundaryAt, ← cumulative_eq_sum,
      wellFormed.quantizeBoundary_eq le]
  have lowByte : (UInt8.ofNat search.low).toNat = search.low := UInt8.toNat_ofNat_of_lt' low
  rw [boundaryAt _ low.le] at lowEq
  rw [pow_zero, boundaryAt (search.low + 1) low] at highEq
  have lower : model.predictCdf.lower (UInt8.ofNat search.low) =
      model.predictCdf ⟨search.low, by omega⟩ := by
    simp only [Cdf.lower, lowByte]
  have upper : model.predictCdf.upper (UInt8.ofNat search.low) =
      model.predictCdf ⟨search.low + 1, by omega⟩ := by
    simp only [Cdf.upper, lowByte]
  have same : UInt8.ofNat search.low = symbol :=
    wellFormed.predictCdf_valid.symbol_unique (by rw [lower]; omega) (by rw [upper]; omega)
      above below
  rw [← same, lower, upper, lowEq, highEq, UInt16.ofNat_toNat, UInt16.ofNat_toNat]

/-- **Every model that coding reaches is well formed.** -/
theorem wellFormed_of_reachable {start state : Order0Model} (wellFormed : start.WellFormed)
    (reached : ProbabilityPredictor.Reachable start state) : state.WellFormed := by
  induction reached with
  | start => exact wellFormed
  | predict _ ih => exact ih
  | query _ _ ih => exact ih
  | decode _ _ _ ih => exact ih
  | update byte _ ih => exact update_wellFormed ih byte
  | reset _ _ => exact new_wellFormed

/-- **The order-0 model keeps the predictor contract.** -/
theorem contract {start : Order0Model} (wellFormed : start.WellFormed) :
    ProbabilityPredictor.Contract start := fun _ reached =>
  have reachedWellFormed := wellFormed_of_reachable wellFormed reached
  { valid := reachedWellFormed.predictCdf_valid
    query_eq := reachedWellFormed.queryCdf_eq
    decode_eq := fun _ _ => reachedWellFormed.decodeSymbol_eq
    update_eq := fun _ _ _ _ => rfl }

end Order0Model

end AetherArch
