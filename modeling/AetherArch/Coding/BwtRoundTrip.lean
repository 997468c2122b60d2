import AetherArch.Coding.Bwt

/-! # Inversion of the Burrows–Wheeler transform

The tables of the inverse hold the stable positions of the column
(`lfTable_eq`), so both chains walk the rows of the matrix of the text: backwards
they emit the end of a row, forwards its start, whether or not equal rotations tie.
-/

namespace AetherArch

open BurrowsWheeler

namespace ByteOrder

/-- Bytes in the order of their values. -/
scoped instance instLinearOrderUInt8 : LinearOrder UInt8 where
  le_refl := UInt8.le_refl
  le_trans _ _ _ := UInt8.le_trans
  le_antisymm _ _ := UInt8.le_antisymm
  le_total := UInt8.le_total
  lt_iff_le_not_ge a b := by
    rw [UInt8.not_le]
    exact ⟨fun less => ⟨UInt8.le_of_lt less, less⟩, fun both => both.2⟩
  toDecidableLE := inferInstance
  toDecidableLT := inferInstance
  toDecidableEq := inferInstance

end ByteOrder

open ByteOrder

/-! ## The tables -/

/-- The counts are the numbers of occurrences. -/
theorem countBytes_eq (bwt : Bytes) (b : UInt8) : countBytes bwt b = bwt.count b := by
  have general (count : UInt8 → Nat) :
      bwt.foldl (fun count b => Function.update count b (count b + 1)) count b =
        count b + bwt.count b := by
    induction bwt generalizing count with
    | nil => rfl
    | cons x bwt ih =>
        rw [List.foldl_cons, ih, List.count_cons]
        by_cases same : b = x
        · subst same
          rw [Function.update_self, if_pos (by simp)]
          omega
        · rw [Function.update_of_ne same, if_neg (by simpa using Ne.symm same)]
          omega
  exact (general _).trans (Nat.zero_add _)

/-- The cumulative counts are the numbers of smaller bytes. -/
theorem cumulBytes_eq (bwt : Bytes) {bound : Nat} (inside : bound ≤ 256) :
    cumulBytes (countBytes bwt) bound = bwt.countP (fun b => b.toNat < bound) := by
  induction bound with
  | zero => simp [cumulBytes]
  | succ bound ih =>
      rw [cumulBytes, ih (by omega), countBytes_eq]
      have value : (UInt8.ofNat bound).toNat = bound := UInt8.toNat_ofNat_of_lt' (by
        change bound < 256
        omega)
      clear ih
      induction bwt with
      | nil => rfl
      | cons x bwt step =>
          rw [List.countP_cons, List.countP_cons, List.count_cons, ← step]
          by_cases same : x = UInt8.ofNat bound
          · have here : x.toNat = bound := by rw [same, value]
            simp only [decide_eq_true_eq, same, value, lt_irrefl, lt_add_one, beq_self_eq_true,
              ↓reduceIte]
            omega
          · have other : x.toNat ≠ bound := fun here => same (by rw [← here, UInt8.ofNat_toNat])
            have none : ¬(x == UInt8.ofNat bound) = true := by simpa using same
            simp only [decide_eq_true_eq, none, Bool.false_eq_true, ↓reduceIte]
            split <;> split <;> omega

/-- Filling from an index on leaves the entries before it. -/
theorem fillLf_of_lt (store : Nat → UInt8 → Nat) (cumul : UInt8 → Nat) {bwt : Bytes} {i j : Nat}
    {occ : UInt8 → Nat} {table : Nat → Nat} (before : j < i) :
    fillLf store cumul i occ table bwt j = table j := by
  induction bwt generalizing i occ table with
  | nil => rfl
  | cons b bwt ih => rw [fillLf, ih (by omega), Function.update_of_ne (by omega)]

/-- Filling stores the last-to-first position of every entry. -/
theorem fillLf_of_getElem (store : Nat → UInt8 → Nat) (cumul : UInt8 → Nat) (i : Nat)
    (occ : UInt8 → Nat) (table : Nat → Nat) {bwt : Bytes} {k : Nat} (inside : k < bwt.length) :
    fillLf store cumul i occ table bwt (i + k) =
      store (cumul bwt[k] + (occ bwt[k] + (bwt.take k).count bwt[k])) bwt[k] := by
  induction bwt generalizing i k occ table with
  | nil => exact absurd inside (Nat.not_lt_zero k)
  | cons b bwt ih =>
      rw [fillLf]
      cases k with
      | zero => simp [fillLf_of_lt store cumul (Nat.lt_succ_self i)]
      | succ k =>
          have within : k < bwt.length := Nat.lt_of_succ_lt_succ inside
          have shifted : i + (k + 1) = i + 1 + k := by omega
          rw [shifted, ih _ _ _ within, List.getElem_cons_succ, List.take_succ_cons,
            List.count_cons]
          by_cases same : bwt[k] = b
          · rw [same, Function.update_self, if_pos (by simp)]
            congr 2
            omega
          · rw [Function.update_of_ne same, if_neg (by simpa using Ne.symm same), Nat.add_zero]

/-- **The table holds the stable positions of the column.** -/
theorem lfTable_eq (store : Nat → UInt8 → Nat) {bwt : Bytes} (index : Fin bwt.length) :
    lfTable store bwt index = store (stablePosition bwt index) bwt[index] := by
  have filled := fillLf_of_getElem store (fun b => cumulBytes (countBytes bwt) b.toNat)
    0 (fun _ => 0) (fun _ => 0) index.isLt
  have byteLt : bwt[index.val].toNat < 256 := bwt[index.val].toNat_lt
  rw [Nat.zero_add] at filled
  have below : bwt.countP (fun b => b.toNat < bwt[index.val].toNat) =
      bwt.countP (· < bwt[index.val]) :=
    List.countP_congr fun b _ => by simp only [decide_eq_true_eq, UInt8.lt_iff_toNat_lt]
  rw [lfTable, filled, cumulBytes_eq bwt byteLt.le, Nat.zero_add, below]
  rfl

/-! ## Packed entries -/

/-- A packed entry is a sum: the position fills the bits above the byte. -/
theorem packLf_eq {position : Nat} (small : position < 2 ^ 24) (b : UInt8) :
    packLf position b = position * 256 + b.toNat := by
  have byteLt : b.toNat < 2 ^ 8 := b.toNat_lt
  have shifted : position <<< 8 = position * 256 := Nat.shiftLeft_eq position 8
  rw [packLf, Nat.mod_eq_of_lt (by omega), ← Nat.shiftLeft_add_eq_or_of_lt byteLt, shifted]

/-- A packed entry holds its byte. -/
theorem packLf_byte {position : Nat} (small : position < 2 ^ 24) (b : UInt8) :
    UInt8.ofNat (packLf position b) = b := by
  have byteLt : b.toNat < 2 ^ 8 := b.toNat_lt
  apply UInt8.toNat_inj.mp
  rw [packLf_eq small, UInt8.toNat_ofNat']
  omega

/-- A packed entry holds its position. -/
theorem packLf_position {position : Nat} (small : position < 2 ^ 24) (b : UInt8) :
    packLf position b >>> 8 = position := by
  have byteLt : b.toNat < 2 ^ 8 := b.toNat_lt
  rw [packLf_eq small, Nat.shiftRight_eq_div_pow]
  omega

/-- Packing a new position over the byte of a packed entry. -/
theorem packLf_repack {position : Nat} (small : position < 2 ^ 24) (b : UInt8) (other : Nat) :
    (other <<< 8) % 2 ^ 32 ||| (packLf position b &&& 0xFF) = packLf other b := by
  have byteLt : b.toNat < 2 ^ 8 := b.toNat_lt
  have masked : packLf position b &&& 0xFF = b.toNat := by
    rw [packLf_eq small, show 0xFF = 2 ^ 8 - 1 from rfl, Nat.and_two_pow_sub_one_eq_mod]
    omega
  rw [masked, packLf]

/-- Filling a table at distinct places stores every value. -/
theorem foldl_update_apply {place value : Nat → Nat} {bound : Nat} {table : Nat → Nat}
    (distinct : ∀ i < bound, ∀ j < bound, place i = place j → i = j) {i : Nat}
    (inside : i < bound) :
    (List.range bound).foldl (fun table i => Function.update table (place i) (value i)) table
      (place i) = value i := by
  induction bound with
  | zero => exact absurd inside (Nat.not_lt_zero i)
  | succ bound ih =>
      rw [List.range_succ, List.foldl_append, List.foldl_cons, List.foldl_nil]
      by_cases last : i = bound
      · rw [last, Function.update_self]
      · have other : place i ≠ place bound := fun same =>
          last (distinct i inside bound (Nat.lt_succ_self _) same)
        rw [Function.update_of_ne other]
        exact ih (fun i less j below => distinct i (by omega) j (by omega)) (by omega)

/-- The packed table of a transform short enough to pack. -/
theorem lfTable_pack {bwt : Bytes} (short : bwt.length ≤ 2 ^ 24) (index : Fin bwt.length) :
    UInt8.ofNat (lfTable packLf bwt index) = bwt[index] ∧
      lfTable packLf bwt index >>> 8 = lastFirst bwt index := by
  have small := (stablePosition_lt index).trans_le short
  rw [lfTable_eq]
  exact ⟨packLf_byte small _, packLf_position small _⟩

/-- The inverse table holds the rows of the left rotations. -/
theorem inverseTable_pack {bwt : Bytes} (short : bwt.length ≤ 2 ^ 24) (index : Fin bwt.length) :
    inverseTable bwt.length (lfTable packLf bwt) (lastFirst bwt index) =
      packLf index bwt[index] := by
  have place (i : Nat) (inside : i < bwt.length) :
      lfTable packLf bwt i >>> 8 = lastFirst bwt ⟨i, inside⟩ :=
    (lfTable_pack short ⟨i, inside⟩).2
  have distinct : ∀ i < bwt.length, ∀ j < bwt.length,
      lfTable packLf bwt i >>> 8 = lfTable packLf bwt j >>> 8 → i = j := by
    intro i iLt j jLt same
    rw [place i iLt, place j jLt] at same
    exact Fin.mk.inj ((lastFirst bwt).injective (Fin.ext same))
  rw [← place index index.isLt, inverseTable, foldl_update_apply distinct index.isLt, lfTable_eq,
    packLf_repack ((stablePosition_lt index).trans_le short)]

/-! ## Walking the rows -/

variable {bwt : Bytes} (matrix : Matrix bwt)

/-- **Walking back emits the end of a row.** -/
theorem walkBack_row (byteAt : Nat → UInt8) (next : Nat → Nat)
    (byteAt_eq : ∀ index : Fin bwt.length, byteAt index = bwt[index])
    (next_eq : ∀ index : Fin bwt.length, next index = lastFirst bwt index)
    (output : Bytes) {front back : Bytes} {index : Fin bwt.length}
    (ends : matrix.row index = front ++ back) :
    walkBack byteAt next back.length index output = back ++ output := by
  induction back using List.reverseRecOn generalizing front index output with
  | nil => rfl
  | append_singleton back last ih =>
      rw [← List.append_assoc] at ends
      obtain ⟨rotated, entry⟩ := matrix.row_lastFirst_concat ends
      rw [List.length_append, List.length_singleton, walkBack, byteAt_eq, next_eq, entry,
        @ih _ (last :: front) _ rotated, List.append_assoc, List.singleton_append]

/-- **Walking both chains** emits the end of one row and the start of another. -/
theorem walkBoth_rows (short : bwt.length ≤ 2 ^ 24) {rounds : Nat} (front tail : Bytes)
    {back fwd : Fin bwt.length} {before after start rest : Bytes}
    (backRow : matrix.row back = before ++ after)
    (fwdRow : matrix.row fwd = start ++ rest) (afterLength : after.length = rounds)
    (startLength : start.length = rounds) :
    ∃ last : Fin bwt.length, matrix.row last = after ++ before ∧
      walkBoth (lfTable packLf bwt) (inverseTable bwt.length (lfTable packLf bwt)) rounds back fwd
        front tail = (last.val, front ++ start, after ++ tail) := by
  induction rounds generalizing back fwd before after start rest front tail with
  | zero =>
      rw [List.length_eq_zero_iff] at afterLength startLength
      subst afterLength startLength
      exact ⟨back, by simpa using backRow, by simp [walkBoth]⟩
  | succ rounds ih =>
      obtain ⟨ends, last, rfl⟩ := List.eq_nil_or_concat after |>.resolve_left (by
        rintro rfl
        simp at afterLength)
      cases start with
      | nil => simp at startLength
      | cons first start =>
          rw [List.concat_eq_append, ← List.append_assoc] at backRow
          rw [List.cons_append] at fwdRow
          obtain ⟨backNext, backEntry⟩ := matrix.row_lastFirst_concat backRow
          obtain ⟨fwdNext, fwdEntry⟩ := matrix.row_lastFirst_symm fwdRow
          rw [List.append_assoc] at fwdNext
          have small : ((lastFirst bwt).symm fwd).val < 2 ^ 24 :=
            ((lastFirst bwt).symm fwd).isLt.trans_le short
          have inverse := inverseTable_pack short ((lastFirst bwt).symm fwd)
          rw [Equiv.apply_symm_apply, fwdEntry] at inverse
          obtain ⟨byte, next⟩ := lfTable_pack short back
          obtain ⟨final, finalRow, walked⟩ := ih (front ++ [first]) (last :: tail)
            (show _ = (last :: before) ++ ends from backNext) fwdNext (by simpa using afterLength)
            (by simpa using startLength)
          refine ⟨final, by simpa using finalRow, ?_⟩
          rw [walkBoth, byte, next, inverse, packLf_byte small, packLf_position small, backEntry,
            walked]
          simp

/-- **Inversion of the transform, for every walk shape.** -/
theorem bwtDecodeWith_row {twoChainMin maxPackedLf : Nat} (packable : maxPackedLf ≤ 2 ^ 24)
    {index : Fin bwt.length} :
    bwtDecodeWith bwt index twoChainMin maxPackedLf = .ok (matrix.row index) := by
  have length : (matrix.row index).length = bwt.length := by
    rw [matrix.row_eq, List.length_append, List.length_singleton, matrix.length_init]
  have positive : bwt.length ≠ 0 := Nat.ne_of_gt (Nat.zero_lt_of_lt index.isLt)
  have inside : ¬index.val ≥ bwt.length := Nat.not_le.mpr index.isLt
  rw [bwtDecodeWith]
  simp only [positive, inside, ↓reduceIte]
  split
  · have walked := walkBack_row matrix (fun idx => bwt.getD idx 0)
      (lfTable (fun position _ => position) bwt)
      (fun index => List.getD_eq_getElem _ _ index.isLt) (fun index => lfTable_eq _ index)
      [] (List.nil_append (matrix.row index)).symm
    rw [length, List.append_nil] at walked
    rw [walked]
  · rename_i packed
    have short : bwt.length ≤ 2 ^ 24 := (Nat.not_lt.mp packed).trans packable
    split
    · have walked := walkBack_row matrix (fun idx => UInt8.ofNat (lfTable packLf bwt idx))
        (fun idx => lfTable packLf bwt idx >>> 8) (fun index => (lfTable_pack short index).1)
        (fun index => (lfTable_pack short index).2) [] (List.nil_append (matrix.row index)).symm
      rw [length, List.append_nil] at walked
      rw [walked]
    · -- The front chain emits the first half, the back chain the last one.
      have halves : matrix.row index = (matrix.row index).take (bwt.length - bwt.length / 2) ++
          (matrix.row index).drop (bwt.length - bwt.length / 2) := (List.take_append_drop ..).symm
      have starts : matrix.row index = (matrix.row index).take (bwt.length / 2) ++
          (matrix.row index).drop (bwt.length / 2) := (List.take_append_drop ..).symm
      obtain ⟨last, lastRow, walked⟩ := walkBoth_rows matrix short [] [] halves starts
        (show _ = bwt.length / 2 by rw [List.length_drop, length]; omega)
        (by rw [List.length_take, length]; omega)
      rw [walked]
      simp only [List.nil_append, List.append_nil]
      split
      · rename_i odd
        have middle : bwt.length / 2 < (matrix.row index).length := by omega
        have upper : bwt.length - bwt.length / 2 = bwt.length / 2 + 1 := by omega
        rw [upper, List.take_succ_eq_append_getElem middle, ← List.append_assoc] at lastRow
        have entry := (matrix.row_lastFirst_concat lastRow).2
        rw [upper, (lfTable_pack short last).1, entry, ← List.drop_eq_getElem_cons middle,
          List.take_append_drop]
      · rename_i even
        have upper : bwt.length - bwt.length / 2 = bwt.length / 2 := by omega
        rw [upper, List.take_append_drop]

/-! ## From the suffix array -/

/-- A suffix array of a text: its positions, in the order of their suffixes. -/
structure SuffixArray (text : Bytes) (sa : List Nat) : Prop where
  perm : sa.Perm (List.range text.length)
  sorted : sa.Pairwise fun first second => text.drop first < text.drop second

/-- The starts inside the text are its sorted rotations. -/
theorem SuffixArray.rotations {data : Bytes} {sa : List Nat}
    (array : SuffixArray (data ++ data) sa) :
    SortedRotations data (sa.filter (· < data.length)) where
  perm := by
    have filtered := array.perm.filter (· < data.length)
    rw [List.length_append, List.range_add, List.filter_append] at filtered
    have inside : (List.range data.length).filter (· < data.length) = List.range data.length :=
      List.filter_eq_self.mpr fun start member => by simpa using member
    have outside : ((List.range data.length).map (data.length + ·)).filter (· < data.length) = [] :=
      List.filter_eq_nil_iff.mpr fun start member => by
        obtain ⟨offset, -, rfl⟩ := List.mem_map.mp member
        simp
    rw [inside, outside, List.append_nil] at filtered
    exact filtered
  sorted := array.sorted.filter _

/-- Scanning collects the transform of the starts inside the text. -/
theorem scanRotations_eq {data : Bytes} {sa : List Nat} (bwt : Bytes) (primaryIndex : Nat)
    (positive : 0 < data.length) (nodup : sa.Nodup)
    (total : bwt.length + (sa.filter (· < data.length)).length = data.length) :
    scanRotations data sa bwt primaryIndex =
      (bwt ++ SortedRotations.transform 0 data (sa.filter (· < data.length)),
        if 0 ∈ sa then bwt.length + (sa.filter (· < data.length)).idxOf 0 else primaryIndex) := by
  induction sa generalizing bwt primaryIndex with
  | nil => simp [scanRotations, SortedRotations.transform]
  | cons pos sa ih =>
      obtain ⟨fresh, rest⟩ := List.nodup_cons.mp nodup
      rw [scanRotations]
      dsimp only
      split
      · rename_i inside
        rw [List.filter_cons_of_pos (by simpa using inside)] at total ⊢
        rw [List.length_cons] at total
        have grown : bwt ++ SortedRotations.transform 0 data
            (pos :: sa.filter (· < data.length)) =
            bwt ++ [data.getD ((pos + data.length - 1) % data.length) 0] ++
              SortedRotations.transform 0 data (sa.filter (· < data.length)) := by
          rw [List.append_assoc]
          rfl
        rw [grown]
        have member : 0 ∈ sa ↔ 0 ∈ sa.filter (· < data.length) := by simp [positive]
        split
        · rename_i full
          have ended : sa.filter (· < data.length) = [] := by
            rw [List.length_append, List.length_singleton] at full
            exact List.length_eq_zero_iff.mp (by omega)
          rw [ended] at member ⊢
          by_cases first : pos = 0
          · simp [SortedRotations.transform, first]
          · have other : 0 ∉ pos :: sa := by
              rw [List.mem_cons, member]
              simp [Ne.symm first]
            simp [SortedRotations.transform, first, other]
        · rw [ih _ _ rest (by rw [List.length_append, List.length_singleton]; omega)]
          by_cases first : pos = 0
          · subst first
            simp [fresh]
          · simp only [List.length_append, List.length_singleton, first, ↓reduceIte,
              List.mem_cons, Ne.symm first, false_or, List.idxOf_cons_ne _ first, Nat.add_assoc,
              Nat.add_comm 1]
      · rename_i outside
        have other : pos ≠ 0 := fun zero => outside (zero ▸ positive)
        rw [List.filter_cons_of_neg (by simpa using outside)] at total ⊢
        rw [ih _ _ rest total]
        simp only [List.mem_cons, Ne.symm other, false_or]

/-- The suffix arrays the transform relies on. -/
def SortsSuffixes (libsais : Bytes → Option (List Nat)) : Prop :=
  ∀ text sa, libsais text = some sa → SuffixArray text sa

/-- Sort the suffixes by comparing them. -/
def sortSuffixes (text : Bytes) : List Nat :=
  (List.range text.length).mergeSort fun first second => text.drop first ≤ text.drop second

/-- The reference sorting sorts the suffixes. -/
theorem sortSuffixes_sorts : SortsSuffixes fun text => some (sortSuffixes text) := by
  intro text sa found
  cases found
  have perm : (sortSuffixes text).Perm (List.range text.length) := List.mergeSort_perm _ _
  refine ⟨perm, ?_⟩
  have sorted : (sortSuffixes text).Pairwise fun first second =>
      decide (text.drop first ≤ text.drop second) = true := by
    refine List.pairwise_mergeSort ?_ ?_ _
    · intro a b c first second
      simp only [decide_eq_true_eq] at first second ⊢
      exact first.trans second
    · intro a b
      simp only [Bool.or_eq_true, decide_eq_true_eq]
      exact le_total _ _
  have distinct : (sortSuffixes text).Nodup := perm.nodup_iff.mpr List.nodup_range
  refine (sorted.and distinct).imp_of_mem fun {first second} firstMember secondMember both => ?_
  refine lt_of_le_of_ne (of_decide_eq_true both.1) fun same => both.2 ?_
  -- Suffixes of different positions have different lengths.
  have firstLt := List.mem_range.mp (perm.mem_iff.mp firstMember)
  have secondLt := List.mem_range.mp (perm.mem_iff.mp secondMember)
  have lengths := congrArg List.length same
  rw [List.length_drop, List.length_drop] at lengths
  omega

/-- The transform is a column of the matrix of its text, and the primary index the
row of the text itself. -/
theorem bwtEncode_matrix {libsais : Bytes → Option (List Nat)} (sorts : SortsSuffixes libsais)
    {data bwt : Bytes} {primaryIndex : Nat} (nonempty : data ≠ [])
    (encoded : bwtEncode libsais data = .ok (bwt, primaryIndex)) :
    ∃ (matrix : Matrix bwt) (index : Fin bwt.length), index.val = primaryIndex ∧
      matrix.row index = data := by
  have positive : data.length ≠ 0 := fun zero => nonempty (List.length_eq_zero_iff.mp zero)
  unfold bwtEncode at encoded
  simp only [positive, ↓reduceIte] at encoded
  split at encoded
  · rename_i single
    cases encoded
    obtain ⟨byte, rfl⟩ := List.length_eq_one_iff.mp single
    refine ⟨{ row := fun _ => [byte], sorted := fun _ _ _ => le_rfl, init := fun _ => [],
              length_init := fun _ => rfl, row_eq := ?_, rotated := 1, row_rotated := ?_ },
      ⟨0, Nat.one_pos⟩, rfl, rfl⟩ <;> simp
  · split at encoded
    · cases encoded
    · split at encoded
      · cases encoded
      · rename_i sa constructed
        have array := sorts _ sa constructed
        have rotations := array.rotations
        have zero : 0 ∈ sa.filter (· < data.length) :=
          rotations.perm.mem_iff.mpr (List.mem_range.mpr (Nat.pos_of_ne_zero positive))
        have member : 0 ∈ sa := (List.mem_filter.mp zero).1
        have scanned := scanRotations_eq [] 0 (Nat.pos_of_ne_zero positive)
          (array.perm.nodup_iff.mpr List.nodup_range)
          (by rw [List.length_nil, Nat.zero_add, rotations.length_eq])
        rw [List.nil_append, if_pos member, List.length_nil, Nat.zero_add] at scanned
        rw [scanned] at encoded
        cases encoded
        have inside := List.idxOf_lt_length_iff.mpr zero
        have column := inside
        rw [← SortedRotations.length_transform 0 data] at column
        refine ⟨rotations.matrix 0, ⟨_, column⟩, rfl, ?_⟩
        rw [rotations.row_matrix, List.getD_eq_getElem _ _ inside, List.getElem_idxOf,
          List.rotate_zero]

/-- **Burrows–Wheeler round trip, for every walk shape.** -/
theorem bwtDecodeWith_bwtEncode {libsais : Bytes → Option (List Nat)}
    (sorts : SortsSuffixes libsais) (twoChainMin : Nat) {data bwt : Bytes}
    {primaryIndex maxPackedLf : Nat} (packable : maxPackedLf ≤ 2 ^ 24)
    (encoded : bwtEncode libsais data = .ok (bwt, primaryIndex)) :
    bwtDecodeWith bwt primaryIndex twoChainMin maxPackedLf = .ok data := by
  by_cases empty : data = []
  · subst empty
    cases encoded
    rfl
  · obtain ⟨matrix, index, primary, row⟩ := bwtEncode_matrix sorts empty encoded
    rw [← primary, bwtDecodeWith_row matrix packable, row]

/-- A byte string the transform accepts keeps its length. -/
theorem length_bwtEncode {libsais : Bytes → Option (List Nat)} (sorts : SortsSuffixes libsais)
    {data bwt : Bytes} {primaryIndex : Nat}
    (encoded : bwtEncode libsais data = .ok (bwt, primaryIndex)) :
    bwt.length = data.length := by
  by_cases empty : data = []
  · subst empty
    cases encoded
    rfl
  · obtain ⟨matrix, index, -, row⟩ := bwtEncode_matrix sorts empty encoded
    rw [← row, matrix.row_eq, List.length_append, List.length_singleton, matrix.length_init]

/-- The primary index is a row of the matrix. -/
theorem primaryIndex_lt {libsais : Bytes → Option (List Nat)} (sorts : SortsSuffixes libsais)
    {data bwt : Bytes} {primaryIndex : Nat} (nonempty : data ≠ [])
    (encoded : bwtEncode libsais data = .ok (bwt, primaryIndex)) : primaryIndex < data.length := by
  obtain ⟨matrix, index, primary, -⟩ := bwtEncode_matrix sorts nonempty encoded
  rw [← primary, ← length_bwtEncode sorts encoded]
  exact index.isLt

/-- **Round trip of the transform with move-to-front.** -/
theorem bwtMtfDecodeParts_encodeParts {libsais : Bytes → Option (List Nat)}
    (sorts : SortsSuffixes libsais) {data mtfData : Bytes} {primaryIndex : Nat}
    (bounded : data.length ≤ MAX_BWT_DECODE_SIZE)
    (encoded : bwtMtfEncodeParts libsais data = .ok (primaryIndex, mtfData)) :
    mtfData.length = data.length ∧ (data ≠ [] → primaryIndex < data.length) ∧
      bwtMtfDecodeParts primaryIndex mtfData data.length = .ok data := by
  unfold bwtMtfEncodeParts at encoded
  split at encoded
  · cases encoded
  · rename_i bwtData primary transformed
    cases encoded
    refine ⟨by rw [length_mtfEncode, length_bwtEncode sorts transformed],
      fun nonempty => primaryIndex_lt sorts nonempty transformed, ?_⟩
    have decoded := bwtDecodeWith_bwtEncode sorts TWO_CHAIN_MIN
      (show MAX_PACKED_LF ≤ 2 ^ 24 by decide) transformed
    rw [bwtMtfDecodeParts, if_neg (Nat.not_lt.mpr bounded), mtfDecode_mtfEncode, bwtDecode, decoded]
    simp

/-- **Inversion of the transform for every walk shape.** Given the suffix array of the doubled
text, every text of an accepted size is transformed, and decoding returns it whatever the
thresholds choose. -/
theorem bwt_roundTrip (libsais : Bytes → Option (List Nat)) (sorts : SortsSuffixes libsais)
    (data : Bytes) (constructs : ∃ sa, libsais (data ++ data) = some sa)
    (bounded : data.length ≤ MAX_BWT_INPUT_SIZE) :
    ∃ bwt primaryIndex, bwtEncode libsais data = .ok (bwt, primaryIndex) ∧
      bwt.length = data.length ∧
      ∀ twoChainMin maxPackedLf, maxPackedLf ≤ 2 ^ 24 →
        bwtDecodeWith bwt primaryIndex twoChainMin maxPackedLf = .ok data := by
  obtain ⟨bwt, primaryIndex, encoded⟩ :
      ∃ bwt primaryIndex, bwtEncode libsais data = .ok (bwt, primaryIndex) := by
    obtain ⟨sa, constructed⟩ := constructs
    rw [bwtEncode]
    split
    · exact ⟨_, _, rfl⟩
    · split
      · exact ⟨_, _, rfl⟩
      · rw [if_neg (not_lt.mpr bounded), constructed]
        exact ⟨_, _, rfl⟩
  exact ⟨bwt, primaryIndex, encoded, length_bwtEncode sorts encoded,
    fun twoChainMin maxPackedLf packable =>
      bwtDecodeWith_bwtEncode sorts twoChainMin packable encoded⟩

/-- A periodic text, whose rotations tie. -/
theorem bwt_roundTrip_periodic :
    ∃ bwt primaryIndex,
      bwtEncode (fun text => some (sortSuffixes text)) [1, 2, 1, 2, 1, 2] =
          .ok (bwt, primaryIndex) ∧
        bwt.length = [1, 2, 1, 2, 1, 2].length ∧
        ∀ twoChainMin maxPackedLf, maxPackedLf ≤ 2 ^ 24 →
          bwtDecodeWith bwt primaryIndex twoChainMin maxPackedLf = .ok [1, 2, 1, 2, 1, 2] :=
  bwt_roundTrip (fun text => some (sortSuffixes text)) sortSuffixes_sorts [1, 2, 1, 2, 1, 2]
    ⟨_, rfl⟩ (by decide)

end AetherArch
