import AetherArch.Coding.BwtRoundTrip
import AetherArch.Library.Checked

/-! # Inverse block sorting by machine steps

Move-to-front decoding and the inverse transform over fixed arrays, in all three walk
shapes. Every index a walk follows comes from a table of positions, so no walk leaves it,
whatever transform and primary index were stored.
-/

namespace AetherArch

open Checked BurrowsWheeler ByteOrder

namespace Machine

/-- Move the entry of a rank to the front of the list. -/
def moveRankToFront (list : Table UInt8) (rank byte : UInt8) : Run AetherError (Table UInt8) :=
  if rank > 0 then do
    let list ← list.copyWithin 0 rank.toNat 1
    list.set 0 byte
  else .ok list

/-- Decode ranks to bytes, moving each to the front. -/
def mtfDecodeFrom : Table UInt8 → Bytes → Run AetherError Bytes
  | _, [] => .ok []
  | list, rank :: data => do
      let byte ← list.get rank.toNat
      let list ← moveRankToFront list rank byte
      let rest ← mtfDecodeFrom list data
      .ok (byte :: rest)

def mtfDecode (data : Bytes) : Run AetherError Bytes :=
  mtfDecodeFrom { size := 256, entry := UInt8.ofNat } data

/-- Character frequencies. -/
def countBytes : Bytes → Table Nat → Run String (Table Nat)
  | [], count => .ok count
  | b :: bwt, count => do
      let seen ← count.get b.toNat
      let more ← add 32 seen 1
      let count ← count.set b.toNat more
      countBytes bwt count

/-- One round of the cumulative counts: the table so far and the running sum. -/
def cumulRound (count : Table Nat) (i : Nat) (state : Table Nat × Nat) :
    Run String (Table Nat × Nat) := do
  let cumul ← state.1.set i state.2
  let frequency ← count.get i
  let sum ← add 32 state.2 frequency
  .ok (cumul, sum)

/-- Fill a table over the transform from a position on. -/
def fillLf (store : Nat → UInt8 → Nat) (cumul : Table Nat) :
    Bytes → (i : Nat) → (occ table : Table Nat) → Run String (Table Nat)
  | [], _, _, table => .ok table
  | b :: bwt, i, occ, table => do
      let below ← cumul.get b.toNat
      let seen ← occ.get b.toNat
      let position ← add 32 below seen
      let table ← table.set i (store position b)
      let more ← add 32 seen 1
      let occ ← occ.set b.toNat more
      fillLf store cumul bwt (i + 1) occ table

/-- The table of a whole transform. -/
def lfTable (store : Nat → UInt8 → Nat) (bwt : Bytes) : Run String (Table Nat) := do
  let count ← countBytes bwt (.filled 256 0)
  let (cumul, _) ← forRange (cumulRound count) 0 256 (.filled 256 0, 0)
  fillLf store cumul bwt 0 (.filled 256 0) (.filled bwt.length 0)

/-- Fill `count` slots from the last one down, walking from `idx`. -/
def walkBack (read : Nat → Run String (UInt8 × Nat)) : (count idx : Nat) → (output : Bytes) →
    Run String Bytes
  | 0, _, output => .ok output
  | count + 1, idx, output => do
      let (byte, next) ← read idx
      walkBack read count next (byte :: output)

/-- The byte and the last-to-first position of a row, from two arrays. -/
def readRow (bwt : Bytes) (lf : Table Nat) (idx : Nat) : Run String (UInt8 × Nat) := do
  let byte ← index bwt idx
  let next ← lf.get idx
  .ok (byte, next)

/-- The byte and the position of a packed entry. -/
def readPacked (table : Table Nat) (idx : Nat) : Run String (UInt8 × Nat) := do
  let packed ← table.get idx
  .ok (UInt8.ofNat packed, packed >>> 8)

/-- Enter one row into the inverse of a packed table. -/
def inverseRound (forward : Table Nat) (i : Nat) (inverse : Table Nat) :
    Run String (Table Nat) := do
  let packed ← forward.get i
  inverse.set (packed >>> 8) ((i <<< 8) % 2 ^ 32 ||| (packed &&& 0xFF))

/-- The two ends of a walk of both chains, with the output so far. -/
structure Chains where
  back : Nat
  fwd : Nat
  output : Table UInt8

/-- One round of walking both chains. -/
def bothRound (n : Nat) (forward inverse : Table Nat) (k : Nat) (chains : Chains) :
    Run String Chains := do
  let (b, back) ← readPacked forward chains.back
  let last ← sub n 1
  let slot ← sub last k
  let output ← chains.output.set slot b
  let (f, fwd) ← readPacked inverse chains.fwd
  let output ← output.set k f
  .ok { back := back, fwd := fwd, output := output }

/-- Inverse transform with the size thresholds given. -/
def bwtDecodeWith (bwt : Bytes) (primaryIndex twoChainMin maxPackedLf : Nat) :
    Run String Bytes :=
  let n := bwt.length
  if n = 0 then .ok []
  else if primaryIndex ≥ n then refuse "BWT primary index out of bounds"
  else if n > maxPackedLf then do
    let lf ← lfTable (fun position _ => position) bwt
    walkBack (readRow bwt lf) n primaryIndex []
  else do
    let forward ← lfTable packLf bwt
    if n ≤ twoChainMin then walkBack (readPacked forward) n primaryIndex []
    else do
      let inverse ← forRange (inverseRound forward) 0 n (.filled n 0)
      let half := n / 2
      let chains ← forRange (bothRound n forward inverse) 0 half
        { back := primaryIndex, fwd := primaryIndex, output := .filled n 0 }
      if n % 2 = 1 then do
        let (middle, _) ← readPacked forward chains.back
        let output ← chains.output.set half middle
        .ok output.toList
      else .ok chains.output.toList

/-- Inverse transform. -/
def bwtDecode (bwt : Bytes) (primaryIndex : Nat) : Run String Bytes :=
  bwtDecodeWith bwt primaryIndex TWO_CHAIN_MIN MAX_PACKED_LF

/-- Reverse the transform and move-to-front. -/
def bwtMtfDecodeParts (primaryIndex : Nat) (mtfData : Bytes) (expectedSize : Nat) :
    Run AetherError Bytes :=
  if expectedSize > MAX_BWT_DECODE_SIZE then
    refuse (.decompression
      s!"BWT+MTF decode size {expectedSize} exceeds safety limit {MAX_BWT_DECODE_SIZE}")
  else do
    let bwtData ← mtfDecode mtfData
    let original ← renameErrors (fun message => .decompression s!"BWT decode failed: {message}")
      (bwtDecode bwtData primaryIndex)
    if original.length ≠ expectedSize then
      refuse (.decompression
        s!"BWT+MTF decode size mismatch: got {original.length}, expected {expectedSize}")
    else .ok original

/-! ## Move-to-front -/

/-- Moving a rank to the front does not fault. -/
theorem moveRankToFront_eq {list : Table UInt8} (size : list.size = 256) (rank : UInt8) :
    moveRankToFront list rank (list.entry rank.toNat) =
      .ok { size := 256, entry := AetherArch.moveRankToFront list.entry rank } := by
  unfold moveRankToFront AetherArch.moveRankToFront
  have rankLt : rank.toNat < 256 := rank.toNat_lt
  split
  · rw [Table.copyWithin_of_le (Nat.zero_le _) (by omega) (by omega), Result.ok_bind,
      Table.set_of_lt (by dsimp only; omega)]
    dsimp only
    congr 2
    funext i
    by_cases front : i = 0
    · rw [front, Function.update_self, Function.update_self]
    · rw [Function.update_of_ne front, Function.update_of_ne front, Nat.zero_add]
      by_cases moved : i ≤ rank.toNat
      · rw [if_pos (by omega), if_pos (by omega)]
      · rw [if_neg (by omega), if_neg (by omega)]
  · rw [← size]

/-- Nor does decoding the ranks. -/
theorem mtfDecodeFrom_eq {list : Table UInt8} (size : list.size = 256) (data : Bytes) :
    mtfDecodeFrom list data = .ok (AetherArch.mtfDecodeFrom list.entry data) := by
  induction data generalizing list with
  | nil => rfl
  | cons rank data recurse =>
      have rankLt : rank.toNat < list.size := size ▸ rank.toNat_lt
      rw [mtfDecodeFrom, Table.get_of_lt rankLt, Result.ok_bind, moveRankToFront_eq size,
        Result.ok_bind, recurse rfl]
      rfl

/-- **Move-to-front decoding meets no fault.** -/
theorem mtfDecode_eq (data : Bytes) : mtfDecode data = .ok (AetherArch.mtfDecode data) :=
  mtfDecodeFrom_eq rfl data

/-! ## Tables -/

/-- A table of 256 entries that a function of a byte gives. -/
structure Holds (table : Table Nat) (value : UInt8 → Nat) : Prop where
  size_eq : table.size = 256
  entry_eq (b : UInt8) : table.entry b.toNat = value b

/-- A table of counts is read at a byte. -/
theorem Holds.get {table : Table Nat} {value : UInt8 → Nat} (holds : Holds table value)
    (b : UInt8) : (table.get b.toNat : Run String Nat) = .ok (value b) := by
  have inside : b.toNat < table.size := holds.size_eq ▸ b.toNat_lt
  rw [Table.get_of_lt inside, holds.entry_eq]

/-- It is written at a byte. -/
theorem Holds.set {table : Table Nat} {value : UInt8 → Nat} (holds : Holds table value)
    (b : UInt8) (stored : Nat) :
    ∃ later, (table.set b.toNat stored : Run String (Table Nat)) = .ok later ∧
      Holds later (Function.update value b stored) := by
  have inside : b.toNat < table.size := holds.size_eq ▸ b.toNat_lt
  refine ⟨_, Table.set_of_lt inside, holds.size_eq, fun other => ?_⟩
  by_cases same : other = b
  · rw [same, Function.update_self]
    exact Function.update_self ..
  · rw [Function.update_of_ne same, ← holds.entry_eq]
    exact Function.update_of_ne (fun equal => same (UInt8.toNat_inj.mp equal)) ..

theorem holds_filled : Holds (.filled 256 0) fun _ => 0 := ⟨rfl, fun _ => rfl⟩

/-- Counting the bytes does not overflow. -/
theorem countBytes_ends {bwt : Bytes} {count : Table Nat} {value : UInt8 → Nat}
    (holds : Holds count value) (small : ∀ b, value b + bwt.length < 2 ^ 32) :
    ∃ later, countBytes bwt count = .ok later ∧
      Holds later (bwt.foldl (fun count b => Function.update count b (count b + 1)) value) := by
  induction bwt generalizing count value with
  | nil => exact ⟨count, rfl, holds⟩
  | cons b bwt recurse =>
      have room := small b
      rw [List.length_cons] at room
      obtain ⟨counted, stored, kept⟩ := holds.set b (value b + 1)
      obtain ⟨later, ran, ends⟩ := recurse kept fun other => by
        have := small other
        rw [List.length_cons] at this
        by_cases same : other = b
        · rw [same, Function.update_self]
          omega
        · rw [Function.update_of_ne same]
          omega
      refine ⟨later, ?_, ends⟩
      rw [countBytes, holds.get, Result.ok_bind, add_of_lt (by omega), Result.ok_bind, stored]
      exact ran

variable {bwt : Bytes}

theorem cumulBytes_le (bwt : Bytes) {bound : Nat} (inside : bound ≤ 256) :
    cumulBytes (AetherArch.countBytes bwt) bound ≤ bwt.length :=
  (cumulBytes_eq bwt inside).le.trans List.countP_le_length

/-- The cumulative counts of a transform. -/
theorem cumul_ends {count : Table Nat} (holds : Holds count (AetherArch.countBytes bwt))
    (small : bwt.length < 2 ^ 32) :
    ∃ cumul sum, forRange (cumulRound count) 0 256 (.filled 256 0, 0) = .ok (cumul, sum) ∧
      Holds cumul fun b => cumulBytes (AetherArch.countBytes bwt) b.toNat := by
  obtain ⟨⟨cumul, sum⟩, ran, size, entries, -⟩ := @forRange_ends String (Table Nat × Nat)
    (cumulRound count)
    (fun i state => state.1.size = 256 ∧
      (∀ j < i, state.1.entry j = cumulBytes (AetherArch.countBytes bwt) j) ∧
      state.2 = cumulBytes (AetherArch.countBytes bwt) i)
    0 256 (.filled 256 0, 0) (by
      rintro i ⟨cumul, sum⟩ - below ⟨size, entries, summed⟩
      dsimp only at size entries summed
      have byte : (UInt8.ofNat i).toNat = i := UInt8.toNat_ofNat_of_lt' (by
        change i < 256
        omega)
      have read := holds.get (UInt8.ofNat i)
      rw [byte] at read
      have next : sum + AetherArch.countBytes bwt (UInt8.ofNat i) =
          cumulBytes (AetherArch.countBytes bwt) (i + 1) := by
        rw [summed]
        rfl
      have bounded := cumulBytes_le bwt (show i + 1 ≤ 256 by omega)
      refine ⟨({ cumul with entry := Function.update cumul.entry i sum },
        cumulBytes (AetherArch.countBytes bwt) (i + 1)), ?_, size, fun j less => ?_, rfl⟩
      · unfold cumulRound
        rw [Table.set_of_lt (by dsimp only; omega), Result.ok_bind, read, Result.ok_bind,
          add_of_lt (by rw [next]; omega), next]
        rfl
      · by_cases last : j = i
        · rw [last]
          exact (Function.update_self ..).trans summed
        · rw [← entries j (by omega)]
          exact Function.update_of_ne last ..)
    ⟨rfl, fun j less => absurd less (Nat.not_lt_zero j), rfl⟩
  refine ⟨cumul, sum, ran, size, fun b => entries b.toNat ?_⟩
  exact (Nat.zero_add 256).symm ▸ b.toNat_lt

/-- Filling the permutation stays inside its table. -/
theorem fillLf_ends (store : Nat → UInt8 → Nat) {cumul occ table : Table Nat}
    {below seen : UInt8 → Nat} (holds : Holds cumul below) {rest : Bytes} {i : Nat}
    (counts : Holds occ seen) (room : i + rest.length ≤ table.size)
    (small : ∀ b, below b + seen b + rest.count b < 2 ^ 32) :
    ∃ later, fillLf store cumul rest i occ table = .ok later ∧ later.size = table.size ∧
      later.entry = AetherArch.fillLf store below i seen table.entry rest := by
  induction rest generalizing i occ table seen with
  | nil => exact ⟨table, rfl, rfl, rfl⟩
  | cons b rest recurse =>
      rw [List.length_cons] at room
      have here := small b
      rw [List.count_cons_self] at here
      obtain ⟨counted, stored, kept⟩ := counts.set b (seen b + 1)
      obtain ⟨later, ran, size, entry⟩ := @recurse counted
        { table with entry := Function.update table.entry i (store (below b + seen b) b) }
        _ (i + 1) kept (by dsimp only; omega) fun other => by
          have := small other
          rw [List.count_cons] at this
          by_cases same : other = b
          · rw [same, Function.update_self]
            omega
          · rw [Function.update_of_ne same]
            omega
      refine ⟨later, ?_, size, entry⟩
      rw [fillLf, holds.get, Result.ok_bind, counts.get, Result.ok_bind,
        add_of_lt (by omega), Result.ok_bind, Table.set_of_lt (by omega), Result.ok_bind,
        add_of_lt (by omega), Result.ok_bind, stored]
      exact ran

/-- **Filling the table of a transform meets no fault.** -/
theorem lfTable_ends (store : Nat → UInt8 → Nat) (small : bwt.length < 2 ^ 32) :
    lfTable store bwt =
      .ok { size := bwt.length, entry := AetherArch.lfTable store bwt } := by
  obtain ⟨count, counted, counts⟩ := @countBytes_ends bwt _ _ holds_filled
    (fun _ => by rw [Nat.zero_add]; exact small)
  obtain ⟨cumul, sum, summed, cumuls⟩ := cumul_ends counts small
  obtain ⟨table, filled, size, entry⟩ := @fillLf_ends store cumul (.filled 256 0)
    (.filled bwt.length 0) _ _ cumuls bwt 0 holds_filled (Nat.zero_add _).le fun b => by
      have byteLt : b.toNat < 256 := b.toNat_lt
      have next := cumulBytes_le bwt (Nat.succ_le_of_lt byteLt)
      rw [cumulBytes, UInt8.ofNat_toNat, countBytes_eq] at next
      omega
  rw [lfTable, counted, Result.ok_bind, summed, Result.ok_bind]
  dsimp only
  rw [filled]
  obtain ⟨tableSize, tableEntry⟩ := table
  dsimp only at size entry
  rw [size, entry]
  rfl

/-! ## Walks -/

/-- A walk whose every step stays inside fills all slots. -/
theorem walkBack_eq {read : Nat → Run String (UInt8 × Nat)} {byteAt : Nat → UInt8}
    {next : Nat → Nat} {n : Nat}
    (reads : ∀ idx < n, read idx = .ok (byteAt idx, next idx) ∧ next idx < n) {count idx : Nat}
    (inside : idx < n) (output : Bytes) :
    walkBack read count idx output = .ok (AetherArch.walkBack byteAt next count idx output) := by
  induction count generalizing idx output with
  | zero => rfl
  | succ count recurse =>
      obtain ⟨entry, stays⟩ := reads idx inside
      rw [walkBack, entry, Result.ok_bind]
      exact recurse stays _

/-- The last-to-first table of a transform has positions only. -/
theorem readRow_eq {idx : Nat} (inside : idx < bwt.length) :
    readRow bwt { size := bwt.length, entry := AetherArch.lfTable (fun position _ => position) bwt }
        idx =
      .ok (bwt.getD idx 0, AetherArch.lfTable (fun position _ => position) bwt idx) ∧
    AetherArch.lfTable (fun position _ => position) bwt idx < bwt.length := by
  refine ⟨?_, ?_⟩
  · rw [readRow, index_of_lt inside, Result.ok_bind, Table.get_of_lt inside, Result.ok_bind,
      List.getD_eq_getElem _ _ inside]
  · exact (lfTable_eq _ ⟨idx, inside⟩).trans_lt (stablePosition_lt ⟨idx, inside⟩)

/-- The packed table of a transform. -/
def packed (bwt : Bytes) : Table Nat where
  size := bwt.length
  entry := AetherArch.lfTable packLf bwt

/-- An entry of the packed permutation is read. -/
theorem readPacked_packed (short : bwt.length ≤ 2 ^ 24) {idx : Nat} (inside : idx < bwt.length) :
    readPacked (packed bwt) idx =
      .ok (UInt8.ofNat (AetherArch.lfTable packLf bwt idx),
        AetherArch.lfTable packLf bwt idx >>> 8) ∧
    AetherArch.lfTable packLf bwt idx >>> 8 < bwt.length := by
  refine ⟨?_, ?_⟩
  · have read : ((packed bwt).get idx : Run String Nat) =
        .ok (AetherArch.lfTable packLf bwt idx) := Table.get_of_lt inside
    rw [readPacked, read, Result.ok_bind]
  · exact (lfTable_pack short ⟨idx, inside⟩).2.trans_lt (lastFirst bwt ⟨idx, inside⟩).isLt

/-- The inverse of a packed table. -/
def packedInverse (bwt : Bytes) : Table Nat where
  size := bwt.length
  entry := AetherArch.inverseTable bwt.length (AetherArch.lfTable packLf bwt)

/-- The inverse loop runs to its end. -/
theorem inverse_ends (short : bwt.length ≤ 2 ^ 24) :
    forRange (inverseRound (packed bwt)) 0 bwt.length (.filled bwt.length 0) =
      .ok (packedInverse bwt) := by
  obtain ⟨inverse, ran, size, entry⟩ := @forRange_ends String (Table Nat)
    (inverseRound (packed bwt))
    (fun i table => table.size = bwt.length ∧
      table.entry = AetherArch.inverseTable i (AetherArch.lfTable packLf bwt))
    0 bwt.length (.filled bwt.length 0) (by
      rintro i table - below ⟨size, entry⟩
      rw [Nat.zero_add] at below
      have stays := (readPacked_packed short below).2
      have read : ((packed bwt).get i : Run String Nat) =
          .ok (AetherArch.lfTable packLf bwt i) := Table.get_of_lt below
      refine ⟨{ table with
          entry := Function.update table.entry (AetherArch.lfTable packLf bwt i >>> 8)
            ((i <<< 8) % 2 ^ 32 ||| (AetherArch.lfTable packLf bwt i &&& 0xFF)) }, ?_, size, ?_⟩
      · rw [inverseRound, read, Result.ok_bind, Table.set_of_lt (by omega)]
      · dsimp only
        rw [entry, AetherArch.inverseTable, AetherArch.inverseTable, List.range_succ,
          List.foldl_append]
        rfl)
    ⟨rfl, rfl⟩
  rw [ran]
  obtain ⟨tableSize, tableEntry⟩ := inverse
  dsimp only at size entry
  rw [size, entry, Nat.zero_add]
  rfl

/-- Every entry of the inverse leads to a row. -/
theorem readPacked_packedInverse (short : bwt.length ≤ 2 ^ 24) {idx : Nat}
    (inside : idx < bwt.length) :
    readPacked (packedInverse bwt) idx =
      .ok (UInt8.ofNat ((packedInverse bwt).entry idx), (packedInverse bwt).entry idx >>> 8) ∧
    (packedInverse bwt).entry idx >>> 8 < bwt.length := by
  refine ⟨?_, ?_⟩
  · have read : ((packedInverse bwt).get idx : Run String Nat) =
        .ok ((packedInverse bwt).entry idx) := Table.get_of_lt inside
    rw [readPacked, read, Result.ok_bind]
  · -- Every position is the image of a row, under which its entry was stored.
    have source := ((lastFirst bwt).symm ⟨idx, inside⟩).isLt
    have stored := inverseTable_pack short ((lastFirst bwt).symm ⟨idx, inside⟩)
    rw [Equiv.apply_symm_apply] at stored
    have entry : (packedInverse bwt).entry idx =
        packLf ((lastFirst bwt).symm ⟨idx, inside⟩) bwt[(lastFirst bwt).symm ⟨idx, inside⟩] :=
      stored
    rw [entry, packLf_position (source.trans_le short)]
    exact source

/-- What both chains have written after some rounds: as much of the front, and as much of the
tail. -/
structure Written (n k : Nat) (chains : Chains) (front tail : Bytes) : Prop where
  back_lt : chains.back < n
  fwd_lt : chains.fwd < n
  size_eq : chains.output.size = n
  length_front : front.length = k
  length_tail : tail.length = k
  front_eq : ∀ j < k, chains.output.entry j = front.getD j 0
  tail_eq : ∀ j < k, chains.output.entry (n - k + j) = tail.getD j 0

/-- One round of both chains writes one byte at either end. -/
theorem bothRound_spec (short : bwt.length ≤ 2 ^ 24) {k : Nat} {chains : Chains}
    {front tail : Bytes} (written : Written bwt.length k chains front tail)
    (room : k < bwt.length / 2) :
    ∃ later, bothRound bwt.length (packed bwt) (packedInverse bwt) k chains = .ok later ∧
      later.back = AetherArch.lfTable packLf bwt chains.back >>> 8 ∧
      later.fwd = (packedInverse bwt).entry chains.fwd >>> 8 ∧
      Written bwt.length (k + 1) later
        (front ++ [UInt8.ofNat ((packedInverse bwt).entry chains.fwd)])
        (UInt8.ofNat (AetherArch.lfTable packLf bwt chains.back) :: tail) := by
  obtain ⟨backLt, fwdLt, size, frontLength, tailLength, frontEq, tailEq⟩ := written
  obtain ⟨readBack, backStays⟩ := readPacked_packed short backLt
  obtain ⟨readFwd, fwdStays⟩ := readPacked_packedInverse short fwdLt
  refine ⟨{ back := AetherArch.lfTable packLf bwt chains.back >>> 8
            fwd := (packedInverse bwt).entry chains.fwd >>> 8
            output := { chains.output with
              entry := Function.update (Function.update chains.output.entry (bwt.length - 1 - k)
                (UInt8.ofNat (AetherArch.lfTable packLf bwt chains.back))) k
                (UInt8.ofNat ((packedInverse bwt).entry chains.fwd)) } },
    ?_, rfl, rfl, backStays, fwdStays, size, ?_, ?_, fun j less => ?_, fun j less => ?_⟩
  · rw [bothRound, readBack, Result.ok_bind]
    dsimp only
    rw [sub_of_le (by omega), Result.ok_bind, sub_of_le (by omega), Result.ok_bind,
      Table.set_of_lt (by omega), Result.ok_bind, readFwd, Result.ok_bind]
    dsimp only
    rw [Table.set_of_lt (by dsimp only; omega), Result.ok_bind]
  · rw [List.length_append, List.length_singleton, frontLength]
  · rw [List.length_cons, tailLength]
  · dsimp only
    by_cases last : j = k
    · rw [last, Function.update_self, List.getD_append_right _ _ _ _ frontLength.le, frontLength,
        Nat.sub_self]
      rfl
    · rw [Function.update_of_ne last, Function.update_of_ne (by omega), frontEq j (by omega),
        List.getD_append _ _ _ _ (by omega)]
  · dsimp only
    rw [Function.update_of_ne (by omega)]
    cases j with
    | zero =>
        rw [Nat.add_zero, show bwt.length - (k + 1) = bwt.length - 1 - k by omega,
          Function.update_self]
        rfl
    | succ j =>
        rw [Function.update_of_ne (by omega), List.getD_cons_succ, ← tailEq j (by omega)]
        congr 1
        omega

/-- **Walking both chains meets no fault**, and writes what the chains emit. -/
theorem walkBoth_ends (short : bwt.length ≤ 2 ^ 24) {primaryIndex : Nat}
    (inside : primaryIndex < bwt.length) :
    ∃ chains front tail,
      forRange (bothRound bwt.length (packed bwt) (packedInverse bwt)) 0 (bwt.length / 2)
        { back := primaryIndex, fwd := primaryIndex, output := .filled bwt.length 0 } =
          .ok chains ∧
      Written bwt.length (bwt.length / 2) chains front tail ∧
      AetherArch.walkBoth (AetherArch.lfTable packLf bwt)
        (AetherArch.inverseTable bwt.length (AetherArch.lfTable packLf bwt)) (bwt.length / 2)
        primaryIndex primaryIndex [] [] = (chains.back, front, tail) := by
  obtain ⟨chains, ran, front, tail, written, same⟩ := @forRange_ends String Chains
    (bothRound bwt.length (packed bwt) (packedInverse bwt))
    (fun k chains => ∃ front tail, Written bwt.length k chains front tail ∧
      AetherArch.walkBoth (AetherArch.lfTable packLf bwt)
        (AetherArch.inverseTable bwt.length (AetherArch.lfTable packLf bwt)) (bwt.length / 2)
        primaryIndex primaryIndex [] [] =
      AetherArch.walkBoth (AetherArch.lfTable packLf bwt)
        (AetherArch.inverseTable bwt.length (AetherArch.lfTable packLf bwt)) (bwt.length / 2 - k)
        chains.back chains.fwd front tail)
    0 (bwt.length / 2)
    { back := primaryIndex, fwd := primaryIndex, output := .filled bwt.length 0 } (by
      rintro k chains - below ⟨front, tail, written, same⟩
      rw [Nat.zero_add] at below
      obtain ⟨later, ran, back, fwd, grown⟩ := bothRound_spec short written below
      refine ⟨later, ran, _, _, grown, ?_⟩
      rw [same, show bwt.length / 2 - k = bwt.length / 2 - (k + 1) + 1 by omega,
        AetherArch.walkBoth, back, fwd]
      rfl)
    ⟨[], [], ⟨inside, inside, rfl, rfl, rfl, nofun, nofun⟩, rfl⟩
  rw [Nat.zero_add] at written
  rw [Nat.zero_add, Nat.sub_self, AetherArch.walkBoth] at same
  exact ⟨chains, front, tail, ran, written, same⟩

/-- A table whose ends are written, with what stands between them. -/
theorem Written.toList {n k : Nat} {chains : Chains} {front middle tail : Bytes}
    (written : Written n k chains front tail) {output : Table UInt8} (size : output.size = n)
    (whole : k + middle.length + k = n)
    (kept : ∀ j < n, j < k ∨ n - k ≤ j → output.entry j = chains.output.entry j)
    (between : ∀ j < middle.length, output.entry (k + j) = middle.getD j 0) :
    output.toList = front ++ (middle ++ tail) := by
  apply List.ext_getElem
  · rw [Table.toList, List.length_map, List.length_range, List.length_append, List.length_append,
      written.length_front, written.length_tail]
    omega
  · intro j first second
    rw [Table.toList, List.length_map, List.length_range] at first
    have entry : output.toList[j] = output.entry j := by
      simp only [Table.toList, List.getElem_map, List.getElem_range]
    rw [entry, ← List.getD_eq_getElem _ 0 second]
    by_cases before : j < k
    · rw [kept j (by omega) (.inl before), written.front_eq j before,
        List.getD_append _ _ _ _ (by rw [written.length_front]; exact before)]
    · rw [List.getD_append_right _ _ _ _ (by rw [written.length_front]; omega),
        written.length_front]
      by_cases inside : j - k < middle.length
      · rw [List.getD_append _ _ _ _ inside, ← between _ inside]
        congr 1
        omega
      · rw [List.getD_append_right _ _ _ _ (not_lt.mp inside),
          kept j (by omega) (.inr (by omega)), ← written.tail_eq _ (by omega)]
        congr 1
        omega

/-- **Inverting a transform meets no fault**, in any of the walk shapes. -/
theorem bwtDecodeWith_eq (small : bwt.length < 2 ^ 32) (primaryIndex twoChainMin : Nat)
    {maxPackedLf : Nat} (packable : maxPackedLf ≤ 2 ^ 24) :
    bwtDecodeWith bwt primaryIndex twoChainMin maxPackedLf =
      ofResult (AetherArch.bwtDecodeWith bwt primaryIndex twoChainMin maxPackedLf) := by
  rw [bwtDecodeWith, AetherArch.bwtDecodeWith]
  dsimp only
  by_cases empty : bwt.length = 0
  · rw [if_pos empty, if_pos empty, ofResult_ok]
  · rw [if_neg empty, if_neg empty]
    by_cases outside : primaryIndex ≥ bwt.length
    · rw [if_pos outside, if_pos outside, ofResult_error]
    · rw [if_neg outside, if_neg outside]
      have inside := not_le.mp outside
      by_cases large : bwt.length > maxPackedLf
      · rw [if_pos large, if_pos large, lfTable_ends _ small, Result.ok_bind, ofResult_ok]
        exact walkBack_eq (fun idx less => readRow_eq less) inside []
      · have short : bwt.length ≤ 2 ^ 24 := (not_lt.mp large).trans packable
        rw [if_neg large, if_neg large, lfTable_ends _ small, Result.ok_bind]
        by_cases single : bwt.length ≤ twoChainMin
        · rw [if_pos single, if_pos single, ofResult_ok]
          exact walkBack_eq (fun idx less => readPacked_packed short less) inside []
        · obtain ⟨chains, front, tail, ran, written, walked⟩ := walkBoth_ends short inside
          rw [if_neg single, if_neg single]
          change
            (forRange (inverseRound (packed bwt)) 0 bwt.length (.filled bwt.length 0) >>= _) = _
          rw [inverse_ends short, Result.ok_bind, walked]
          change (forRange (bothRound bwt.length (packed bwt) (packedInverse bwt)) 0
            (bwt.length / 2) _ >>= _) = _
          rw [ran, Result.ok_bind]
          dsimp only
          by_cases odd : bwt.length % 2 = 1
          · have read := (readPacked_packed short written.back_lt).1
            rw [if_pos odd, if_pos odd, ofResult_ok]
            change (readPacked (packed bwt) chains.back >>= _) = _
            rw [read, Result.ok_bind]
            dsimp only
            rw [Table.set_of_lt (by rw [written.size_eq]; omega), Result.ok_bind]
            congr 1
            refine @Written.toList _ _ _ _ [UInt8.ofNat (AetherArch.lfTable packLf bwt chains.back)]
              _ written _ written.size_eq (by rw [List.length_singleton]; omega)
              (fun j less ends => ?_) fun j less => ?_
            · exact Function.update_of_ne (by omega) ..
            · rw [List.length_singleton, Nat.lt_one_iff] at less
              rw [less]
              exact Function.update_self ..
          · rw [if_neg odd, if_neg odd, ofResult_ok]
            congr 1
            exact @Written.toList _ _ _ _ [] _ written _ written.size_eq
              (by rw [List.length_nil]; omega) (fun j less ends => rfl)
              fun j less => absurd less j.not_lt_zero

/-- **Undoing both transforms meets no fault.** -/
theorem bwtMtfDecodeParts_eq {mtfData : Bytes} (small : mtfData.length < 2 ^ 32)
    (primaryIndex expectedSize : Nat) :
    bwtMtfDecodeParts primaryIndex mtfData expectedSize =
      ofResult (AetherArch.bwtMtfDecodeParts primaryIndex mtfData expectedSize) := by
  have transformSmall : (AetherArch.mtfDecode mtfData).length < 2 ^ 32 := by
    rw [length_mtfDecode]
    exact small
  have decoded : bwtDecode (AetherArch.mtfDecode mtfData) primaryIndex =
      ofResult (AetherArch.bwtDecode (AetherArch.mtfDecode mtfData) primaryIndex) :=
    bwtDecodeWith_eq transformSmall primaryIndex TWO_CHAIN_MIN (by decide)
  rw [bwtMtfDecodeParts, AetherArch.bwtMtfDecodeParts]
  by_cases large : expectedSize > MAX_BWT_DECODE_SIZE
  · rw [if_pos large, if_pos large, ofResult_error]
  · rw [if_neg large, if_neg large, mtfDecode_eq, Result.ok_bind, decoded, renameErrors_ofResult]
    cases AetherArch.bwtDecode (AetherArch.mtfDecode mtfData) primaryIndex with
    | error message => rfl
    | ok original =>
        change (if original.length ≠ expectedSize then _ else _) = _
        dsimp only
        split
        · rfl
        · rfl

end Machine

end AetherArch
