import Mathlib.Tactic
import Mathlib.Data.Fintype.EquivFin
import AetherArch.Error

/-! # Move-to-front

The encoder keeps the list of bytes by rank and its inverse, the decoder the list
alone. Every byte coded moves to the front.
-/

namespace AetherArch

/-- The encoder's tables: the byte of a rank and the rank of a byte. -/
structure MtfTables where
  list : Nat → UInt8
  pos : UInt8 → UInt8

namespace MtfTables

def new : MtfTables where
  list := UInt8.ofNat
  pos := id

/-- Shift the entries below a rank up by one, from the last to the first. -/
def shift : (r : Nat) → MtfTables → MtfTables
  | 0, tables => tables
  | i + 1, tables =>
      let b := tables.list i
      shift i { list := Function.update tables.list (i + 1) b
                pos := Function.update tables.pos b (UInt8.ofNat (i + 1)) }

/-- Move the byte of a rank to the front. -/
def moveToFront (tables : MtfTables) (byte : UInt8) : MtfTables :=
  let rank := tables.pos byte
  if rank > 0 then
    let shifted := shift rank.toNat tables
    { list := Function.update shifted.list 0 byte
      pos := Function.update shifted.pos byte 0 }
  else tables

end MtfTables

/-- Code bytes as their ranks, moving each to the front. -/
def mtfEncodeFrom : MtfTables → Bytes → Bytes
  | _, [] => []
  | tables, byte :: data => tables.pos byte :: mtfEncodeFrom (tables.moveToFront byte) data

def mtfEncode (data : Bytes) : Bytes := mtfEncodeFrom .new data

/-- Move the entry of a rank to the front of the decoder's list. -/
def moveRankToFront (list : Nat → UInt8) (rank : UInt8) : Nat → UInt8 :=
  let byte := list rank.toNat
  if rank > 0 then
    let shifted := fun i => if 1 ≤ i ∧ i ≤ rank.toNat then list (i - 1) else list i
    Function.update shifted 0 byte
  else list

/-- Decode ranks to bytes, moving each to the front. -/
def mtfDecodeFrom : (Nat → UInt8) → Bytes → Bytes
  | _, [] => []
  | list, rank :: data => list rank.toNat :: mtfDecodeFrom (moveRankToFront list rank) data

def mtfDecode (data : Bytes) : Bytes := mtfDecodeFrom UInt8.ofNat data

/-! ## Round trip -/

namespace MtfTables

/-- The two tables are mutually inverse. -/
def Inverse (tables : MtfTables) : Prop :=
  ∀ byte, tables.list (tables.pos byte).toNat = byte

theorem new_inverse : new.Inverse := fun _ => UInt8.ofNat_toNat

/-- The rank table is onto, so the inverse goes both ways. -/
theorem Inverse.pos_list {tables : MtfTables} (inverse : tables.Inverse) {rank : Nat}
    (inside : rank < 256) : (tables.pos (tables.list rank)).toNat = rank := by
  have injective : Function.Injective tables.pos := fun first second same => by
    rw [← inverse first, ← inverse second, same]
  have finite : Finite UInt8 := Finite.of_injective UInt8.toFin fun _ _ => UInt8.toFin_inj.mp
  obtain ⟨byte, found⟩ := (Finite.injective_iff_surjective.mp injective) (UInt8.ofNat rank)
  have value : (UInt8.ofNat rank).toNat = rank := UInt8.toNat_ofNat_of_lt' inside
  have listed := inverse byte
  rw [found, value] at listed
  rw [listed, found, value]

/-- Two ranks of the list hold different bytes. -/
theorem Inverse.list_inj {tables : MtfTables} (inverse : tables.Inverse) {first second : Nat}
    (firstInside : first < 256) (secondInside : second < 256)
    (same : tables.list first = tables.list second) : first = second := by
  rw [← inverse.pos_list firstInside, same, inverse.pos_list secondInside]

/-- A shift moves the entries before a rank by one. -/
theorem shift_list (r : Nat) (tables : MtfTables) (i : Nat) :
    (shift r tables).list i = if 1 ≤ i ∧ i ≤ r then tables.list (i - 1) else tables.list i := by
  induction r generalizing tables with
  | zero =>
      rw [if_neg (by omega)]
      rfl
  | succ r ih =>
      rw [shift, ih]
      dsimp only
      by_cases inside : 1 ≤ i ∧ i ≤ r
      · rw [if_pos inside, if_pos (by omega), Function.update_of_ne (by omega)]
      · rw [if_neg inside]
        by_cases last : i = r + 1
        · rw [last, Function.update_self, if_pos (by omega), Nat.add_sub_cancel]
        · rw [Function.update_of_ne last, if_neg (by omega)]

/-- A byte that is not shifted keeps its rank. -/
theorem shift_pos_of_miss (r : Nat) (tables : MtfTables) {byte : UInt8}
    (miss : ∀ i < r, tables.list i ≠ byte) : (shift r tables).pos byte = tables.pos byte := by
  induction r generalizing tables with
  | zero => rfl
  | succ r ih =>
      rw [shift, ih]
      · exact Function.update_of_ne (miss r (Nat.lt_succ_self r)).symm ..
      · intro i less
        dsimp only
        rw [Function.update_of_ne (by omega)]
        exact miss i (by omega)

/-- A shifted byte goes up by one rank. -/
theorem shift_pos_of_hit {r j : Nat} (tables : MtfTables) (inside : j < r)
    (injective : ∀ i < r, tables.list i = tables.list j → i = j) :
    (shift r tables).pos (tables.list j) = UInt8.ofNat (j + 1) := by
  induction r generalizing tables with
  | zero => omega
  | succ r ih =>
      rw [shift]
      by_cases last : j = r
      · subst last
        rw [shift_pos_of_miss]
        · exact Function.update_self ..
        · intro i less
          dsimp only
          rw [Function.update_of_ne (by omega)]
          intro same
          have := injective i (by omega) same
          omega
      · have kept : tables.list j =
            Function.update tables.list (r + 1) (tables.list r) j := by
          rw [Function.update_of_ne (by omega)]
        have moved := @ih { list := Function.update tables.list (r + 1) (tables.list r)
                            pos := Function.update tables.pos (tables.list r)
                              (UInt8.ofNat (r + 1)) }
          (by omega) (by
            intro i less same
            dsimp only at same
            rw [Function.update_of_ne (by omega), Function.update_of_ne (by omega)] at same
            exact injective i (by omega) same)
        dsimp only at moved
        rw [← kept] at moved
        exact moved

/-- The encoder's list moves as the decoder's does. -/
theorem moveToFront_list {tables : MtfTables} (inverse : tables.Inverse) (byte : UInt8) :
    (tables.moveToFront byte).list = moveRankToFront tables.list (tables.pos byte) := by
  unfold moveToFront moveRankToFront
  dsimp only
  split
  · have shifted : (shift (tables.pos byte).toNat tables).list = fun i =>
        if 1 ≤ i ∧ i ≤ (tables.pos byte).toNat then tables.list (i - 1) else tables.list i :=
      funext fun i => shift_list _ tables i
    rw [inverse byte, shifted]
  · rfl

/-- **Moving to the front keeps the tables inverse.** -/
theorem moveToFront_inverse {tables : MtfTables} (inverse : tables.Inverse) (byte : UInt8) :
    (tables.moveToFront byte).Inverse := by
  unfold moveToFront
  dsimp only
  split
  · rename_i positive
    have rankLt : (tables.pos byte).toNat < 256 := (tables.pos byte).toNat_lt
    intro other
    dsimp only
    by_cases front : other = byte
    · subst front
      rw [Function.update_self]
      exact Function.update_self ..
    · rw [Function.update_of_ne front]
      have otherLt : (tables.pos other).toNat < 256 := (tables.pos other).toNat_lt
      have otherRank : (tables.pos other).toNat ≠ (tables.pos byte).toNat := by
        intro same
        apply front
        rw [← inverse other, ← inverse byte, same]
      by_cases before : (tables.pos other).toNat < (tables.pos byte).toNat
      · have raised := shift_pos_of_hit tables before (by
          intro i less same
          exact inverse.list_inj (by omega) otherLt same)
        rw [inverse other] at raised
        have value : (UInt8.ofNat ((tables.pos other).toNat + 1)).toNat =
            (tables.pos other).toNat + 1 := UInt8.toNat_ofNat_of_lt' (by
          change (tables.pos other).toNat + 1 < 256
          omega)
        rw [raised, value, Function.update_of_ne (by omega), shift_list, if_pos (by omega),
          Nat.add_sub_cancel, inverse other]
      · have kept := @shift_pos_of_miss (tables.pos byte).toNat tables other (by
            intro i less same
            have := inverse.list_inj (show i < 256 by omega) otherLt
              (same.trans (inverse other).symm)
            omega)
        rw [kept, Function.update_of_ne (by omega), shift_list, if_neg (by omega), inverse other]
  · exact inverse

end MtfTables

/-- Decoding from inverse tables undoes encoding. -/
theorem mtfDecodeFrom_encodeFrom {tables : MtfTables} (inverse : tables.Inverse) (data : Bytes) :
    mtfDecodeFrom tables.list (mtfEncodeFrom tables data) = data := by
  induction data generalizing tables with
  | nil => rfl
  | cons byte data ih =>
      rw [mtfEncodeFrom, mtfDecodeFrom, inverse byte,
        ← MtfTables.moveToFront_list inverse byte, ih (MtfTables.moveToFront_inverse inverse byte)]

/-- **Move-to-front round trip.** -/
theorem mtfDecode_mtfEncode (data : Bytes) : mtfDecode (mtfEncode data) = data :=
  mtfDecodeFrom_encodeFrom MtfTables.new_inverse data

@[simp] theorem length_mtfEncode (data : Bytes) : (mtfEncode data).length = data.length := by
  unfold mtfEncode
  generalize MtfTables.new = tables
  induction data generalizing tables with
  | nil => rfl
  | cons byte data ih => rw [mtfEncodeFrom, List.length_cons, List.length_cons, ih]

@[simp] theorem length_mtfDecode (data : Bytes) : (mtfDecode data).length = data.length := by
  unfold mtfDecode
  generalize UInt8.ofNat = list
  induction data generalizing list with
  | nil => rfl
  | cons rank data ih => rw [mtfDecodeFrom, List.length_cons, List.length_cons, ih]

/-! ## Bijection -/

/-- Encoding from inverse tables undoes decoding. -/
theorem mtfEncodeFrom_decodeFrom {tables : MtfTables} (inverse : tables.Inverse) (ranks : Bytes) :
    mtfEncodeFrom tables (mtfDecodeFrom tables.list ranks) = ranks := by
  induction ranks generalizing tables with
  | nil => rfl
  | cons rank ranks ih =>
      have found : tables.pos (tables.list rank.toNat) = rank :=
        UInt8.toNat_inj.mp (inverse.pos_list rank.toNat_lt)
      have moved := MtfTables.moveToFront_list inverse (tables.list rank.toNat)
      rw [found] at moved
      rw [mtfDecodeFrom, mtfEncodeFrom, found, ← moved,
        ih (MtfTables.moveToFront_inverse inverse _)]

/-- Every byte string is the ranks of a byte string. -/
theorem mtfEncode_mtfDecode (ranks : Bytes) : mtfEncode (mtfDecode ranks) = ranks :=
  mtfEncodeFrom_decodeFrom MtfTables.new_inverse ranks

/-- The encoder's tables once a prefix is coded. -/
def encoderTables (coded : Bytes) : MtfTables := coded.foldl MtfTables.moveToFront .new

/-- The decoder's list once a prefix is decoded. -/
def decoderList (decoded : Bytes) : Nat → UInt8 := decoded.foldl moveRankToFront UInt8.ofNat

/-- The rest of a text is coded with the tables its prefix left. -/
theorem mtfEncodeFrom_append (tables : MtfTables) (coded rest : Bytes) :
    mtfEncodeFrom tables (coded ++ rest) =
      mtfEncodeFrom tables coded ++
        mtfEncodeFrom (coded.foldl MtfTables.moveToFront tables) rest := by
  induction coded generalizing tables with
  | nil => rfl
  | cons byte coded ih =>
      rw [List.cons_append, mtfEncodeFrom, ih, mtfEncodeFrom, List.foldl_cons, List.cons_append]

/-- Ranks are decoded in two parts, one after the other. -/
theorem mtfDecodeFrom_append (list : Nat → UInt8) (decoded rest : Bytes) :
    mtfDecodeFrom list (decoded ++ rest) =
      mtfDecodeFrom list decoded ++ mtfDecodeFrom (decoded.foldl moveRankToFront list) rest := by
  induction decoded generalizing list with
  | nil => rfl
  | cons rank decoded ih =>
      rw [List.cons_append, mtfDecodeFrom, ih, mtfDecodeFrom, List.foldl_cons, List.cons_append]

/-- **The simulation.** Coding a prefix keeps the tables inverse, and their list is what the
decoder has after the ranks of the prefix. -/
theorem foldl_moveToFront {tables : MtfTables} (inverse : tables.Inverse) (coded : Bytes) :
    (coded.foldl MtfTables.moveToFront tables).Inverse ∧
      (coded.foldl MtfTables.moveToFront tables).list =
        (mtfEncodeFrom tables coded).foldl moveRankToFront tables.list := by
  induction coded generalizing tables with
  | nil => exact ⟨inverse, rfl⟩
  | cons byte coded ih =>
      have moved := ih (MtfTables.moveToFront_inverse inverse byte)
      rw [MtfTables.moveToFront_list inverse byte] at moved
      exact moved

/-- The ranks of a prefix are a prefix of the ranks. -/
theorem take_mtfEncode (data : Bytes) (i : Nat) :
    (mtfEncode data).take i = mtfEncode (data.take i) := by
  unfold mtfEncode
  generalize MtfTables.new = tables
  induction data generalizing tables i with
  | nil => rw [List.take_nil, mtfEncodeFrom, List.take_nil]
  | cons byte data ih =>
      cases i with
      | zero => rfl
      | succ i => rw [mtfEncodeFrom, List.take_succ_cons, List.take_succ_cons, mtfEncodeFrom, ih]

/-- The rest of the data is coded with the encoder's tables after the prefix. -/
theorem mtfEncode_split (data : Bytes) (i : Nat) :
    mtfEncode data =
      mtfEncode (data.take i) ++ mtfEncodeFrom (encoderTables (data.take i)) (data.drop i) := by
  have split := mtfEncodeFrom_append .new (data.take i) (data.drop i)
  rw [List.take_append_drop] at split
  exact split

/-- The rest of the ranks is decoded with the decoder's list after the prefix. -/
theorem mtfDecode_split (ranks : Bytes) (i : Nat) :
    mtfDecode ranks =
      mtfDecode (ranks.take i) ++ mtfDecodeFrom (decoderList (ranks.take i)) (ranks.drop i) := by
  have split := mtfDecodeFrom_append UInt8.ofNat (ranks.take i) (ranks.drop i)
  rw [List.take_append_drop] at split
  exact split

/-- **Move-to-front is a bijection on byte strings.** All along a run the encoder's tables are
mutually inverse permutations, and its list is the decoder's after the same prefix. -/
theorem mtf_bijection (data : Bytes) :
    mtfDecode (mtfEncode data) = data ∧ mtfEncode (mtfDecode data) = data ∧
      ∀ i, ∃ (tables : MtfTables) (list : Nat → UInt8),
        mtfEncode data = mtfEncode (data.take i) ++ mtfEncodeFrom tables (data.drop i) ∧
        data = data.take i ++ mtfDecodeFrom list ((mtfEncode data).drop i) ∧
        tables = encoderTables (data.take i) ∧ list = decoderList ((mtfEncode data).take i) ∧
        (∀ byte, tables.list (tables.pos byte).toNat = byte) ∧
        (∀ rank < 256, (tables.pos (tables.list rank)).toNat = rank) ∧
        tables.list = list := by
  refine ⟨mtfDecode_mtfEncode data, mtfEncode_mtfDecode data, fun i =>
    ⟨encoderTables (data.take i), decoderList ((mtfEncode data).take i), mtfEncode_split data i,
      ?_, rfl, rfl, ?_⟩⟩
  · have split := mtfDecode_split (mtfEncode data) i
    rw [mtfDecode_mtfEncode, take_mtfEncode, mtfDecode_mtfEncode, ← take_mtfEncode] at split
    exact split
  · obtain ⟨inverse, agree⟩ := foldl_moveToFront MtfTables.new_inverse (data.take i)
    refine ⟨inverse, fun rank inside => inverse.pos_list inside, ?_⟩
    rw [take_mtfEncode]
    exact agree

end AetherArch
