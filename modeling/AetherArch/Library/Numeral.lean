import Mathlib.Tactic
import Mathlib.Data.List.Induction

/-! # Byte strings as base-256 numerals

A byte string read most significant byte first is a natural number
(`Numeral.bigEndian`); read least significant byte first it is
`Numeral.littleEndian`, whose fixed-width writer is `Numeral.toLittleEndian`.
-/

namespace Numeral

/-- The number a byte string denotes, most significant byte first. -/
def bigEndian (bytes : List UInt8) : Nat :=
  bytes.foldl (fun value byte => value * 256 + byte.toNat) 0

@[simp] theorem bigEndian_nil : bigEndian [] = 0 := rfl

theorem bigEndian_snoc (bytes : List UInt8) (byte : UInt8) :
    bigEndian (bytes ++ [byte]) = bigEndian bytes * 256 + byte.toNat := by
  simp only [bigEndian, List.foldl_append, List.foldl_cons, List.foldl_nil]

/-- The bytes in front weigh more. -/
theorem bigEndian_append (first second : List UInt8) :
    bigEndian (first ++ second) = bigEndian first * 256 ^ second.length + bigEndian second := by
  induction second using List.reverseRecOn with
  | nil => simp
  | append_singleton second byte ih =>
      rw [← List.append_assoc, bigEndian_snoc, ih, bigEndian_snoc, List.length_append,
        List.length_singleton, pow_succ]
      ring

/-- The value around one byte. -/
theorem bigEndian_append_cons (first : List UInt8) (byte : UInt8) (rest : List UInt8) :
    bigEndian (first ++ byte :: rest) =
      (bigEndian first * 256 + byte.toNat) * 256 ^ rest.length + bigEndian rest := by
  rw [List.append_cons, bigEndian_append, bigEndian_snoc]

/-- The value is below the power for its length. -/
theorem bigEndian_lt (bytes : List UInt8) : bigEndian bytes < 256 ^ bytes.length := by
  induction bytes using List.reverseRecOn with
  | nil => simp
  | append_singleton bytes byte ih =>
      rw [bigEndian_snoc, List.length_append, List.length_singleton, pow_succ]
      have := byte.toNat_lt
      omega

/-- A run of `0xFF` bytes is one short of the next power of the radix. -/
theorem bigEndian_replicate_max (count : Nat) :
    bigEndian (List.replicate count 255) + 1 = 256 ^ count := by
  induction count with
  | zero => simp
  | succ count ih =>
      rw [List.replicate_succ', bigEndian_snoc, pow_succ, ← ih]
      have : (255 : UInt8).toNat = 255 := rfl
      omega

/-- Zeros are zero. -/
theorem bigEndian_replicate_zero (count : Nat) : bigEndian (List.replicate count 0) = 0 := by
  induction count with
  | zero => rfl
  | succ count ih =>
      rw [List.replicate_succ', bigEndian_snoc, ih]
      rfl

/-- The leading bytes of a numeral are its quotient by the weight of the rest. -/
theorem bigEndian_take (bytes : List UInt8) (count : Nat) :
    bigEndian (bytes.take count) = bigEndian bytes / 256 ^ (bytes.length - count) := by
  conv_rhs => rw [← List.take_append_drop count bytes]
  have below := bigEndian_lt (bytes.drop count)
  rw [List.length_drop] at below
  rw [bigEndian_append, List.take_append_drop, List.length_drop, mul_comm,
    Nat.mul_add_div (by positivity), Nat.div_eq_of_lt below, Nat.add_zero]

/-- The number a byte string denotes, least significant byte first. -/
def littleEndian : List UInt8 → Nat
  | [] => 0
  | byte :: rest => byte.toNat + 256 * littleEndian rest

/-- The low `width` bytes of a number, least significant byte first. -/
def toLittleEndian : (width : Nat) → (value : Nat) → List UInt8
  | 0, _ => []
  | width + 1, value => UInt8.ofNat value :: toLittleEndian width (value / 256)

@[simp] theorem length_toLittleEndian (width value : Nat) :
    (toLittleEndian width value).length = width := by
  induction width generalizing value with
  | zero => rfl
  | succ width ih => simp only [toLittleEndian, List.length_cons, ih]

/-- The value is below the power for its length. -/
theorem littleEndian_lt (bytes : List UInt8) : littleEndian bytes < 256 ^ bytes.length := by
  induction bytes with
  | nil => simp [littleEndian]
  | cons byte rest ih =>
      rw [littleEndian, List.length_cons, pow_succ]
      have := byte.toNat_lt
      omega

/-- Reading back a written number loses only what does not fit the width. -/
theorem littleEndian_toLittleEndian (width value : Nat) :
    littleEndian (toLittleEndian width value) = value % 256 ^ width := by
  induction width generalizing value with
  | zero => simp [toLittleEndian, littleEndian, Nat.mod_one]
  | succ width ih =>
      rw [toLittleEndian, littleEndian, ih, UInt8.toNat_ofNat', pow_succ' 256 width, Nat.mod_mul]

/-- Writing back a read byte string reproduces it. -/
theorem toLittleEndian_littleEndian (bytes : List UInt8) :
    toLittleEndian bytes.length (littleEndian bytes) = bytes := by
  induction bytes with
  | nil => rfl
  | cons byte rest ih =>
      have byteLt := byte.toNat_lt
      rw [List.length_cons, toLittleEndian, littleEndian]
      have tail : (byte.toNat + 256 * littleEndian rest) / 256 = littleEndian rest := by omega
      have head : UInt8.ofNat (byte.toNat + 256 * littleEndian rest) = byte := by
        apply UInt8.toNat_inj.mp
        rw [UInt8.toNat_ofNat']
        omega
      rw [tail, head, ih]

/-- Pieces of one size take a multiple of it. -/
theorem length_flatMap_pieces {piece : Nat → List UInt8} {size : Nat}
    (sized : ∀ i, (piece i).length = size) (count : Nat) :
    ((List.range count).flatMap piece).length = count * size := by
  rw [List.length_flatMap]
  simp only [sized, List.map_const', List.length_range, List.sum_replicate, smul_eq_mul]

/-- Pieces of one length are found where they stand. -/
theorem exists_drop_flatMap {piece : Nat → List UInt8} {size : Nat}
    (sized : ∀ i, (piece i).length = size) {count i : Nat} (inside : i < count)
    (rest : List UInt8) :
    ∃ after, ((List.range count).flatMap piece ++ rest).drop (i * size) = piece i ++ after := by
  obtain ⟨later, rfl⟩ : ∃ later, count = i + (later + 1) := ⟨count - i - 1, by omega⟩
  have first : (List.range (later + 1)).map (i + ·) = i :: (List.range later).map (i + · + 1) := by
    rw [List.range_succ_eq_map, List.map_cons, List.map_map]
    rfl
  refine ⟨((List.range later).map (i + · + 1)).flatMap piece ++ rest, ?_⟩
  rw [List.range_add, List.flatMap_append, List.append_assoc,
    List.drop_left' (length_flatMap_pieces sized i), first, List.flatMap_cons, List.append_assoc]

/-- A word is read back where it stands. -/
theorem littleEndian_take_append (width value : Nat) (rest : List UInt8) :
    littleEndian ((toLittleEndian width value ++ rest).take width) = value % 256 ^ width := by
  rw [List.take_left' (length_toLittleEndian width value), littleEndian_toLittleEndian]

/-- The words of a list are read back where they stand. -/
theorem littleEndian_words (width : Nat) (rest : List UInt8) {words : List Nat} {i value : Nat}
    (found : words[i]? = some value) :
    littleEndian ((words.flatMap (toLittleEndian width) ++ rest).drop (i * width) |>.take width) =
      value % 256 ^ width := by
  induction words generalizing i with
  | nil => cases found
  | cons word words ih =>
      rw [List.flatMap_cons, List.append_assoc]
      cases i with
      | zero =>
          cases found
          rw [Nat.zero_mul, List.drop_zero, littleEndian_take_append]
      | succ i =>
          rw [Nat.succ_mul, Nat.add_comm, ← List.drop_drop,
            List.drop_left' (length_toLittleEndian width word)]
          exact ih found
end Numeral
