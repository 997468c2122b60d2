import Mathlib.Data.Rat.Floor

/-! # Floating-point formats

The operations a program performs on the numbers of one format, left abstract: what is
proved over a format holds of every rounding behaviour. Exact rational arithmetic is one
format.
-/

/-- The numbers of a floating-point format with the operations on them. -/
structure FloatFormat where
  Carrier : Type
  /-- The nearest number to a rational, which also reads literals and integers. -/
  round : ℚ → Carrier
  add : Carrier → Carrier → Carrier
  sub : Carrier → Carrier → Carrier
  mul : Carrier → Carrier → Carrier
  div : Carrier → Carrier → Carrier
  neg : Carrier → Carrier
  lt : Carrier → Carrier → Bool
  le : Carrier → Carrier → Bool
  min : Carrier → Carrier → Carrier
  max : Carrier → Carrier → Carrier
  isFinite : Carrier → Bool
  floor : Carrier → Carrier
  /-- Truncation to an unsigned integer of a bit width, saturating. -/
  truncate : (width : ℕ) → Carrier → ℕ
  exp : Carrier → Carrier
  ln : Carrier → Carrier
  log2 : Carrier → Carrier
  /-- The number a bit pattern denotes, and the bit pattern of a number. -/
  ofBits : ℕ → Carrier
  toBits : Carrier → ℕ

namespace FloatFormat

variable {format : FloatFormat}

instance : Add format.Carrier := ⟨format.add⟩
instance : Sub format.Carrier := ⟨format.sub⟩
instance : Mul format.Carrier := ⟨format.mul⟩
instance : Div format.Carrier := ⟨format.div⟩
instance : Neg format.Carrier := ⟨format.neg⟩
instance : Min format.Carrier := ⟨format.min⟩
instance : Max format.Carrier := ⟨format.max⟩
instance : LT format.Carrier := ⟨fun x y => format.lt x y = true⟩
instance : LE format.Carrier := ⟨fun x y => format.le x y = true⟩
instance : DecidableLT format.Carrier := fun x y =>
  inferInstanceAs (Decidable (format.lt x y = true))
instance : DecidableLE format.Carrier := fun x y =>
  inferInstanceAs (Decidable (format.le x y = true))
instance : NatCast format.Carrier := ⟨fun n => format.round n⟩
instance (n : ℕ) : OfNat format.Carrier n := ⟨format.round n⟩
instance : OfScientific format.Carrier :=
  ⟨fun mantissa sign exponent => format.round (OfScientific.ofScientific mantissa sign exponent)⟩
instance : Inhabited format.Carrier := ⟨0⟩

/-- Restrict a number to a range. -/
def clamp (x lo hi : format.Carrier) : format.Carrier :=
  if x < lo then lo else if hi < x then hi else x

/-- The magnitude of a number. -/
def abs (x : format.Carrier) : format.Carrier := if x < 0 then -x else x

/-- Exact rational arithmetic, with the functions that leave the rationals as parameters. -/
def exact (exp ln log2 : ℚ → ℚ) (ofBits : ℕ → ℚ) (toBits : ℚ → ℕ) : FloatFormat where
  Carrier := ℚ
  round := id
  add := (· + ·)
  sub := (· - ·)
  mul := (· * ·)
  div := (· / ·)
  neg := fun x => -x
  lt := fun x y => decide (x < y)
  le := fun x y => decide (x ≤ y)
  min := Min.min
  max := Max.max
  isFinite := fun _ => true
  floor := fun x => ((⌊x⌋ : ℤ) : ℚ)
  truncate := fun width x => Min.min ⌊x⌋.toNat (2 ^ width - 1)
  exp := exp
  ln := ln
  log2 := log2
  ofBits := ofBits
  toBits := toBits

end FloatFormat

/-- The two formats a program computes with, and the conversions between them. -/
structure FloatFormats where
  single : FloatFormat
  double : FloatFormat
  widen : single.Carrier → double.Carrier
  narrow : double.Carrier → single.Carrier

namespace FloatFormats

/-- 32-bit numbers. -/
abbrev F32 (formats : FloatFormats) : Type := formats.single.Carrier

/-- 64-bit numbers. -/
abbrev F64 (formats : FloatFormats) : Type := formats.double.Carrier

/-- Both formats exact. -/
def exact (exp ln log2 : ℚ → ℚ) (ofBits : ℕ → ℚ) (toBits : ℚ → ℕ) : FloatFormats where
  single := .exact exp ln log2 ofBits toBits
  double := .exact exp ln log2 ofBits toBits
  widen := id
  narrow := id

/-- The functions that exact arithmetic leaves open. -/
structure OpenFunctions where
  exp : ℚ → ℚ
  ln : ℚ → ℚ
  log2 : ℚ → ℚ
  ofBits : ℕ → ℚ
  toBits : ℚ → ℕ

/-- Exact arithmetic with these functions. -/
abbrev exactWith (functions : OpenFunctions) : FloatFormats :=
  .exact functions.exp functions.ln functions.log2 functions.ofBits functions.toBits

end FloatFormats
