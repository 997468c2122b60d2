import AetherArch.Library.FloatFormat

/-! # Exact arithmetic with special values

The rationals with what a floating-point format holds besides them: the two infinities and the
results that are no numbers. What a program computes from finite numbers with finite results is
exact.
-/

/-- A rational, or a special value of a floating-point format. -/
inductive Extended where
  | finite (value : ℚ)
  | infinite (negative : Bool)
  | nan
  deriving DecidableEq

namespace Extended

/-- Whether a number has the sign of the negative ones. -/
def negative : Extended → Bool
  | finite value => decide (value < 0)
  | infinite sign => sign
  | nan => false

def add : Extended → Extended → Extended
  | finite x, finite y => finite (x + y)
  | finite _, infinite sign => infinite sign
  | infinite sign, finite _ => infinite sign
  | infinite first, infinite second => if first = second then infinite first else nan
  | _, _ => nan

def neg : Extended → Extended
  | finite value => finite (-value)
  | infinite sign => infinite (!sign)
  | nan => nan

def mul : Extended → Extended → Extended
  | finite x, finite y => finite (x * y)
  | nan, _ => nan
  | _, nan => nan
  | x, y => if x = finite 0 ∨ y = finite 0 then nan else infinite (x.negative != y.negative)

def div : Extended → Extended → Extended
  | finite x, finite y =>
      if y = 0 then if x = 0 then nan else infinite (decide (x < 0)) else finite (x / y)
  | infinite sign, finite y => infinite (sign != decide (y < 0))
  | finite _, infinite _ => finite 0
  | _, _ => nan

def lt : Extended → Extended → Bool
  | finite x, finite y => decide (x < y)
  | infinite sign, finite _ => sign
  | finite _, infinite sign => !sign
  | infinite first, infinite second => first && !second
  | _, _ => false

def le (x y : Extended) : Bool := x.lt y || (x = y && x ≠ nan)

def isFinite : Extended → Bool
  | finite _ => true
  | _ => false

/-- A function of finite numbers. -/
def lift (function : ℚ → ℚ) : Extended → Extended
  | finite value => finite (function value)
  | infinite sign => infinite sign
  | nan => nan

/-- Truncation to a natural number below a bound, saturating. -/
def truncate (bound : ℕ) : Extended → ℕ
  | finite value => Min.min ⌊value⌋.toNat (bound - 1)
  | infinite sign => if sign then 0 else bound - 1
  | nan => 0

/-- Exact arithmetic with special values as a format. -/
def format (functions : FloatFormats.OpenFunctions) : FloatFormat where
  Carrier := Extended
  round := finite
  add := add
  sub := fun x y => add x (neg y)
  mul := mul
  div := div
  neg := neg
  lt := lt
  le := le
  min := fun x y => if lt y x then y else x
  max := fun x y => if lt x y then y else x
  isFinite := isFinite
  floor := lift fun value => (⌊value⌋ : ℤ)
  truncate := fun width => truncate (2 ^ width)
  exp := lift functions.exp
  ln := lift functions.ln
  log2 := lift functions.log2
  ofBits := fun bits => finite (functions.ofBits bits)
  toBits := fun x =>
    match x with
    | finite value => functions.toBits value
    | _ => 0

section

variable {functions : FloatFormats.OpenFunctions}

/-- A finite number of the format. -/
abbrev exactly (value : ℚ) : (format functions).Carrier := finite value

theorem exactly_add (x y : ℚ) :
    (exactly x + exactly y : (format functions).Carrier) = exactly (x + y) := rfl

theorem exactly_mul (x y : ℚ) :
    (exactly x * exactly y : (format functions).Carrier) = exactly (x * y) := rfl

theorem exactly_div {x y : ℚ} (divisor : y ≠ 0) :
    (exactly x / exactly y : (format functions).Carrier) = exactly (x / y) :=
  if_neg divisor

theorem exactly_lt {x y : ℚ} :
    (exactly x : (format functions).Carrier) < exactly y ↔ x < y :=
  decide_eq_true_iff

/-- Exact numbers are ordered as they are. -/
theorem exactly_le {x y : ℚ} :
    (exactly x : (format functions).Carrier) ≤ exactly y ↔ x ≤ y := by
  change (decide (x < y) || (decide (finite x = finite y) && decide (finite x ≠ nan))) = true ↔ _
  rw [Bool.or_eq_true, Bool.and_eq_true, decide_eq_true_eq, decide_eq_true_eq, le_iff_lt_or_eq]
  refine or_congr_right ⟨fun same => finite.inj same.1, ?_⟩
  rintro rfl
  exact ⟨rfl, rfl⟩

theorem truncate_exactly (width : ℕ) (x : ℚ) :
    (format functions).truncate width (exactly x) = Min.min ⌊x⌋.toNat (2 ^ width - 1) := rfl

end

end Extended

namespace FloatFormats

/-- Both formats exact, with special values. -/
abbrev extended (functions : OpenFunctions) : FloatFormats where
  single := Extended.format functions
  double := Extended.format functions
  widen := id
  narrow := id

end FloatFormats
