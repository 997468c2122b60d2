import Mathlib.Tactic
import AetherArch.Error

/-! # Zero-run coding

Runs of zeros in move-to-front data become bijective base-2 digits (0 and 1), and
every other value is shifted up by one. The escaped form also writes the ranks 254
and 255, which the shift leaves no byte for, as two-byte escapes.
-/

namespace AetherArch

/-- The two forms of zero-run coding. -/
inductive RunCoding where
  | standard
  | escaped
  deriving DecidableEq, Repr

namespace RunCoding

/-- The bytes of a non-zero value. -/
def literal : RunCoding → UInt8 → Bytes
  | .standard, value => [value + 1]
  | .escaped, value =>
      if value < 254 then [value + 1]
      else if value = 254 then [255, 2]
      else [255, 3]

/-- The name of the decoder in its errors. -/
def label : RunCoding → String
  | .standard => "RLE decode"
  | .escaped => "RLE escaped decode"

end RunCoding

/-- Encode a run length in bijective base-2 digits, least significant first. -/
def encodeRunLength (n : Nat) : Bytes :=
  if 0 < n then UInt8.ofNat ((n - 1) % 2) :: encodeRunLength ((n - 1) / 2) else []
termination_by n

/-- Encode the values after a pending run of zeros. -/
def encodeRuns (coding : RunCoding) : (run : Nat) → Bytes → Bytes
  | run, [] => encodeRunLength run
  | run, value :: rest =>
      if value = 0 then encodeRuns coding ((run + 1) % 2 ^ 32) rest
      else encodeRunLength run ++ coding.literal value ++ encodeRuns coding 0 rest

/-- Apply zero-run coding, unless the value 255 cannot be represented. -/
def rleEncode (mtfData : Bytes) : Option Bytes :=
  if mtfData.contains 255 then none else some (encodeRuns .standard 0 mtfData)

/-- Apply zero-run coding with escapes. -/
def rleEncodeEscaped (mtfData : Bytes) : Bytes :=
  encodeRuns .escaped 0 mtfData

/-- Addition of 64-bit words that stops at their maximum. -/
def saturatingAdd (first second : Nat) : Nat := min (first + second) (2 ^ 64 - 1)

/-- Multiplication of 64-bit words that stops at their maximum. -/
def saturatingMul (first second : Nat) : Nat := min (first * second) (2 ^ 64 - 1)

/-- The digits of a run read so far: its length and the weight of the next digit. -/
structure RunDigits where
  runLen : Nat
  power : Nat
  deriving DecidableEq, Repr

namespace RunDigits

def new : RunDigits where
  runLen := 0
  power := 1

/-- Take in one digit. -/
def read (digits : RunDigits) (digit : UInt8) : RunDigits where
  runLen := saturatingAdd digits.runLen (saturatingMul (digit.toNat + 1) digits.power)
  power := saturatingMul digits.power 2

end RunDigits

/-- Write out a finished run, rejecting one that exceeds the remaining capacity. -/
def writeRun (expectedSize : Nat) (output : Bytes) : Option RunDigits → Result Bytes
  | none => .ok output
  | some digits =>
      let remaining := expectedSize - output.length
      if digits.runLen > remaining then
        .error (.decompression
          s!"RLE zero-run length {digits.runLen} exceeds remaining output capacity {remaining}")
      else .ok (output ++ List.replicate digits.runLen 0)

/-- Decode from a position on, with the output so far and the run being read. -/
def decodeRuns (coding : RunCoding) (expectedSize : Nat) :
    (position : Nat) → (output : Bytes) → Option RunDigits → Bytes → Result Bytes
  | _, output, run, [] => writeRun expectedSize output run
  | position, output, run, symbol :: rest =>
      if symbol ≤ 1 then
        decodeRuns coding expectedSize (position + 1) output
          (some ((run.getD .new).read symbol)) rest
      else
        match writeRun expectedSize output run with
        | .error error => .error error
        | .ok output =>
            if coding = .escaped ∧ symbol = 255 then
              match rest with
              | [] =>
                  .error (.decompression
                    "RLE escaped decode: truncated escape sequence at end of stream")
              | suffix :: rest =>
                  if output.length ≥ expectedSize then
                    .error (.decompression
                      (s!"RLE escaped decode: symbol at position {position} would exceed "
                        ++ s!"expected size {expectedSize}"))
                  else if suffix = 2 then
                    decodeRuns coding expectedSize (position + 2) (output ++ [254]) none rest
                  else if suffix = 3 then
                    decodeRuns coding expectedSize (position + 2) (output ++ [255]) none rest
                  else
                    .error (.decompression
                      (s!"RLE escaped decode: invalid escape suffix {suffix} at position "
                        ++ s!"{position + 1}"))
            else if output.length ≥ expectedSize then
              .error (.decompression
                (s!"{coding.label}: non-zero symbol at position {position} would exceed "
                  ++ s!"expected size {expectedSize}"))
            else decodeRuns coding expectedSize (position + 1) (output ++ [symbol - 1]) none rest

/-- Decode a zero-run coded stream of a known decoded size. -/
def decodeRunsExact (coding : RunCoding) (rleData : Bytes) (expectedSize : Nat) : Result Bytes :=
  match decodeRuns coding expectedSize 0 [] none rleData with
  | .error error => .error error
  | .ok output =>
      if output.length ≠ expectedSize then
        .error (.decompression
          s!"{coding.label} size mismatch: got {output.length}, expected {expectedSize}")
      else .ok output

/-- Decode bijective base-2 zero runs back to the move-to-front stream. -/
def rleDecode (rleData : Bytes) (expectedSize : Nat) : Result Bytes :=
  decodeRunsExact .standard rleData expectedSize

/-- Decode zero runs with escapes back to the move-to-front stream. -/
def rleDecodeEscaped (rleData : Bytes) (expectedSize : Nat) : Result Bytes :=
  decodeRunsExact .escaped rleData expectedSize

/-! ## Round trip -/

/-- A value the coding has bytes for. -/
def RunCoding.Represents (coding : RunCoding) (value : UInt8) : Prop :=
  coding = .standard → value ≠ 255

theorem encodeRunLength_zero : encodeRunLength 0 = [] := by
  rw [encodeRunLength, if_neg (Nat.lt_irrefl 0)]

theorem encodeRunLength_of_pos {n : Nat} (positive : 0 < n) :
    encodeRunLength n = UInt8.ofNat ((n - 1) % 2) :: encodeRunLength ((n - 1) / 2) := by
  rw [encodeRunLength, if_pos positive]

theorem length_encodeRunLength_le (n : Nat) : (encodeRunLength n).length ≤ n := by
  induction n using Nat.strongRecOn with
  | ind n ih =>
      by_cases positive : 0 < n
      · rw [encodeRunLength_of_pos positive, List.length_cons]
        have := ih ((n - 1) / 2) (by omega)
        omega
      · rw [Nat.eq_zero_of_not_pos positive, encodeRunLength_zero, List.length_nil]

/-- Digits that leave room below the word size are read without saturation. -/
theorem RunDigits.read_of_room {digits : RunDigits} {digit : Nat} (bit : digit ≤ 1)
    (length : digits.runLen + (digit + 1) * digits.power < 2 ^ 64)
    (power : digits.power * 2 < 2 ^ 64) :
    digits.read (UInt8.ofNat digit) =
      { runLen := digits.runLen + (digit + 1) * digits.power, power := digits.power * 2 } := by
  have value : (UInt8.ofNat digit).toNat = digit := by
    rw [UInt8.toNat_ofNat']
    omega
  simp only [read, saturatingAdd, saturatingMul, value]
  congr 1 <;> omega

/-- Reading the digits of a run length adds it at the current weight. -/
theorem decodeRuns_encodeRunLength (coding : RunCoding) (expectedSize position : Nat)
    (output rest : Bytes) {n : Nat} {run : Option RunDigits} (positive : 0 < n)
    (length : (run.getD .new).runLen + n * (run.getD .new).power < 2 ^ 64)
    (power : (run.getD .new).power * (n + 1) < 2 ^ 64) :
    ∃ position' power', decodeRuns coding expectedSize position output run
        (encodeRunLength n ++ rest) =
      decodeRuns coding expectedSize position' output
        (some { runLen := (run.getD .new).runLen + n * (run.getD .new).power
                power := power' }) rest := by
  induction n using Nat.strongRecOn generalizing run position with
  | ind n ih =>
      obtain ⟨digit, half, bit, decomposed, digitEq, halfEq⟩ :
          ∃ digit half, digit ≤ 1 ∧ n = half * 2 + (digit + 1) ∧ (n - 1) % 2 = digit ∧
            (n - 1) / 2 = half := ⟨(n - 1) % 2, (n - 1) / 2, by omega, by omega, rfl, rfl⟩
      have total : (digit + 1) * (run.getD .new).power + half * ((run.getD .new).power * 2) =
          n * (run.getD .new).power := by
        rw [decomposed]
        ring
      have twice : (run.getD .new).power * 2 ≤ (run.getD .new).power * (n + 1) :=
        Nat.mul_le_mul_left _ (by omega)
      have small : UInt8.ofNat digit ≤ 1 := by
        rw [UInt8.le_iff_toNat_le, UInt8.toNat_ofNat']
        change digit % 2 ^ 8 ≤ 1
        omega
      rw [encodeRunLength_of_pos positive, digitEq, halfEq, List.cons_append, decodeRuns,
        if_pos small, RunDigits.read_of_room bit (by omega) (by omega)]
      by_cases last : half = 0
      · subst last
        refine ⟨position + 1, (run.getD .new).power * 2, ?_⟩
        rw [Nat.zero_mul, Nat.add_zero] at total
        rw [encodeRunLength_zero, List.nil_append, total]
      · obtain ⟨position', power', rest⟩ := @ih half (by omega) (position + 1)
          (some { runLen := (run.getD .new).runLen + (digit + 1) * (run.getD .new).power
                  power := (run.getD .new).power * 2 })
          (Nat.pos_of_ne_zero last) (by simp only [Option.getD_some]; omega)
          (by
            simp only [Option.getD_some]
            calc (run.getD .new).power * 2 * (half + 1)
                = (run.getD .new).power * (half * 2 + 2) := by ring
              _ ≤ (run.getD .new).power * (n + 1) := Nat.mul_le_mul_left _ (by omega)
              _ < 2 ^ 64 := power)
        refine ⟨position', power', ?_⟩
        rw [rest, Option.getD_some, Nat.add_assoc, total]

/-- A pending run is written as its zeros. -/
theorem decodeRuns_pending (coding : RunCoding) {expectedSize n : Nat} (position : Nat)
    {output : Bytes} (rest : Bytes) (fits : n < 2 ^ 32) (room : output.length + n ≤ expectedSize)
    (ended : ∀ symbol ∈ rest.head?, ¬symbol ≤ 1) :
    ∃ position', decodeRuns coding expectedSize position output none (encodeRunLength n ++ rest) =
      decodeRuns coding expectedSize position' (output ++ List.replicate n 0) none rest := by
  by_cases positive : 0 < n
  · obtain ⟨position', power', read⟩ := @decodeRuns_encodeRunLength coding expectedSize position
      output rest n none positive (by change 0 + n * 1 < 2 ^ 64; omega)
      (by change 1 * (n + 1) < 2 ^ 64; omega)
    have length : (Option.getD none RunDigits.new).runLen +
        n * (Option.getD none RunDigits.new).power = n := by
      change 0 + n * 1 = n
      omega
    rw [length] at read
    refine ⟨position', read.trans ?_⟩
    have written : writeRun expectedSize output (some { runLen := n, power := power' }) =
        .ok (output ++ List.replicate n 0) := by
      rw [writeRun]
      exact if_neg (by dsimp only; omega)
    cases rest with
    | nil =>
        rw [decodeRuns, decodeRuns, written]
        rfl
    | cons symbol rest =>
        have literal : ¬symbol ≤ 1 := ended symbol rfl
        rw [decodeRuns, decodeRuns, if_neg literal, if_neg literal, written]
        rfl
  · rw [Nat.eq_zero_of_not_pos positive, encodeRunLength_zero]
    exact ⟨position, by simp⟩

/-- A value below the maximum survives the shift by one. -/
theorem decodeRuns_shifted (coding : RunCoding) {expectedSize position : Nat}
    {output rest : Bytes} {value : UInt8} (nonzero : value ≠ 0) (unescaped : value.toNat < 255)
    (plain : coding = .escaped → value.toNat < 254) (room : output.length < expectedSize) :
    decodeRuns coding expectedSize position output none ((value + 1) :: rest) =
      decodeRuns coding expectedSize (position + 1) (output ++ [value]) none rest := by
  have positive : value.toNat ≠ 0 := fun zero => nonzero (UInt8.toNat_inj.mp zero)
  have shifted : (value + 1).toNat = value.toNat + 1 := by
    rw [UInt8.toNat_add]
    exact Nat.mod_eq_of_lt (Nat.succ_lt_succ unescaped)
  have literal : ¬value + 1 ≤ 1 := by
    rw [UInt8.le_iff_toNat_le, shifted]
    change ¬value.toNat + 1 ≤ 1
    omega
  have other : ¬(coding = .escaped ∧ value + 1 = 255) := by
    rintro ⟨escaped, maximal⟩
    have := plain escaped
    rw [← UInt8.toNat_inj, shifted] at maximal
    change value.toNat + 1 = 255 at maximal
    omega
  have restored : value + 1 - 1 = value := by rw [UInt8.add_sub_cancel]
  rw [decodeRuns, if_neg literal]
  simp only [writeRun, other, ↓reduceIte, ge_iff_le, Nat.not_le.mpr room, restored]

/-- A literal is read back as its value. -/
theorem decodeRuns_literal (coding : RunCoding) {expectedSize : Nat} (position : Nat)
    {output : Bytes} (rest : Bytes) {value : UInt8} (nonzero : value ≠ 0)
    (represents : coding.Represents value) (room : output.length < expectedSize) :
    ∃ position', decodeRuns coding expectedSize position output none
        (coding.literal value ++ rest) =
      decodeRuns coding expectedSize position' (output ++ [value]) none rest := by
  have valueLt : value.toNat < 256 := value.toNat_lt
  have maximal : ¬(255 : UInt8) ≤ 1 := by decide
  cases coding with
  | standard =>
      have unescaped : value.toNat ≠ 255 := fun max =>
        represents rfl (UInt8.toNat_inj.mp max)
      exact ⟨position + 1, decodeRuns_shifted .standard nonzero (by omega) (by simp) room⟩
  | escaped =>
      simp only [RunCoding.literal]
      split
      · rename_i small
        have below : value.toNat < 254 := UInt8.lt_iff_toNat_lt.mp small
        exact ⟨position + 1, decodeRuns_shifted .escaped nonzero (by omega) (fun _ => below) room⟩
      · rename_i large
        have above : ¬value.toNat < 254 := fun less => large (UInt8.lt_iff_toNat_lt.mpr less)
        split
        · rename_i escape
          refine ⟨position + 2, ?_⟩
          rw [List.cons_append, decodeRuns, if_neg maximal]
          simp only [writeRun, and_self, ↓reduceIte, List.cons_append, List.nil_append, ge_iff_le,
            Nat.not_le.mpr room, escape]
        · rename_i other
          have last : value = 255 := by
            have : value.toNat ≠ 254 := fun max => other (UInt8.toNat_inj.mp max)
            apply UInt8.toNat_inj.mp
            change value.toNat = 255
            omega
          have suffix : ¬(3 : UInt8) = 2 := by decide
          refine ⟨position + 2, ?_⟩
          rw [List.cons_append, decodeRuns, if_neg maximal]
          simp only [writeRun, and_self, ↓reduceIte, List.cons_append, List.nil_append, ge_iff_le,
            Nat.not_le.mpr room, suffix, last]

/-- The first byte of a literal is no run digit. -/
theorem head_literal (coding : RunCoding) {value : UInt8} {rest : Bytes} (nonzero : value ≠ 0)
    (represents : coding.Represents value) :
    ∀ symbol ∈ (coding.literal value ++ rest).head?, ¬symbol ≤ 1 := by
  have shifted (below : value.toNat < 255) : ¬value + 1 ≤ 1 := by
    have positive : value.toNat ≠ 0 := fun zero => nonzero (UInt8.toNat_inj.mp zero)
    rw [UInt8.le_iff_toNat_le, UInt8.toNat_add]
    change ¬(value.toNat + 1) % 256 ≤ 1
    omega
  have valueLt : value.toNat < 256 := value.toNat_lt
  intro symbol member
  cases coding with
  | standard =>
      have unescaped : value.toNat ≠ 255 := fun max =>
        represents rfl (UInt8.toNat_inj.mp max)
      cases member
      exact shifted (by omega)
  | escaped =>
      simp only [RunCoding.literal] at member
      split at member
      · rename_i small
        have below : value.toNat < 254 := UInt8.lt_iff_toNat_lt.mp small
        cases member
        exact shifted (by omega)
      · split at member <;> cases member <;> decide

/-- **Decoding inverts encoding** from any pending run on. -/
theorem decodeRuns_encodeRuns (coding : RunCoding) {expectedSize run : Nat} (position : Nat)
    {output data : Bytes} (represents : ∀ value ∈ data, coding.Represents value)
    (short : run + data.length < 2 ^ 32)
    (room : output.length + run + data.length ≤ expectedSize) :
    decodeRuns coding expectedSize position output none (encodeRuns coding run data) =
      .ok (output ++ List.replicate run 0 ++ data) := by
  induction data generalizing position run output with
  | nil =>
      rw [List.length_nil, Nat.add_zero] at short room
      obtain ⟨position', pending⟩ := decodeRuns_pending coding position [] short room (by simp)
      rw [List.append_nil] at pending
      rw [encodeRuns, pending, decodeRuns, writeRun, List.append_nil]
  | cons value data ih =>
      rw [List.length_cons] at short room
      have later : ∀ value ∈ data, coding.Represents value := fun other member =>
        represents other (List.mem_cons_of_mem _ member)
      by_cases zero : value = 0
      · subst zero
        rw [encodeRuns, if_pos rfl, Nat.mod_eq_of_lt (by omega),
          ih position later (by omega) (by omega),
          List.replicate_succ', List.append_assoc, List.append_assoc, List.append_assoc]
        rfl
      · have here := represents value List.mem_cons_self
        rw [encodeRuns, if_neg zero, List.append_assoc]
        obtain ⟨first, pending⟩ := decodeRuns_pending coding position
          (coding.literal value ++ encodeRuns coding 0 data) (show run < 2 ^ 32 by omega)
          (show output.length + run ≤ expectedSize by omega) (head_literal coding zero here)
        obtain ⟨second, literal⟩ := decodeRuns_literal coding first (encodeRuns coding 0 data) zero
          here (show (output ++ List.replicate run 0).length < expectedSize by
            rw [List.length_append, List.length_replicate]
            omega)
        rw [pending, literal, ih second later (by omega)
          (by simp only [List.length_append, List.length_replicate, List.length_singleton]; omega)]
        simp

/-- **Zero-run round trip** for either form of the coding. -/
theorem decodeRunsExact_encodeRuns (coding : RunCoding) {data : Bytes}
    (represents : ∀ value ∈ data, coding.Represents value) (short : data.length < 2 ^ 32) :
    decodeRunsExact coding (encodeRuns coding 0 data) data.length = .ok data := by
  have decoded := decodeRuns_encodeRuns coding 0 represents (show 0 + data.length < 2 ^ 32 by omega)
    (show ([] : Bytes).length + 0 + data.length ≤ data.length by simp)
  simp [decodeRunsExact, decoded]

/-- The coding at most doubles the data. -/
theorem length_encodeRuns_le (coding : RunCoding) (run : Nat) (data : Bytes) :
    (encodeRuns coding run data).length ≤ run + 2 * data.length := by
  induction data generalizing run with
  | nil => exact (length_encodeRunLength_le run).trans (Nat.le_add_right _ _)
  | cons value data ih =>
      rw [encodeRuns, List.length_cons]
      split
      · have := ih ((run + 1) % 2 ^ 32)
        have := Nat.mod_le (run + 1) (2 ^ 32)
        omega
      · have := length_encodeRunLength_le run
        have := ih 0
        have : (coding.literal value).length ≤ 2 := by
          cases coding <;> simp only [RunCoding.literal] <;> (repeat' split) <;> simp
        simp only [List.length_append]
        omega

end AetherArch
