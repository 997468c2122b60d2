import Mathlib.Tactic
import AetherArch.Library.Numeral
import AetherArch.Error

/-! # x86 branch normalization

Relative call and jump operands become absolute virtual positions before
compression, and relative again after decompression.
-/

namespace AetherArch

namespace Bcj

/-- The bytes of a slice. -/
def slice (data : Bytes) (start len : Nat) : Bytes := (data.drop start).take len

def isX86Elf (data : Bytes) : Bool :=
  if data.length < 20 ∨ data.take 4 ≠ [0x7F, 0x45, 0x4C, 0x46] then false
  else if data.getD 5 0 = 1 then
    let machine := Numeral.littleEndian (slice data 18 2)
    machine = 3 ∨ machine = 62
  else if data.getD 5 0 = 2 then
    let machine := Numeral.bigEndian (slice data 18 2)
    machine = 3 ∨ machine = 62
  else false

def isX86Pe (data : Bytes) : Bool :=
  if data.length < 0x40 ∨ data.take 2 ≠ [0x4D, 0x5A] then false
  else
    let peOffset := Numeral.littleEndian (slice data 0x3C 4)
    let machineEnd := peOffset + 6
    if machineEnd > data.length ∨ slice data peOffset 4 ≠ [0x50, 0x45, 0, 0] then false
    else
      let machine := Numeral.littleEndian (slice data (peOffset + 4) 2)
      machine = 0x014C ∨ machine = 0x8664

def isX86MachO (data : Bytes) : Bool :=
  if data.length < 8 then false
  else
    let magic := data.take 4
    if magic = [0xCE, 0xFA, 0xED, 0xFE] ∨ magic = [0xCF, 0xFA, 0xED, 0xFE] then
      let cpuType := Numeral.littleEndian (slice data 4 4)
      cpuType = 7 ∨ cpuType = 0x01000007
    else if magic = [0xFE, 0xED, 0xFA, 0xCE] ∨ magic = [0xFE, 0xED, 0xFA, 0xCF] then
      let cpuType := Numeral.bigEndian (slice data 4 4)
      cpuType = 7 ∨ cpuType = 0x01000007
    else false

/-- Whether data is an x86 or x86-64 ELF, PE or Mach-O executable. -/
def isX86Executable (data : Bytes) : Bool := isX86Elf data || isX86Pe data || isX86MachO data

/-- The operand of the instruction at a position, normalized or restored. -/
def rewriteOperand (encode : Bool) (position : Nat) (operand : Bytes) : Bytes :=
  let value := UInt32.ofNat (Numeral.littleEndian operand)
  let instructionEnd := UInt32.ofNat position + 5
  let normalized := if encode then value + instructionEnd else value - instructionEnd
  Numeral.toLittleEndian 4 normalized.toNat

/-- Rewrite the operands of the data from a position on. -/
def transformFrom (encode : Bool) : (position : Nat) → Bytes → Bytes
  | position, opcode :: a :: b :: c :: d :: rest =>
      if opcode = 0xE8 ∨ opcode = 0xE9 then
        opcode :: (rewriteOperand encode position [a, b, c, d] ++
          transformFrom encode (position + 5) rest)
      else opcode :: transformFrom encode (position + 1) (a :: b :: c :: d :: rest)
  | _, rest => rest

def transformX86 (encode : Bool) (data : Bytes) : Bytes := transformFrom encode 0 data

/-- Apply the forward transform to an executable. -/
def encodeX86 (data : Bytes) : Option Bytes :=
  if isX86Executable data then some (transformX86 true data) else none

/-- Reverse the transform. -/
def decodeX86 (data : Bytes) : Bytes := transformX86 false data

/-! ## Round trip -/

theorem rewriteOperand_four (encode : Bool) (position : Nat) (operand : Bytes) :
    ∃ a b c d, rewriteOperand encode position operand = [a, b, c, d] :=
  ⟨_, _, _, _, rfl⟩

/-- Restoring a normalized operand, and normalizing a restored one. -/
theorem rewriteOperand_rewriteOperand (encode : Bool) (position : Nat) (a b c d : UInt8) :
    rewriteOperand (!encode) position (rewriteOperand encode position [a, b, c, d]) =
      [a, b, c, d] := by
  have word : 256 ^ 4 = 2 ^ 32 := by norm_num
  have readBack (value : UInt32) :
      UInt32.ofNat (Numeral.littleEndian (Numeral.toLittleEndian 4 value.toNat)) = value := by
    rw [Numeral.littleEndian_toLittleEndian, word, Nat.mod_eq_of_lt value.toNat_lt,
      UInt32.ofNat_toNat]
  have bounded := Numeral.littleEndian_lt [a, b, c, d]
  rw [show [a, b, c, d].length = 4 from rfl, word] at bounded
  have original : Numeral.toLittleEndian 4
      (UInt32.ofNat (Numeral.littleEndian [a, b, c, d])).toNat = [a, b, c, d] := by
    rw [UInt32.toNat_ofNat_of_lt' bounded]
    exact Numeral.toLittleEndian_littleEndian [a, b, c, d]
  cases encode with
  | true =>
      simp only [rewriteOperand, Bool.not_true, Bool.false_eq_true, ↓reduceIte, readBack,
        UInt32.add_sub_cancel, original]
  | false =>
      simp only [rewriteOperand, Bool.not_false, Bool.false_eq_true, ↓reduceIte, readBack,
        UInt32.sub_add_cancel, original]

@[simp] theorem length_transformFrom (encode : Bool) (position : Nat) (data : Bytes) :
    (transformFrom encode position data).length = data.length := by
  fun_induction transformFrom encode position data with
  | case1 position opcode a b c d rest branch recurse =>
      simp only [List.length_cons, List.length_append, recurse, rewriteOperand,
        Numeral.length_toLittleEndian]
      omega
  | case2 position opcode a b c d rest branch recurse =>
      simp only [List.length_cons, recurse]
  | case3 => rfl

/-- Both directions visit the same opcodes, so each undoes the other. -/
theorem transformFrom_transformFrom (encode : Bool) (position : Nat) (data : Bytes) :
    transformFrom (!encode) position (transformFrom encode position data) = data := by
  fun_induction transformFrom encode position data with
  | case1 position opcode a b c d rest branch recurse =>
      have undone := rewriteOperand_rewriteOperand encode position a b c d
      obtain ⟨a', b', c', d', rewritten⟩ := rewriteOperand_four encode position [a, b, c, d]
      rw [rewritten] at undone ⊢
      change transformFrom (!encode) position (opcode :: a' :: b' :: c' :: d' ::
        transformFrom encode (position + 5) rest) = _
      rw [transformFrom, if_pos branch, undone, recurse]
      rfl
  | case2 position opcode a b c d rest branch recurse =>
      have length := length_transformFrom encode (position + 1) (a :: b :: c :: d :: rest)
      match image : transformFrom encode (position + 1) (a :: b :: c :: d :: rest) with
      | a' :: b' :: c' :: d' :: rest' =>
          rw [transformFrom, if_neg branch, ← image, recurse]
      | [] | [_] | [_, _] | [_, _, _] =>
          rw [image] at length
          simp only [List.length_cons, List.length_nil] at length
          omega
  | case3 position data short =>
      match data, short with
      | [], _ | [_], _ | [_, _], _ | [_, _, _], _ | [_, _, _, _], _ => rfl
      | opcode :: a :: b :: c :: d :: rest, short => exact absurd rfl (short opcode a b c d rest)

/-- **The two transforms are mutually inverse on every byte string.** -/
theorem transformX86_transformX86 (encode : Bool) (data : Bytes) :
    transformX86 (!encode) (transformX86 encode data) = data :=
  transformFrom_transformFrom encode 0 data

/-- The positions whose operands a scan rewrites. -/
def opcodePositions : (position : Nat) → Bytes → List Nat
  | position, opcode :: a :: b :: c :: d :: rest =>
      if opcode = 0xE8 ∨ opcode = 0xE9 then position :: opcodePositions (position + 5) rest
      else opcodePositions (position + 1) (a :: b :: c :: d :: rest)
  | _, _ => []

/-- The scan of transformed data visits the opcodes the first scan visited. -/
theorem opcodePositions_transformFrom (encode : Bool) (position : Nat) (data : Bytes) :
    opcodePositions position (transformFrom encode position data) =
      opcodePositions position data := by
  fun_induction transformFrom encode position data with
  | case1 position opcode a b c d rest branch recurse =>
      obtain ⟨a', b', c', d', rewritten⟩ := rewriteOperand_four encode position [a, b, c, d]
      rw [rewritten]
      change opcodePositions position (opcode :: a' :: b' :: c' :: d' ::
        transformFrom encode (position + 5) rest) = _
      rw [opcodePositions, opcodePositions, if_pos branch, if_pos branch, recurse]
  | case2 position opcode a b c d rest branch recurse =>
      have length := length_transformFrom encode (position + 1) (a :: b :: c :: d :: rest)
      match image : transformFrom encode (position + 1) (a :: b :: c :: d :: rest) with
      | a' :: b' :: c' :: d' :: rest' =>
          rw [opcodePositions, opcodePositions, if_neg branch, if_neg branch, ← image, recurse]
      | [] | [_] | [_, _] | [_, _, _] =>
          rw [image] at length
          simp only [List.length_cons, List.length_nil] at length
          omega
  | case3 position data short =>
      match data, short with
      | [], _ | [_], _ | [_, _], _ | [_, _, _], _ | [_, _, _, _], _ => rfl
      | opcode :: a :: b :: c :: d :: rest, short => exact absurd rfl (short opcode a b c d rest)

/-- **The two transforms undo each other on every byte string**, and their scans rewrite the
operands of the same positions. -/
theorem bcj_mutuallyInverse (data : Bytes) :
    transformX86 false (transformX86 true data) = data ∧
      transformX86 true (transformX86 false data) = data ∧
      ∀ encode, opcodePositions 0 (transformX86 encode data) = opcodePositions 0 data :=
  ⟨transformX86_transformX86 true data, transformX86_transformX86 false data,
    fun encode => opcodePositions_transformFrom encode 0 data⟩

theorem decodeX86_encodeX86 {data transformed : Bytes}
    (success : encodeX86 data = some transformed) : decodeX86 transformed = data := by
  rw [encodeX86] at success
  split at success
  · obtain rfl := Option.some.inj success
    exact transformX86_transformX86 true data
  · cases success

theorem length_encodeX86 {data transformed : Bytes}
    (success : encodeX86 data = some transformed) : transformed.length = data.length := by
  rw [encodeX86] at success
  split at success
  · obtain rfl := Option.some.inj success
    exact length_transformFrom true 0 data
  · cases success

end Bcj

end AetherArch
