import Mathlib.Data.List.Infix
import Mathlib.Data.List.Forall2

/-! # Percent encoding

Decoding of `%` followed by two hexadecimal digits, from left to right, with every other byte kept.
What a decoded text contains is spelled by what the encoded one contains, byte by byte.
-/

namespace PercentEncoding

/-- The value of a hexadecimal digit of either case. -/
def hexValue (byte : UInt8) : Option Nat :=
  if 48 ≤ byte.toNat ∧ byte.toNat ≤ 57 then some (byte.toNat - 48)
  else if 97 ≤ byte.toNat ∧ byte.toNat ≤ 102 then some (byte.toNat - 87)
  else if 65 ≤ byte.toNat ∧ byte.toNat ≤ 70 then some (byte.toNat - 55)
  else none

/-- The byte that three bytes are an escape of. -/
def escaped (mark high low : UInt8) : Option UInt8 :=
  if mark = 37 then
    match hexValue high, hexValue low with
    | some upper, some lower => some (UInt8.ofNat (16 * upper + lower))
    | _, _ => none
  else none

/-- Decode every escape once. -/
def percentDecode : List UInt8 → List UInt8
  | first :: second :: third :: rest =>
      match escaped first second third with
      | some byte => byte :: percentDecode rest
      | none => first :: percentDecode (second :: third :: rest)
  | bytes => bytes

/-- Some bytes decode to one. -/
inductive Spells : List UInt8 → UInt8 → Prop
  | itself (byte : UInt8) : Spells [byte] byte
  | escape {mark high low byte : UInt8} (decodes : escaped mark high low = some byte) :
      Spells [mark, high, low] byte

/-- Every byte of a decoded text is spelled by a part of the encoded one, in order. -/
theorem spelled (bytes : List UInt8) :
    ∃ parts, parts.flatten = bytes ∧ List.Forall₂ Spells parts (percentDecode bytes) := by
  induction bytes using percentDecode.induct with
  | case1 first second third rest byte decodes recurse =>
      obtain ⟨parts, rfl, spells⟩ := recurse
      refine ⟨[first, second, third] :: parts, rfl, ?_⟩
      rw [percentDecode, decodes]
      exact .cons (.escape decodes) spells
  | case2 first second third rest kept recurse =>
      obtain ⟨parts, flat, spells⟩ := recurse
      refine ⟨[first] :: parts, congrArg (first :: ·) flat, ?_⟩
      rw [percentDecode, kept]
      exact .cons (.itself first) spells
  | case3 bytes short =>
      have kept : percentDecode bytes = bytes := by
        rw [percentDecode.eq_def]
        split
        · exact absurd rfl (short _ _ _ _)
        · rfl
      refine ⟨bytes.map fun byte => [byte], ?_, ?_⟩
      · rw [← List.flatMap_def, List.flatMap_singleton']
      · rw [kept, List.forall₂_map_left_iff]
        exact List.forall₂_same.mpr fun byte _ => .itself byte

/-- **A text inside a decoded one** is spelled inside the encoded one. -/
theorem spelled_infix {bytes pattern : List UInt8} (inside : pattern <:+: percentDecode bytes) :
    ∃ parts, parts.flatten <:+: bytes ∧ List.Forall₂ Spells parts pattern := by
  obtain ⟨parts, rfl, spells⟩ := spelled bytes
  obtain ⟨before, after, split⟩ := inside
  rw [← split, List.append_assoc] at spells
  have behind := List.forall₂_drop_append parts before _ spells
  have here := List.forall₂_take_append (parts.drop before.length) pattern _ behind
  refine ⟨(parts.drop before.length).take pattern.length, ?_, here⟩
  refine ⟨(parts.take before.length).flatten,
    ((parts.drop before.length).drop pattern.length).flatten, ?_⟩
  rw [← List.flatten_append, ← List.flatten_append, List.append_assoc, List.take_append_drop,
    List.take_append_drop]

/-- The first byte of a decoded text is spelled at the start of the encoded one. -/
theorem spelled_head {bytes : List UInt8} {byte : UInt8}
    (first : (percentDecode bytes).head? = some byte) :
    ∃ part, part <+: bytes ∧ Spells part byte := by
  obtain ⟨parts, rfl, spells⟩ := spelled bytes
  obtain ⟨rest, decoded⟩ := List.head?_eq_some_iff.mp first
  rw [decoded] at spells
  cases spells with
  | cons here later => exact ⟨_, List.prefix_append _ _, here⟩

theorem percentDecode_ne_nil {bytes : List UInt8} (some : bytes ≠ []) :
    percentDecode bytes ≠ [] := by
  intro none
  obtain ⟨parts, rfl, spells⟩ := spelled bytes
  rw [none] at spells
  cases spells
  exact some rfl

/-! ## Letter case -/

/-- A byte with capital letters made small. -/
def toAsciiLowercase (byte : UInt8) : UInt8 :=
  if 65 ≤ byte.toNat ∧ byte.toNat ≤ 90 then UInt8.ofNat (byte.toNat + 32) else byte

/-- The small hexadecimal digit of a value. -/
def hexDigit (value : Nat) : UInt8 :=
  if value < 10 then UInt8.ofNat (48 + value) else UInt8.ofNat (87 + value)

theorem lowercase_of_hexValue {byte : UInt8} {value : Nat} (decodes : hexValue byte = some value) :
    toAsciiLowercase byte = hexDigit value ∧ value < 16 := by
  have same {n : Nat} (code : byte.toNat = n) : byte = UInt8.ofNat n := by
    rw [← code, UInt8.ofNat_toNat]
  rw [hexValue] at decodes
  split at decodes
  · rename_i digit
    cases decodes
    rw [toAsciiLowercase, if_neg (by omega), hexDigit, if_pos (by omega)]
    exact ⟨same (by omega), by omega⟩
  · split at decodes
    · rename_i small
      cases decodes
      rw [toAsciiLowercase, if_neg (by omega), hexDigit, if_neg (by omega)]
      exact ⟨same (by omega), by omega⟩
    · split at decodes
      · rename_i capital
        cases decodes
        rw [toAsciiLowercase, if_pos (by omega), hexDigit, if_neg (by omega)]
        exact ⟨congrArg UInt8.ofNat (by omega), by omega⟩
      · cases decodes

/-- **An escape in small letters** is made of the digits of its byte. -/
theorem lowercase_of_escaped {mark high low byte : UInt8}
    (decodes : escaped mark high low = some byte) :
    [mark, high, low].map toAsciiLowercase =
      [37, hexDigit (byte.toNat / 16), hexDigit (byte.toNat % 16)] := by
  rw [escaped] at decodes
  split at decodes
  · rename_i sign
    subst sign
    split at decodes
    · rename_i upper lower first second
      obtain ⟨highDigit, highSmall⟩ := lowercase_of_hexValue first
      obtain ⟨lowDigit, lowSmall⟩ := lowercase_of_hexValue second
      cases decodes
      have code : (UInt8.ofNat (16 * upper + lower)).toNat = 16 * upper + lower := by
        rw [UInt8.toNat_ofNat']
        exact Nat.mod_eq_of_lt (by omega)
      have upperDigit : (16 * upper + lower) / 16 = upper := by omega
      have lowerDigit : (16 * upper + lower) % 16 = lower := by omega
      rw [List.map_cons, List.map_cons, List.map_singleton, highDigit, lowDigit, code, upperDigit,
        lowerDigit]
      rfl
    · cases decodes
  · cases decodes

/-- A byte is spelled by itself or, in small letters, by the escape with its digits. -/
theorem Spells.lowercase {part : List UInt8} {byte : UInt8} (spells : Spells part byte) :
    part = [byte] ∨
      part.map toAsciiLowercase = [37, hexDigit (byte.toNat / 16), hexDigit (byte.toNat % 16)] := by
  cases spells with
  | itself => exact .inl rfl
  | escape decodes => exact .inr (lowercase_of_escaped decodes)

/-- **A byte of a decoded text** is in the encoded one, or its escape is in small letters. -/
theorem mem_percentDecode {bytes : List UInt8} {byte : UInt8}
    (member : byte ∈ percentDecode bytes) :
    byte ∈ bytes ∨
      [37, hexDigit (byte.toNat / 16), hexDigit (byte.toNat % 16)] <:+:
        bytes.map toAsciiLowercase := by
  obtain ⟨parts, inside, spells⟩ := spelled_infix ((List.singleton_infix_iff _ _).mpr member)
  obtain ⟨part, nothing, here, none, rfl⟩ := List.forall₂_cons_right_iff.mp spells
  cases none
  rw [List.flatten_singleton] at inside
  rcases here.lowercase with rfl | escape
  · exact .inl ((List.singleton_infix_iff _ _).mp inside)
  · exact .inr (escape ▸ inside.map toAsciiLowercase)

end PercentEncoding
