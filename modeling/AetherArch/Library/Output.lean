import AetherArch.Library.ByteReader

/-! # Seekable outputs

What has been written to an output that starts out empty. Positions are signed 64-bit offsets, so
no output grows past them: a write that would is refused.
-/

/-- Written bytes, with every position in them addressable. -/
structure Output where
  bytes : List UInt8
  addressable : bytes.length < 2 ^ 63

namespace Output

/-- Nothing written yet. -/
def empty : Output := ⟨[], by norm_num⟩

/-- The position after the last byte. -/
def position (output : Output) : UInt64 := UInt64.ofNat output.bytes.length

@[simp] theorem toNat_position (output : Output) : output.position.toNat = output.bytes.length :=
  UInt64.toNat_ofNat_of_lt' (output.addressable.trans (by decide))

/-- Replace the bytes, if all positions stay addressable. -/
def replace? (bytes : List UInt8) : Option Output :=
  if addressable : bytes.length < 2 ^ 63 then some ⟨bytes, addressable⟩ else none

theorem replace?_eq_some {bytes : List UInt8} {output : Output} :
    replace? bytes = some output ↔ output.bytes = bytes := by
  rw [replace?]
  constructor
  · intro replaced
    split at replaced
    · cases replaced
      rfl
    · cases replaced
  · rintro rfl
    exact dif_pos output.addressable

/-- Write at the end. -/
def append? (output : Output) (bytes : List UInt8) : Option Output :=
  replace? (output.bytes ++ bytes)

/-- Write over what is there from a position on. -/
def overwrite? (output : Output) (position : UInt64) (bytes : List UInt8) : Option Output :=
  replace? (overwrite output.bytes position.toNat bytes)

theorem append?_eq_some {output next : Output} {bytes : List UInt8} :
    output.append? bytes = some next ↔ next.bytes = output.bytes ++ bytes := replace?_eq_some

theorem overwrite?_eq_some {output next : Output} {position : UInt64} {bytes : List UInt8} :
    output.overwrite? position bytes = some next ↔
      next.bytes = overwrite output.bytes position.toNat bytes := replace?_eq_some

end Output

/-- Three patches of the size of what they replace, one at the front. -/
theorem overwrite_three {front second third newFront newSecond newThird : List UInt8}
    (between after : List UInt8) (sameFront : newFront.length = front.length)
    (sameSecond : newSecond.length = second.length) (sameThird : newThird.length = third.length) :
    overwrite (overwrite (overwrite (front ++ (between ++ (second ++ (third ++ after)))) 0 newFront)
      (front ++ between).length newSecond) (front ++ (between ++ second)).length newThird =
        newFront ++ (between ++ (newSecond ++ (newThird ++ after))) := by
  have first :=
    overwrite_append [] front (between ++ (second ++ (third ++ after))) newFront sameFront
  have middle := overwrite_append (newFront ++ between) second (third ++ after) newSecond sameSecond
  have last := overwrite_append (newFront ++ between ++ newSecond) third after newThird sameThird
  simp only [List.nil_append, List.length_nil, List.append_assoc, List.length_append, sameFront,
    sameSecond] at first middle last
  simp only [List.length_append, first, middle, last]
