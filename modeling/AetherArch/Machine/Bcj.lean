import AetherArch.Coding.Bcj
import AetherArch.Library.Checked

/-! # Branch restoration by machine steps

The transform of relative operands in place, with the cursor and every index checked.
-/

namespace AetherArch

open Checked

namespace Machine

/-- The byte some places after a cursor. -/
def byteAfter (data : Bytes) (position places : Nat) : Run AetherError UInt8 := do
  let i ← add 64 position places
  index data i

/-- One round of the transform: the data so far and the cursor. -/
def transformRound (encode : Bool) (state : Bytes × Nat) :
    Run AetherError (Round (Bytes × Nat) Bytes) :=
  let (data, position) := state
  if position + 5 < 2 ^ 64 ∧ position + 5 ≤ data.length then do
    let opcode ← index data position
    if opcode = 0xE8 ∨ opcode = 0xE9 then do
      let a ← byteAfter data position 1
      let b ← byteAfter data position 2
      let c ← byteAfter data position 3
      let d ← byteAfter data position 4
      let start ← add 64 position 1
      let stop ← add 64 position 5
      let data ← copyFrom data start stop (Bcj.rewriteOperand encode position [a, b, c, d])
      .ok (.next (data, stop))
    else do
      let next ← add 64 position 1
      .ok (.next (data, next))
  else .ok (.done data)

def transformX86 (encode : Bool) (data : Bytes) : Run AetherError Bytes :=
  loop (transformRound encode) (data.length + 1) (data, 0)

/-- Reverse the transform. -/
def decodeX86 (data : Bytes) : Run AetherError Bytes := transformX86 false data

/-! ## No fault -/

theorem byteAfter_of_lt {data : Bytes} {position places : Nat}
    (addressable : data.length < 2 ^ 63) (inside : position + places < data.length) :
    byteAfter data position places = .ok data[position + places] := by
  rw [byteAfter, add_of_lt (by omega), Result.ok_bind, index_of_lt inside]

/-- Fewer than five bytes are left alone. -/
theorem transformFrom_of_short (encode : Bool) (position : Nat) {rest : Bytes}
    (short : rest.length < 5) : Bcj.transformFrom encode position rest = rest := by
  match rest, short with
  | [], _ => rfl
  | [_], _ => rfl
  | [_, _], _ => rfl
  | [_, _, _], _ => rfl
  | [_, _, _, _], _ => rfl

/-- The data already transformed, with what the transform makes of the rest. -/
def TransformSpec (encode : Bool) (size : Nat) (target : Bytes) (state : Bytes × Nat) : Prop :=
  state.1.length = size ∧ state.2 ≤ size ∧
    state.1.take state.2 ++ Bcj.transformFrom encode state.2 (state.1.drop state.2) = target

theorem transformRound_spec {encode : Bool} {size : Nat} (addressable : size < 2 ^ 63)
    {target : Bytes} (state : Bytes × Nat) (spec : TransformSpec encode size target state) :
    (∃ later, transformRound encode state = .ok (.next later) ∧
      TransformSpec encode size target later ∧ size - later.2 < size - state.2) ∨
    (∃ data, transformRound encode state = .ok (.done data) ∧ target = data) := by
  obtain ⟨data, position⟩ := state
  obtain ⟨length, inside, same⟩ := spec
  dsimp only at length inside same
  rw [← length] at addressable inside ⊢
  unfold transformRound
  dsimp only
  by_cases room : position + 5 ≤ data.length
  · rw [if_pos ⟨by omega, room⟩, index_of_lt (by omega), Result.ok_bind]
    have split : data.drop position = data[position] :: data[position + 1] ::
        data[position + 2] :: data[position + 3] :: data[position + 4] ::
        data.drop (position + 5) := by
      rw [List.drop_eq_getElem_cons (show position < data.length by omega),
        List.drop_eq_getElem_cons (show position + 1 < data.length by omega),
        List.drop_eq_getElem_cons (show position + 1 + 1 < data.length by omega),
        List.drop_eq_getElem_cons (show position + 1 + 1 + 1 < data.length by omega),
        List.drop_eq_getElem_cons (show position + 1 + 1 + 1 + 1 < data.length by omega)]
    rw [split, Bcj.transformFrom] at same
    by_cases branch : data[position] = 0xE8 ∨ data[position] = 0xE9
    · rw [if_pos branch] at same ⊢
      rw [byteAfter_of_lt addressable (by omega), Result.ok_bind,
        byteAfter_of_lt addressable (by omega), Result.ok_bind,
        byteAfter_of_lt addressable (by omega), Result.ok_bind,
        byteAfter_of_lt addressable (by omega), Result.ok_bind,
        add_of_lt (by omega), Result.ok_bind, add_of_lt (by omega), Result.ok_bind]
      obtain ⟨w, x, y, z, rewritten⟩ := Bcj.rewriteOperand_four encode position
        [data[position + 1], data[position + 2], data[position + 3], data[position + 4]]
      rw [rewritten] at same ⊢
      have fits : [w, x, y, z].length = position + 5 - (position + 1) := by
        change 4 = position + 5 - (position + 1)
        omega
      rw [copyFrom_of_le (by omega) room fits, Result.ok_bind]
      have front : (data.take (position + 1)).length = position + 1 :=
        List.length_take_of_le (by omega)
      refine .inl ⟨_, rfl, ⟨?_, room, ?_⟩, by dsimp only; omega⟩
      · simp only [List.length_append, List.length_cons, List.length_nil, List.length_drop, front]
        omega
      · dsimp only
        have whole : data.take (position + 1) ++ ([w, x, y, z] ++ data.drop (position + 5)) =
            (data.take (position + 1) ++ [w, x, y, z]) ++ data.drop (position + 5) :=
          (List.append_assoc ..).symm
        have length : (data.take (position + 1) ++ [w, x, y, z]).length = position + 5 := by
          rw [List.length_append, front]
          rfl
        rw [whole, List.take_left' length, List.drop_left' length, ← same,
          List.take_succ_eq_append_getElem (show position < data.length by omega)]
        simp only [List.append_assoc, List.cons_append, List.nil_append]
    · rw [if_neg branch] at same ⊢
      rw [add_of_lt (by omega), Result.ok_bind]
      refine .inl ⟨_, rfl, ⟨rfl, by dsimp only; omega, ?_⟩, by dsimp only; omega⟩
      dsimp only
      rw [← same, List.take_succ_eq_append_getElem (show position < data.length by omega),
        List.append_assoc, List.singleton_append,
        List.drop_eq_getElem_cons (show position + 1 < data.length by omega),
        List.drop_eq_getElem_cons (show position + 1 + 1 < data.length by omega),
        List.drop_eq_getElem_cons (show position + 1 + 1 + 1 < data.length by omega),
        List.drop_eq_getElem_cons (show position + 1 + 1 + 1 + 1 < data.length by omega)]
  · rw [if_neg fun both => room both.2]
    refine .inr ⟨data, rfl, same.symm.trans ?_⟩
    rw [transformFrom_of_short encode position (by rw [List.length_drop]; omega),
      List.take_append_drop]

/-- **Restoring branches meets no fault.** -/
theorem decodeX86_eq {data : Bytes} (addressable : data.length < 2 ^ 63) :
    decodeX86 data = .ok (Bcj.decodeX86 data) := by
  refine @loop_eq AetherError _ _ (transformRound false)
    (TransformSpec false data.length (Bcj.decodeX86 data)) (fun _ => .ok (Bcj.decodeX86 data))
    (fun state => data.length - state.2) ?_ (data.length + 1) (data, 0)
    ⟨rfl, Nat.zero_le _, rfl⟩ (Nat.lt_succ_self _)
  intro state spec
  rcases transformRound_spec addressable state spec with ⟨later, ran, kept, less⟩ |
    ⟨done, ran, ends⟩
  · exact .inl ⟨later, ran, kept, less, rfl⟩
  · exact .inr (.inl ⟨done, ran, congrArg Except.ok ends⟩)

end Machine

end AetherArch
