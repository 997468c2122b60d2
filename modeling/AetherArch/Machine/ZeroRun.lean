import AetherArch.Coding.ZeroRun
import AetherArch.Library.Checked

/-! # Zero-run decoding by machine steps

The two run-length decoders as loops over a cursor, with every index and every sum of
lengths checked. They meet no fault and compute what the recursive decoders compute.
-/

namespace AetherArch

open Checked

namespace Machine

/-- One round of reading the digits of a run: the cursor moves past one digit. -/
def readDigit (rleData : Bytes) (state : Nat × RunDigits) :
    Run AetherError (Round (Nat × RunDigits) (Nat × RunDigits)) :=
  if state.1 < rleData.length then do
    let symbol ← index rleData state.1
    if symbol ≤ 1 then do
      let i ← add 64 state.1 1
      .ok (.next (i, state.2.read symbol))
    else .ok (.done state)
  else .ok (.done state)

/-- Read the digits of the run at a cursor. -/
def readDigits (rleData : Bytes) (i : Nat) : Run AetherError (Nat × RunDigits) :=
  loop (readDigit rleData) (rleData.length + 1) (i, .new)

/-- Decode the escape at a cursor. -/
def readEscape (rleData : Bytes) (expectedSize i : Nat) (output : Bytes) :
    Run AetherError (Round (Nat × Bytes) Bytes) := do
  let next ← add 64 i 1
  if next ≥ rleData.length then
    refuse (.decompression "RLE escaped decode: truncated escape sequence at end of stream")
  else if output.length ≥ expectedSize then
    refuse (.decompression
      (s!"RLE escaped decode: symbol at position {i} would exceed "
        ++ s!"expected size {expectedSize}"))
  else do
    let suffix ← index rleData next
    let after ← add 64 i 2
    if suffix = 2 then .ok (.next (after, output ++ [254]))
    else if suffix = 3 then .ok (.next (after, output ++ [255]))
    else
      refuse (.decompression
        (s!"RLE escaped decode: invalid escape suffix {suffix} at position "
          ++ s!"{next}"))

/-- One round of a decoder: a run, an escape or a shifted value. -/
def rleRound (coding : RunCoding) (rleData : Bytes) (expectedSize : Nat) (state : Nat × Bytes) :
    Run AetherError (Round (Nat × Bytes) Bytes) :=
  let (i, output) := state
  if i < rleData.length then do
    let symbol ← index rleData i
    if symbol ≤ 1 then do
      let (i, digits) ← readDigits rleData i
      let remaining := expectedSize - output.length
      if digits.runLen > remaining then
        refuse (.decompression
          s!"RLE zero-run length {digits.runLen} exceeds remaining output capacity {remaining}")
      else do
        let size ← add 64 output.length digits.runLen
        .ok (.next (i, output ++ List.replicate (size - output.length) 0))
    else if coding = .escaped ∧ symbol = 255 then readEscape rleData expectedSize i output
    else if output.length ≥ expectedSize then
      refuse (.decompression
        (s!"{coding.label}: non-zero symbol at position {i} would exceed "
          ++ s!"expected size {expectedSize}"))
    else do
      let value ← sub symbol.toNat 1
      let next ← add 64 i 1
      .ok (.next (next, output ++ [UInt8.ofNat value]))
  else .ok (.done output)

/-- Decode a zero-run coded stream of a known decoded size. -/
def decodeRunsExact (coding : RunCoding) (rleData : Bytes) (expectedSize : Nat) :
    Run AetherError Bytes := do
  let output ← loop (rleRound coding rleData expectedSize) (rleData.length + 1) (0, [])
  if output.length ≠ expectedSize then
    refuse (.decompression
      s!"{coding.label} size mismatch: got {output.length}, expected {expectedSize}")
  else .ok output

/-- Decode bijective base-2 zero runs back to the move-to-front stream. -/
def rleDecode (rleData : Bytes) (expectedSize : Nat) : Run AetherError Bytes :=
  decodeRunsExact .standard rleData expectedSize

/-- Decode zero runs with escapes back to the move-to-front stream. -/
def rleDecodeEscaped (rleData : Bytes) (expectedSize : Nat) : Run AetherError Bytes :=
  decodeRunsExact .escaped rleData expectedSize

/-! ## No fault -/

/-- A pending run is written where no further digit follows. -/
theorem decodeRuns_of_ended (coding : RunCoding) (expectedSize position : Nat) (output : Bytes)
    (digits : RunDigits) {rest : Bytes} (ended : ∀ symbol ∈ rest.head?, ¬symbol ≤ 1) :
    decodeRuns coding expectedSize position output (some digits) rest =
      writeRun expectedSize output (some digits) >>= fun output =>
        decodeRuns coding expectedSize position output none rest := by
  cases rest with
  | nil =>
      rw [decodeRuns]
      cases writeRun expectedSize output (some digits) with
      | error error => rfl
      | ok output => rfl
  | cons symbol rest =>
      have literal : ¬symbol ≤ 1 := ended symbol rfl
      rw [decodeRuns, if_neg literal]
      cases writeRun expectedSize output (some digits) with
      | error error => rfl
      | ok output => rw [Result.ok_bind, decodeRuns, if_neg literal, writeRun]

variable {coding : RunCoding} {rleData : Bytes} {expectedSize : Nat}

/-- Reading the digits of a run moves the cursor past them. -/
theorem readDigits_ends (addressable : rleData.length < 2 ^ 63) (coding : RunCoding)
    (expectedSize : Nat) (output : Bytes) {i : Nat} (inside : i < rleData.length)
    (digit : rleData[i] ≤ 1) :
    ∃ after digits, readDigits rleData i = .ok (after, digits) ∧ i < after ∧
      (∀ symbol ∈ (rleData.drop after).head?, ¬symbol ≤ 1) ∧
      decodeRuns coding expectedSize i output none (rleData.drop i) =
        decodeRuns coding expectedSize after output (some digits) (rleData.drop after) := by
  have started : decodeRuns coding expectedSize i output none (rleData.drop i) =
      decodeRuns coding expectedSize i output (some .new) (rleData.drop i) := by
    rw [List.drop_eq_getElem_cons inside, decodeRuns, decodeRuns, if_pos digit, if_pos digit]
    rfl
  obtain ⟨result, ran, ends⟩ := @loop_ends AetherError _ _ (readDigit rleData)
    (fun state => i ≤ state.1 ∧
      decodeRuns coding expectedSize i output none (rleData.drop i) =
        decodeRuns coding expectedSize state.1 output (some state.2) (rleData.drop state.1))
    (fun result => ∃ after digits, result = .ok (after, digits) ∧ i < after ∧
      (∀ symbol ∈ (rleData.drop after).head?, ¬symbol ≤ 1) ∧
      decodeRuns coding expectedSize i output none (rleData.drop i) =
        decodeRuns coding expectedSize after output (some digits) (rleData.drop after))
    (fun state => rleData.length - state.1) (by
      rintro ⟨j, digits⟩ ⟨later, same⟩
      unfold readDigit
      dsimp only at later same ⊢
      by_cases more : j < rleData.length
      · rw [if_pos more, index_of_lt more, Result.ok_bind]
        by_cases small : rleData[j] ≤ 1
        · refine .inl ⟨(j + 1, digits.read rleData[j]), ?_, ⟨by omega, ?_⟩, by dsimp only; omega⟩
          · rw [if_pos small, add_of_lt (by omega), Result.ok_bind]
          · rw [same, List.drop_eq_getElem_cons more, decodeRuns, if_pos small]
            rfl
        · refine .inr (.inl ⟨(j, digits), if_neg small, j, digits, rfl, ?_, ?_, same⟩)
          · rcases Nat.eq_or_lt_of_le later with rfl | less
            · exact absurd digit small
            · exact less
          · rw [List.drop_eq_getElem_cons more]
            rintro symbol ⟨⟩
            exact small
      · refine .inr (.inl ⟨(j, digits), if_neg more, j, digits, rfl, by omega, ?_, same⟩)
        rw [List.drop_eq_nil_of_le (not_lt.mp more)]
        rintro symbol ⟨⟩)
    (rleData.length + 1) (i, .new) ⟨le_rfl, started⟩ (by dsimp only; omega)
  obtain ⟨after, digits, rfl, ends⟩ := ends
  exact ⟨after, digits, ran, ends⟩

/-- What one round leaves to be decoded, of a state whose output fits. -/
theorem rleRound_spec (addressable : rleData.length < 2 ^ 63) (claimed : expectedSize < 2 ^ 63)
    (state : Nat × Bytes) (fits : state.2.length ≤ expectedSize) :
    (∃ later, rleRound coding rleData expectedSize state = .ok (.next later) ∧
      later.2.length ≤ expectedSize ∧ rleData.length - later.1 < rleData.length - state.1 ∧
      decodeRuns coding expectedSize later.1 later.2 none (rleData.drop later.1) =
        decodeRuns coding expectedSize state.1 state.2 none (rleData.drop state.1)) ∨
    (∃ output, rleRound coding rleData expectedSize state = .ok (.done output) ∧
      decodeRuns coding expectedSize state.1 state.2 none (rleData.drop state.1) = .ok output) ∨
    ∃ error, rleRound coding rleData expectedSize state = refuse error ∧
      decodeRuns coding expectedSize state.1 state.2 none (rleData.drop state.1) =
        .error error := by
  obtain ⟨i, output⟩ := state
  dsimp only at fits ⊢
  unfold rleRound
  dsimp only
  by_cases inside : i < rleData.length
  · rw [if_pos inside, index_of_lt inside, Result.ok_bind]
    by_cases digit : rleData[i] ≤ 1
    · obtain ⟨after, digits, ran, moved, ended, same⟩ :=
        readDigits_ends addressable coding expectedSize output inside digit
      rw [if_pos digit, ran, Result.ok_bind, same, decodeRuns_of_ended _ _ _ _ _ ended]
      dsimp only [writeRun]
      by_cases long : digits.runLen > expectedSize - output.length
      · rw [if_pos long, if_pos long]
        exact .inr (.inr ⟨_, rfl, rfl⟩)
      · rw [if_neg long, if_neg long, add_of_lt (by omega), Result.ok_bind,
          Nat.add_sub_cancel_left]
        refine .inl ⟨_, rfl, ?_, by dsimp only; omega, rfl⟩
        rw [List.length_append, List.length_replicate]
        omega
    · rw [if_neg digit, List.drop_eq_getElem_cons inside, decodeRuns, if_neg digit, writeRun]
      by_cases escape : coding = .escaped ∧ rleData[i] = 255
      · rw [if_pos escape]
        unfold readEscape
        dsimp only
        rw [add_of_lt (by omega), Result.ok_bind, if_pos escape]
        by_cases last : i + 1 ≥ rleData.length
        · rw [if_pos last, List.drop_eq_nil_of_le last]
          exact .inr (.inr ⟨_, rfl, rfl⟩)
        · rw [if_neg last, List.drop_eq_getElem_cons (not_le.mp last)]
          dsimp only
          by_cases full : output.length ≥ expectedSize
          · rw [if_pos full, if_pos full]
            exact .inr (.inr ⟨_, rfl, rfl⟩)
          · have grown (value : UInt8) : (output ++ [value]).length ≤ expectedSize := by
              rw [List.length_append, List.length_singleton]
              omega
            rw [if_neg full, if_neg full, index_of_lt (not_le.mp last), Result.ok_bind,
              add_of_lt (by omega), Result.ok_bind]
            by_cases two : rleData[i + 1] = 2
            · rw [if_pos two, if_pos two]
              exact .inl ⟨_, rfl, grown _, by dsimp only; omega, rfl⟩
            · rw [if_neg two, if_neg two]
              by_cases three : rleData[i + 1] = 3
              · rw [if_pos three, if_pos three]
                exact .inl ⟨_, rfl, grown _, by dsimp only; omega, rfl⟩
              · rw [if_neg three, if_neg three]
                exact .inr (.inr ⟨_, rfl, rfl⟩)
      · rw [if_neg escape]
        dsimp only
        rw [if_neg escape]
        by_cases full : output.length ≥ expectedSize
        · rw [if_pos full, if_pos full]
          exact .inr (.inr ⟨_, rfl, rfl⟩)
        · have positive : 1 ≤ rleData[i].toNat := by
            rw [UInt8.le_iff_toNat_le] at digit
            change ¬rleData[i].toNat ≤ 1 at digit
            omega
          have shifted : UInt8.ofNat (rleData[i].toNat - 1) = rleData[i] - 1 := by
            apply UInt8.toNat_inj.mp
            have one : (1 : UInt8) ≤ rleData[i] := UInt8.le_iff_toNat_le.mpr positive
            rw [UInt8.toNat_sub_of_le _ _ one,
              UInt8.toNat_ofNat_of_lt' (lt_of_le_of_lt (Nat.sub_le _ _) rleData[i].toNat_lt)]
            rfl
          rw [if_neg full, if_neg full, sub_of_le positive, Result.ok_bind,
            add_of_lt (by omega), Result.ok_bind, shifted]
          refine .inl ⟨_, rfl, ?_, by dsimp only; omega, rfl⟩
          rw [List.length_append, List.length_singleton]
          omega
  · rw [if_neg inside, List.drop_eq_nil_of_le (not_lt.mp inside)]
    exact .inr (.inl ⟨_, rfl, rfl⟩)

/-- **The run-length decoders meet no fault.** -/
theorem decodeRunsExact_eq (addressable : rleData.length < 2 ^ 63)
    (claimed : expectedSize < 2 ^ 63) :
    decodeRunsExact coding rleData expectedSize =
      ofResult (AetherArch.decodeRunsExact coding rleData expectedSize) := by
  have ran : loop (rleRound coding rleData expectedSize) (rleData.length + 1) (0, []) =
      ofResult (decodeRuns coding expectedSize 0 [] none rleData) :=
    @loop_eq _ _ _ _ (fun state => state.2.length ≤ expectedSize) (fun state =>
        decodeRuns coding expectedSize state.1 state.2 none (rleData.drop state.1))
      (fun state => rleData.length - state.1) (rleRound_spec addressable claimed)
      (rleData.length + 1) (0, []) (Nat.zero_le expectedSize) (Nat.lt_succ_self _)
  rw [decodeRunsExact, ran, AetherArch.decodeRunsExact]
  cases decodeRuns coding expectedSize 0 [] none rleData with
  | error error => rfl
  | ok output =>
      rw [ofResult_ok, Result.ok_bind]
      dsimp only
      split
      · rfl
      · rfl

end Machine

end AetherArch
