import AetherArch.Coding.Lz77
import AetherArch.Library.Checked

/-! # Match decoding by machine steps

The decoder of literals and matches as a loop over a cursor, with every index, slice, length
and offset checked. It meets no fault on any bytes and any claimed size.
-/

namespace AetherArch

open Checked Lz77

namespace Machine

/-- One round of a length extension: the length so far and the cursor. -/
def extensionRound (what : String) (encoded : Bytes) (remaining : Nat) (state : Nat × Nat) :
    Run AetherError (Round (Nat × Nat) (Nat × Nat)) :=
  let (len, pos) := state
  if pos ≥ encoded.length then
    refuse (.decompression s!"LZ77: unexpected end in {what} ext")
  else do
    let ext ← index encoded pos
    let pos ← add 64 pos 1
    let extended ← add 64 len ext.toNat
    if extended > remaining then
      refuse (.decompression
        s!"LZ77: {what} {extended} exceeds remaining output capacity {remaining}")
    else if ext < 255 then .ok (.done (extended, pos))
    else .ok (.next (extended, pos))

/-- Decode a length from its nibble, over a base, and its extension when the nibble is full. -/
def readLength (what : String) (encoded : Bytes) (remaining base nibble pos : Nat) :
    Run AetherError (Nat × Nat) := do
  let len ← add 64 nibble base
  if nibble = 15 then loop (extensionRound what encoded remaining) (encoded.length + 1) (len, pos)
  else .ok (len, pos)

/-- One round of an overlapping copy: the output so far and what remains to be copied. -/
def overlapRound (offset : Nat) (state : Bytes × Nat) :
    Run AetherError (Round (Bytes × Nat) Bytes) :=
  let (output, remaining) := state
  if 0 < remaining then do
    let chunk := min remaining offset
    let start ← sub output.length offset
    let stop ← add 64 start chunk
    let piece ← slice output start stop
    let remaining ← sub remaining chunk
    .ok (.next (output ++ piece, remaining))
  else .ok (.done output)

/-- Copy a match from earlier output. -/
def copyMatch (offset matchLen : Nat) (output : Bytes) : Run AetherError Bytes := do
  let start ← sub output.length offset
  if offset ≥ matchLen then do
    let stop ← add 64 start matchLen
    let piece ← slice output start stop
    .ok (output ++ piece)
  else loop (overlapRound offset) (matchLen + 1) (output, matchLen)

/-- Decode the offset and the length of a match, and copy it. -/
def readMatch (encoded : Bytes) (originalSize : Nat) (token : UInt8) (output : Bytes)
    (pos : Nat) : Run AetherError (Bytes × Nat) := do
  let offsetEnd ← add 64 pos 2
  if offsetEnd > encoded.length then refuse (.decompression "LZ77: missing offset bytes")
  else do
    let low ← index encoded pos
    let second ← add 64 pos 1
    let high ← index encoded second
    let offset := low.toNat ||| high.toNat <<< 8
    if offset = 0 ∨ offset > output.length then
      refuse (.decompression s!"LZ77: invalid offset {offset} at output pos {output.length}")
    else do
      let (matchLen, pos) ←
        readLength "match_len" encoded (originalSize - output.length) MIN_MATCH
          (token.toNat &&& 0x0F) offsetEnd
      let output ← copyMatch offset matchLen output
      .ok (output, pos)

/-- One round of the decoder: the output so far and the cursor, past one sequence. -/
def lz77Round (encoded : Bytes) (originalSize : Nat) (state : Bytes × Nat) :
    Run AetherError (Round (Bytes × Nat) Bytes) :=
  let (output, pos) := state
  if output.length < originalSize then
    if pos ≥ encoded.length then refuse (.decompression "LZ77: unexpected end of data")
    else do
      let token ← index encoded pos
      let pos ← add 64 pos 1
      let (litLen, pos) ←
        readLength "lit_len" encoded (originalSize - output.length) 0 (token.toNat >>> 4) pos
      let stop ← add 64 pos litLen
      if stop > encoded.length then refuse (.decompression "LZ77: not enough literal data")
      else do
        let literals ← slice encoded pos stop
        let output := output ++ literals
        if output.length ≥ originalSize then .ok (.done output)
        else do
          let (output, pos) ← readMatch encoded originalSize token output stop
          .ok (.next (output, pos))
  else .ok (.done output)

/-- Decode data produced by the encoder. -/
def lz77Decode (encoded : Bytes) (expectedSize : Nat) : Run AetherError Bytes :=
  if encoded.length < 4 then refuse (.decompression "LZ77 data too short")
  else do
    let sizeBytes ← slice encoded 0 4
    let originalSize := Numeral.littleEndian sizeBytes
    if originalSize ≠ expectedSize then
      refuse (.decompression
        s!"LZ77 size mismatch: header says {originalSize}, expected {expectedSize}")
    else if originalSize > MAX_LZ77_INPUT_SIZE then
      refuse (.decompression
        s!"LZ77 decode size {originalSize} exceeds safety limit {MAX_LZ77_INPUT_SIZE}")
    else do
      let output ← loop (lz77Round encoded originalSize) (encoded.length + 1) ([], 4)
      if output.length ≠ originalSize then
        refuse (.decompression s!"LZ77: output size {output.length}, expected {originalSize}")
      else .ok output

/-! ## No fault -/

/-- A run and the result of a recursive reader on the bytes from a cursor on: both fail alike,
or both read the same value and leave the same bytes. -/
def Follows {α : Type} (encoded : Bytes) (pos : Nat) (run : Run AetherError (α × Nat))
    (result : Result (α × Bytes)) : Prop :=
  (∃ value after, run = .ok (value, after) ∧ pos ≤ after ∧ after ≤ encoded.length ∧
    result = .ok (value, encoded.drop after)) ∨
  ∃ error, run = refuse error ∧ result = .error error

variable {encoded : Bytes}

/-- Reading a length follows the plain reader. -/
theorem readLength_follows (addressable : encoded.length < 2 ^ 63) (what : String)
    {remaining base nibble pos : Nat} (capacity : remaining < 2 ^ 62) (baseLe : base ≤ MIN_MATCH)
    (nibbleLe : nibble ≤ 15) (inside : pos ≤ encoded.length) :
    Follows encoded pos (readLength what encoded remaining base nibble pos)
      (Lz77.readLength what remaining base nibble (encoded.drop pos)) := by
  have small : MIN_MATCH = 3 := rfl
  rw [readLength, Lz77.readLength, add_of_lt (by omega), Result.ok_bind]
  by_cases full : nibble = 15
  · rw [if_pos full, if_pos full]
    obtain ⟨result, ran, ends⟩ := @loop_ends AetherError _ _
      (extensionRound what encoded remaining)
      (fun state => pos ≤ state.2 ∧ state.2 ≤ encoded.length ∧ state.1 < 2 ^ 62 ∧
        readExtension what remaining state.1 (encoded.drop state.2) =
          readExtension what remaining (nibble + base) (encoded.drop pos))
      (fun result => Follows encoded pos (ofResult result)
        (readExtension what remaining (nibble + base) (encoded.drop pos)))
      (fun state => encoded.length - state.2) (by
        rintro ⟨len, cursor⟩ ⟨later, within, lenLt, same⟩
        unfold extensionRound
        dsimp only at later within lenLt same ⊢
        by_cases ended : cursor ≥ encoded.length
        · rw [if_pos ended]
          rw [List.drop_eq_nil_of_le ended, readExtension] at same
          exact .inr (.inr ⟨_, rfl, .inr ⟨_, rfl, same.symm⟩⟩)
        · have more := not_le.mp ended
          have byteLt : encoded[cursor].toNat < 256 := encoded[cursor].toNat_lt
          rw [List.drop_eq_getElem_cons more, readExtension] at same
          rw [if_neg ended, index_of_lt more, Result.ok_bind, add_of_lt (by omega), Result.ok_bind,
            add_of_lt (by omega), Result.ok_bind]
          by_cases exceeds : len + encoded[cursor].toNat > remaining
          · rw [if_pos exceeds] at same ⊢
            exact .inr (.inr ⟨_, rfl, .inr ⟨_, rfl, same.symm⟩⟩)
          · rw [if_neg exceeds] at same ⊢
            by_cases last : encoded[cursor] < 255
            · rw [if_pos last] at same ⊢
              exact .inr (.inl ⟨_, rfl, .inl ⟨_, _, rfl, by omega, by omega, same.symm⟩⟩)
            · rw [if_neg last] at same ⊢
              exact .inl ⟨_, rfl, ⟨by dsimp only; omega, by dsimp only; omega,
                by dsimp only; omega, same⟩, by dsimp only; omega⟩)
      (encoded.length + 1) (nibble + base, pos) ⟨le_rfl, inside, by dsimp only; omega, rfl⟩
      (by dsimp only; omega)
    rw [ran]
    exact ends
  · rw [if_neg full, if_neg full]
    exact .inl ⟨_, _, rfl, le_rfl, inside, rfl⟩

/-- Copying an overlap runs to its end. -/
theorem copyOverlapping_ends {offset : Nat} (positive : 0 < offset) {output : Bytes}
    {matchLen : Nat} (inside : offset ≤ output.length)
    (addressable : output.length + matchLen < 2 ^ 64) :
    loop (overlapRound offset) (matchLen + 1) (output, matchLen) =
      .ok (Lz77.copyOverlapping offset output matchLen) := by
  refine @loop_eq AetherError _ _ (overlapRound offset)
    (fun state => offset ≤ state.1.length ∧ state.1.length + state.2 < 2 ^ 64)
    (fun state => .ok (Lz77.copyOverlapping offset state.1 state.2)) (fun state => state.2) ?_
    (matchLen + 1) (output, matchLen) ⟨inside, addressable⟩ (Nat.lt_succ_self matchLen)
  rintro ⟨output, remaining⟩ ⟨inside, addressable⟩
  unfold overlapRound
  dsimp only at inside addressable ⊢
  rw [Lz77.copyOverlapping]
  by_cases more : 0 < remaining
  · have chunkLe : min remaining offset ≤ remaining := Nat.min_le_left ..
    have chunkSmall : min remaining offset ≤ offset := Nat.min_le_right ..
    have chunkPos : 0 < min remaining offset := lt_min more positive
    rw [if_pos more, if_pos ⟨more, positive⟩, sub_of_le inside, Result.ok_bind,
      add_of_lt (by omega), Result.ok_bind, slice_of_le (by omega) (by omega), Result.ok_bind,
      sub_of_le chunkLe, Result.ok_bind, Nat.add_sub_cancel_left]
    refine .inl ⟨_, rfl, ⟨?_, ?_⟩, by dsimp only; omega, rfl⟩
    · rw [List.length_append]
      omega
    · rw [List.length_append, List.length_take, List.length_drop]
      omega
  · rw [if_neg more, if_neg fun both => more both.1]
    exact .inr (.inl ⟨_, rfl, rfl⟩)

/-- Copying a match does not fault. -/
theorem copyMatch_eq {offset matchLen : Nat} {output : Bytes} (positive : 0 < offset)
    (inside : offset ≤ output.length) (addressable : output.length + matchLen < 2 ^ 64) :
    copyMatch offset matchLen output = .ok (Lz77.copyMatch offset matchLen output) := by
  rw [copyMatch, Lz77.copyMatch, sub_of_le inside, Result.ok_bind]
  by_cases apart : offset ≥ matchLen
  · rw [if_pos apart, if_pos apart, add_of_lt (by omega), Result.ok_bind,
      slice_of_le (by omega) (by omega), Result.ok_bind, Nat.add_sub_cancel_left]
  · rw [if_neg apart, if_neg apart, copyOverlapping_ends positive inside addressable]

/-- A length stays within what remains. -/
theorem readExtension_le {what : String} {remaining start len : Nat} {bytes rest : Bytes}
    (read : readExtension what remaining start bytes = .ok (len, rest)) : len ≤ remaining := by
  induction bytes generalizing start with
  | nil => cases read
  | cons ext bytes recurse =>
      rw [readExtension] at read
      by_cases exceeds : start + ext.toNat > remaining
      · rw [if_pos exceeds] at read
        cases read
      · rw [if_neg exceeds] at read
        by_cases last : ext < 255
        · rw [if_pos last] at read
          cases read
          exact not_lt.mp exceeds
        · rw [if_neg last] at read
          exact recurse read

/-- A length read is what its nibble holds, or within the capacity. -/
theorem readLength_le {what : String} {remaining base nibble len : Nat} {bytes rest : Bytes}
    (read : Lz77.readLength what remaining base nibble bytes = .ok (len, rest)) :
    len ≤ max (nibble + base) remaining := by
  rw [Lz77.readLength] at read
  split at read
  · exact (readExtension_le read).trans (Nat.le_max_right _ _)
  · cases read
    exact Nat.le_max_left _ _

/-- The match of a sequence, as the recursive decoder reads it after the literals. -/
def decodeMatch (originalSize : Nat) (token : UInt8) (output : Bytes) : Bytes →
    Result (Bytes × Bytes)
  | low :: high :: rest =>
      let offset := low.toNat ||| high.toNat <<< 8
      if offset = 0 ∨ offset > output.length then
        .error (.decompression s!"LZ77: invalid offset {offset} at output pos {output.length}")
      else do
        let (matchLen, rest) ←
          Lz77.readLength "match_len" (originalSize - output.length) MIN_MATCH
            (token.toNat &&& 0x0F) rest
        .ok (Lz77.copyMatch offset matchLen output, rest)
  | _ => .error (.decompression "LZ77: missing offset bytes")

/-- A sequence is a length, its literals and a match. -/
theorem decodeSequence_eq (originalSize : Nat) (token : UInt8) (output bytes : Bytes) :
    decodeSequence originalSize token output bytes =
      Lz77.readLength "lit_len" (originalSize - output.length) 0 (token.toNat >>> 4) bytes >>=
        fun (litLen, rest) =>
          if litLen > rest.length then
            .error (.decompression "LZ77: not enough literal data")
          else if (output ++ rest.take litLen).length ≥ originalSize then
            .ok (output ++ rest.take litLen, rest.drop litLen)
          else decodeMatch originalSize token (output ++ rest.take litLen) (rest.drop litLen) :=
  rfl

/-- A match is read and copied as the recursive decoder does. -/
theorem readMatch_follows (addressable : encoded.length < 2 ^ 63) {originalSize : Nat}
    (claimed : originalSize ≤ MAX_LZ77_INPUT_SIZE) (token : UInt8) {output : Bytes} {pos : Nat}
    (unfinished : output.length < originalSize) (inside : pos ≤ encoded.length) :
    Follows encoded pos (readMatch encoded originalSize token output pos)
      (decodeMatch originalSize token output (encoded.drop pos)) := by
  have limit : MAX_LZ77_INPUT_SIZE = 64 * 1024 * 1024 := rfl
  have small : MIN_MATCH = 3 := rfl
  rw [readMatch, add_of_lt (by omega), Result.ok_bind]
  by_cases missing : pos + 2 > encoded.length
  · have few : (encoded.drop pos).length < 2 := by
      rw [List.length_drop]
      omega
    rw [if_pos missing]
    refine .inr ⟨_, rfl, ?_⟩
    match encoded.drop pos, few with
    | [], _ => rfl
    | [_], _ => rfl
  · have lowInside : pos < encoded.length := by omega
    have highInside : pos + 1 < encoded.length := by omega
    rw [if_neg missing, index_of_lt lowInside, Result.ok_bind, add_of_lt (by omega),
      Result.ok_bind, index_of_lt highInside, Result.ok_bind,
      List.drop_eq_getElem_cons lowInside, List.drop_eq_getElem_cons highInside, decodeMatch]
    dsimp only
    generalize encoded[pos].toNat ||| encoded[pos + 1].toNat <<< 8 = offset
    by_cases invalid : offset = 0 ∨ offset > output.length
    · rw [if_pos invalid, if_pos invalid]
      exact .inr ⟨_, rfl, rfl⟩
    · have valid := not_or.mp invalid
      rw [if_neg invalid, if_neg invalid]
      rcases readLength_follows addressable "match_len"
          (show originalSize - output.length < 2 ^ 62 by omega) le_rfl
          (show token.toNat &&& 0x0F ≤ 15 from Nat.and_le_right)
          (show pos + 2 ≤ encoded.length by omega) with
        ⟨matchLen, after, ran, ordered, within, read⟩ | ⟨error, ran, read⟩
      · have bounded := readLength_le read
        have nibbleLe : token.toNat &&& 0x0F ≤ 15 := Nat.and_le_right
        rw [ran, Result.ok_bind]
        dsimp only
        rw [copyMatch_eq (Nat.pos_of_ne_zero valid.1) (not_lt.mp valid.2) (by omega),
          Result.ok_bind]
        refine .inl ⟨_, after, rfl, by omega, within, ?_⟩
        exact Result.bind_eq_ok.mpr ⟨_, read, rfl⟩
      · rw [ran]
        refine .inr ⟨error, rfl, ?_⟩
        change (Lz77.readLength _ _ _ _ (encoded.drop (pos + 2)) >>= _) = _
        rw [read]
        rfl

/-- What one round leaves of the sequences from a cursor on. -/
def RoundSpec (encoded : Bytes) (originalSize : Nat) (target : Result Bytes)
    (state : Bytes × Nat) : Prop :=
  state.2 ≤ encoded.length ∧ ∃ fuel, encoded.length - state.2 ≤ fuel ∧
    decodeLoop originalSize fuel state.1 (encoded.drop state.2) = target

/-- A full output ends the loop. -/
theorem decodeLoop_of_full {originalSize fuel : Nat} {output rest : Bytes}
    (full : ¬output.length < originalSize) :
    decodeLoop originalSize fuel output rest = .ok output := by
  cases fuel with
  | zero => exact if_neg full
  | succ fuel => exact if_neg full

/-- An input that ends early is refused. -/
theorem decodeLoop_of_empty {originalSize fuel : Nat} {output : Bytes}
    (unfinished : output.length < originalSize) :
    decodeLoop originalSize fuel output [] =
      .error (.decompression "LZ77: unexpected end of data") := by
  cases fuel with
  | zero => exact if_pos unfinished
  | succ fuel => exact if_pos unfinished

/-- **One round decodes one sequence.** -/
theorem lz77Round_spec (addressable : encoded.length < 2 ^ 63) {originalSize : Nat}
    (claimed : originalSize ≤ MAX_LZ77_INPUT_SIZE) {target : Result Bytes}
    (state : Bytes × Nat) (spec : RoundSpec encoded originalSize target state) :
    (∃ later, lz77Round encoded originalSize state = .ok (.next later) ∧
      RoundSpec encoded originalSize target later ∧
      encoded.length - later.2 < encoded.length - state.2) ∨
    (∃ output, lz77Round encoded originalSize state = .ok (.done output) ∧
      target = .ok output) ∨
    ∃ error, lz77Round encoded originalSize state = refuse error ∧ target = .error error := by
  obtain ⟨output, pos⟩ := state
  obtain ⟨inside, fuel, enough, same⟩ := spec
  have limit : MAX_LZ77_INPUT_SIZE = 64 * 1024 * 1024 := rfl
  unfold lz77Round
  dsimp only at inside enough same ⊢
  by_cases unfinished : output.length < originalSize
  · rw [if_pos unfinished]
    by_cases ended : pos ≥ encoded.length
    · rw [if_pos ended]
      rw [List.drop_eq_nil_of_le ended, decodeLoop_of_empty unfinished] at same
      exact .inr (.inr ⟨_, rfl, same.symm⟩)
    · have more := not_le.mp ended
      obtain ⟨fuel, rfl⟩ : ∃ rest, fuel = rest + 1 := ⟨fuel - 1, by omega⟩
      rw [List.drop_eq_getElem_cons more, decodeLoop, if_pos unfinished,
        decodeSequence_eq] at same
      rw [if_neg ended, index_of_lt more, Result.ok_bind, add_of_lt (by omega), Result.ok_bind]
      generalize encoded[pos] = token at same ⊢
      have tokenLt : token.toNat < 256 := token.toNat_lt
      have nibbleLe : token.toNat >>> 4 ≤ 15 := by
        rw [Nat.shiftRight_eq_div_pow]
        omega
      rcases readLength_follows addressable "lit_len"
          (show originalSize - output.length < 2 ^ 62 by omega) (Nat.zero_le _) nibbleLe
          (Nat.succ_le_of_lt more) with
        ⟨litLen, after, ran, ordered, within, read⟩ | ⟨error, ran, read⟩
      · have bounded := readLength_le read
        rw [read, Result.ok_bind] at same
        dsimp only at same
        rw [List.length_drop, List.drop_drop] at same
        rw [ran, Result.ok_bind]
        dsimp only
        rw [add_of_lt (by omega), Result.ok_bind]
        by_cases short : after + litLen > encoded.length
        · rw [if_pos (show litLen > encoded.length - after by omega)] at same
          rw [if_pos short]
          exact .inr (.inr ⟨_, rfl, same.symm⟩)
        · have enoughBytes := not_lt.mp short
          rw [if_neg (show ¬litLen > encoded.length - after by omega)] at same
          rw [if_neg short, slice_of_le (Nat.le_add_right _ _) enoughBytes, Result.ok_bind,
            Nat.add_sub_cancel_left]
          generalize output ++ (encoded.drop after).take litLen = written at same ⊢
          by_cases full : written.length ≥ originalSize
          · rw [if_pos full] at same ⊢
            exact .inr (.inl ⟨_, rfl, same.symm.trans (decodeLoop_of_full (not_lt.mpr full))⟩)
          · rw [if_neg full] at same ⊢
            rcases readMatch_follows addressable claimed token (not_le.mp full) enoughBytes with
              ⟨copied, stop, ran, later, within, read⟩ | ⟨error, ran, read⟩
            · rw [ran, Result.ok_bind]
              rw [read] at same
              exact .inl ⟨_, rfl, ⟨within, fuel, by dsimp only; omega, same⟩,
                by dsimp only; omega⟩
            · rw [ran]
              rw [read] at same
              exact .inr (.inr ⟨error, rfl, same.symm⟩)
      · rw [read] at same
        rw [ran]
        exact .inr (.inr ⟨error, rfl, same.symm⟩)
  · rw [if_neg unfinished]
    exact .inr (.inl ⟨_, rfl, same.symm.trans (decodeLoop_of_full unfinished)⟩)

/-- **Decoding matches meets no fault.** -/
theorem lz77Decode_eq (addressable : encoded.length < 2 ^ 63) (expectedSize : Nat) :
    lz77Decode encoded expectedSize = ofResult (AetherArch.lz77Decode encoded expectedSize) := by
  rw [lz77Decode, AetherArch.lz77Decode]
  by_cases short : encoded.length < 4
  · rw [if_pos short, if_pos short, ofResult_error]
  · rw [if_neg short, if_neg short, slice_of_le (Nat.zero_le _) (not_lt.mp short), Result.ok_bind,
      List.drop_zero, Nat.sub_zero]
    dsimp only
    generalize Numeral.littleEndian (encoded.take 4) = originalSize
    by_cases other : originalSize ≠ expectedSize
    · rw [if_pos other, if_pos other, ofResult_error]
    · rw [if_neg other, if_neg other]
      by_cases large : originalSize > MAX_LZ77_INPUT_SIZE
      · rw [if_pos large, if_pos large, ofResult_error]
      · rw [if_neg large, if_neg large]
        obtain ⟨result, ran, same⟩ := @loop_ends AetherError _ _ (lz77Round encoded originalSize)
          (RoundSpec encoded originalSize
            (decodeLoop originalSize encoded.length [] (encoded.drop 4)))
          (fun result => decodeLoop originalSize encoded.length [] (encoded.drop 4) = result)
          (fun state => encoded.length - state.2)
          (lz77Round_spec addressable (not_lt.mp large)) (encoded.length + 1) ([], 4)
          ⟨not_lt.mp short, encoded.length, Nat.sub_le _ _, rfl⟩
          (Nat.lt_succ_of_le (Nat.sub_le _ _))
        rw [ran, same]
        cases result with
        | error error => rfl
        | ok output =>
            rw [ofResult_ok, Result.ok_bind]
            dsimp only
            split
            · rfl
            · rfl

end Machine

end AetherArch
