import AetherArch.Coding.Lz77RoundTrip
import AetherArch.Library.Traced

/-! # The token grammar of LZ77

A plain interpreter reads token after token, copies literals and matches byte by byte, and
stops after the run of bytes that reaches the declared size. The decoder, which copies whole
slices and caps lengths while it reads them, accepts exactly the streams that the interpreter
completes.
-/

namespace AetherArch

namespace Lz77

/-! ## The plain interpreter -/

/-- The extension of a full nibble: full bytes up to one that is not. -/
inductive Extension : Bytes → (added : Nat) → Prop where
  | last {ext : UInt8} (short : ext < 255) : Extension [ext] ext.toNat
  | more {field : Bytes} {added : Nat} (rest : Extension field added) :
      Extension (255 :: field) (255 + added)

/-- A length is in its nibble, or in the extension of a full one. -/
inductive LengthField (nibble : Nat) : Bytes → (len : Nat) → Prop where
  | short (fits : nibble < 15) : LengthField nibble [] nibble
  | extended {field : Bytes} {added : Nat} (full : nibble = 15)
      (extension : Extension field added) : LengthField nibble field (15 + added)

/-- Copy literals one by one. -/
def copyLiterals (output : Bytes) : Bytes → Bytes
  | [] => output
  | byte :: literals => copyLiterals (output ++ [byte]) literals

/-- Copy match bytes one at a time, each from `offset` back. -/
def copyBytes (offset : Nat) : (count : Nat) → (output : Bytes) → Bytes
  | 0, output => output
  | count + 1, output =>
      copyBytes offset count (output ++ [output.getD (output.length - offset) 0])

/-- The plain interpreter of the token grammar: from an output so far, a stream of tokens leads
to a final output, the first that reaches the declared size. -/
inductive Interprets (size : Nat) : (output stream final : Bytes) → Prop where
  | stop {output : Bytes} (reached : size ≤ output.length) : Interprets size output [] output
  | literals {output field literals : Bytes} {token : UInt8} (unfinished : output.length < size)
      (litLen : LengthField (token.toNat >>> 4) field literals.length)
      (reached : size ≤ (copyLiterals output literals).length) :
      Interprets size output (token :: (field ++ literals)) (copyLiterals output literals)
  | sequence {output field literals matchField stream final : Bytes} {token low high : UInt8}
      {len : Nat} (unfinished : output.length < size)
      (litLen : LengthField (token.toNat >>> 4) field literals.length)
      (incomplete : (copyLiterals output literals).length < size)
      (back : 0 < low.toNat ||| high.toNat <<< 8)
      (inside : low.toNat ||| high.toNat <<< 8 ≤ (copyLiterals output literals).length)
      (matchLen : LengthField (token.toNat &&& 0x0F) matchField len)
      (rest : Interprets size (copyBytes (low.toNat ||| high.toNat <<< 8) (len + MIN_MATCH)
        (copyLiterals output literals)) stream final) :
      Interprets size output
        (token :: (field ++ literals ++ low :: high :: (matchField ++ stream))) final

/-! ## Copying -/

@[simp] theorem copyLiterals_eq (output literals : Bytes) :
    copyLiterals output literals = output ++ literals := by
  induction literals generalizing output with
  | nil => rw [copyLiterals, List.append_nil]
  | cons byte literals ih => rw [copyLiterals, ih, List.append_assoc, List.singleton_append]

@[simp] theorem length_copyBytes (offset count : Nat) (output : Bytes) :
    (copyBytes offset count output).length = output.length + count := by
  induction count generalizing output with
  | zero => rfl
  | succ count ih =>
      rw [copyBytes, ih, List.length_append, List.length_singleton]
      omega

/-- A match is copied in two parts, one after the other. -/
theorem copyBytes_add (offset first second : Nat) (output : Bytes) :
    copyBytes offset (first + second) output =
      copyBytes offset second (copyBytes offset first output) := by
  induction first generalizing output with
  | zero => rw [Nat.zero_add, copyBytes]
  | succ first ih => rw [Nat.succ_add, copyBytes, ih, copyBytes]

/-- Bytes that do not overlap what they add are a slice of the output. -/
theorem copyBytes_eq_slice {offset count : Nat} {output : Bytes} (inside : offset ≤ output.length)
    (apart : count ≤ offset) :
    copyBytes offset count output =
      output ++ (output.drop (output.length - offset)).take count := by
  induction count with
  | zero => rw [copyBytes, List.take_zero, List.append_nil]
  | succ count ih =>
      have within : count < (output.drop (output.length - offset)).length := by
        rw [List.length_drop]
        omega
      have earlier : output.length - offset + count < output.length := by omega
      have start : (output ++ (output.drop (output.length - offset)).take count).length - offset =
          output.length - offset + count := by
        rw [List.length_append, List.length_take]
        omega
      rw [copyBytes_add, ih (by omega), copyBytes, copyBytes, start, List.take_add_one,
        List.append_assoc, List.getElem?_drop, List.getD_eq_getElem?_getD,
        List.getElem?_append_left earlier, List.getElem?_eq_getElem earlier]
      rfl

/-- Chunks of the offset's size replicate what a bytewise copy replicates. -/
theorem copyOverlapping_eq {offset : Nat} (positive : 0 < offset) {output : Bytes}
    (inside : offset ≤ output.length) (remaining : Nat) :
    copyOverlapping offset output remaining = copyBytes offset remaining output := by
  induction remaining using Nat.strong_induction_on generalizing output with
  | _ remaining recurse =>
      rw [copyOverlapping]
      split
      · rename_i more
        have chunk := copyBytes_eq_slice inside (Nat.min_le_right remaining offset)
        dsimp only
        rw [← chunk, recurse (remaining - min remaining offset) (by omega)
          (by rw [length_copyBytes]; omega), ← copyBytes_add]
        congr 1
        omega
      · rename_i done
        have nothing : remaining = 0 := by
          rcases not_and_or.mp done with none | zero
          · exact Nat.eq_zero_of_not_pos none
          · exact absurd positive zero
        rw [nothing, copyBytes]

/-- **The fast copy is the bytewise one.** -/
theorem copyMatch_eq_copyBytes {offset matchLen : Nat} (positive : 0 < offset) {output : Bytes}
    (inside : offset ≤ output.length) :
    copyMatch offset matchLen output = copyBytes offset matchLen output := by
  rw [copyMatch]
  split
  · rename_i apart
    exact (copyBytes_eq_slice inside apart).symm
  · exact copyOverlapping_eq positive inside matchLen

/-! ## Lengths -/

/-- The full byte is the only one that an extension goes on after. -/
theorem lt_full_iff {ext : UInt8} : ext < 255 ↔ ext ≠ 255 := by
  have above := ext.toNat_lt
  have full : (255 : UInt8).toNat = 255 := rfl
  rw [UInt8.lt_iff_toNat_lt, ne_eq, ← UInt8.toNat_inj, full]
  omega

/-- An extension is read if its sum stays within the capacity. -/
theorem readExtension_eq_ok {what : String} {remaining start len : Nat} {bytes rest : Bytes} :
    readExtension what remaining start bytes = .ok (len, rest) ↔
      len ≤ remaining ∧ ∃ field added, bytes = field ++ rest ∧ Extension field added ∧
        len = start + added := by
  induction bytes generalizing start with
  | nil =>
      constructor
      · intro read
        cases read
      · rintro ⟨-, field, added, split, extension, -⟩
        cases extension with
        | last short => cases split
        | more extension => cases split
  | cons ext bytes ih =>
      rw [readExtension]
      constructor
      · intro read
        split at read
        · cases read
        · rename_i within
          split at read
          · rename_i short
            cases read
            exact ⟨not_lt.mp within, [ext], ext.toNat, rfl, .last short, rfl⟩
          · rename_i full
            have maximal : ext = 255 := not_not.mp fun other => full (lt_full_iff.mpr other)
            subst maximal
            obtain ⟨bounded, field, added, rfl, extension, sum⟩ := ih.mp read
            refine ⟨bounded, 255 :: field, 255 + added, rfl, .more extension, ?_⟩
            rw [sum, ← Nat.add_assoc]
            rfl
      · rintro ⟨bounded, field, added, split, extension, sum⟩
        cases extension with
        | last short =>
            cases split
            rw [if_neg (by omega), if_pos short, sum]
            rfl
        | @more field added extension =>
            cases split
            have value : (255 : UInt8).toNat = 255 := rfl
            rw [value, if_neg (by omega), if_neg (by decide)]
            exact ih.mpr ⟨bounded, field, added, rfl, extension, by omega⟩

/-- A length is read if its field is there and, when extended, stays within the capacity. -/
theorem readLength_eq_ok {what : String} {remaining base nibble len : Nat} {bytes rest : Bytes}
    (nibbleLe : nibble ≤ 15) :
    readLength what remaining base nibble bytes = .ok (len, rest) ↔
      (nibble = 15 → len ≤ remaining) ∧ ∃ field n, bytes = field ++ rest ∧
        LengthField nibble field n ∧ len = n + base := by
  rw [readLength]
  by_cases full : nibble = 15
  · rw [if_pos full, readExtension_eq_ok]
    constructor
    · rintro ⟨bounded, field, added, split, extension, sum⟩
      exact ⟨fun _ => bounded, field, 15 + added, split, .extended full extension, by omega⟩
    · rintro ⟨bounded, field, n, split, length, sum⟩
      cases length with
      | short fits => exact absurd full fits.ne
      | extended _ extension => exact ⟨bounded full, field, _, split, extension, by omega⟩
  · rw [if_neg full]
    constructor
    · intro read
      cases read
      exact ⟨fun maximal => absurd maximal full, [], nibble, rfl, .short (by omega), rfl⟩
    · rintro ⟨-, field, n, split, length, sum⟩
      cases length with
      | short fits =>
          rw [split, sum]
          rfl
      | extended maximal _ => exact absurd maximal full

/-- The upper half of a token is below sixteen. -/
theorem high_nibble_le (token : UInt8) : token.toNat >>> 4 ≤ 15 := by
  have below := token.toNat_lt
  rw [Nat.shiftRight_eq_div_pow]
  omega

theorem low_nibble_le (token : UInt8) : token.toNat &&& 0x0F ≤ 15 := Nat.and_le_right

/-! ## Sequences -/

variable {size : Nat}

/-- What a decoded sequence is in the grammar. -/
theorem decodeSequence_ok {token : UInt8} {output next encoded rest : Bytes}
    (decoded : decodeSequence size token output encoded = .ok (next, rest)) :
    ∃ field literals stream, encoded = field ++ literals ++ stream ∧
      LengthField (token.toNat >>> 4) field literals.length ∧
      (size ≤ (output ++ literals).length ∧ next = output ++ literals ∧ stream = rest ∨
        ∃ low high matchField len, stream = low :: high :: (matchField ++ rest) ∧
          (output ++ literals).length < size ∧
          0 < low.toNat ||| high.toNat <<< 8 ∧
          low.toNat ||| high.toNat <<< 8 ≤ (output ++ literals).length ∧
          LengthField (token.toNat &&& 0x0F) matchField len ∧
          next = copyBytes (low.toNat ||| high.toNat <<< 8) (len + MIN_MATCH)
            (output ++ literals)) := by
  rw [decodeSequence] at decoded
  obtain ⟨⟨n, bytes⟩, readLiterals, continued⟩ := Result.bind_eq_ok.mp decoded
  clear decoded
  obtain ⟨-, field, litLen, rfl, litField, same⟩ :=
    (readLength_eq_ok (high_nibble_le token)).mp readLiterals
  rw [Nat.add_zero] at same
  subst same
  dsimp only at continued
  split at continued
  · cases continued
  · rename_i enough
    have length : (bytes.take n).length = n := List.length_take_of_le (not_lt.mp enough)
    refine ⟨field, bytes.take n, bytes.drop n, by rw [List.append_assoc, List.take_append_drop],
      by rwa [length], ?_⟩
    generalize bytes.take n = literals at continued ⊢
    generalize bytes.drop n = stream at continued ⊢
    split at continued
    · rename_i reached
      cases continued
      exact .inl ⟨reached, rfl, rfl⟩
    · rename_i unfinished
      split at continued
      · rename_i low high bytes
        split at continued
        · cases continued
        · rename_i valid
          obtain ⟨positive, inside⟩ := not_or.mp valid
          obtain ⟨⟨matchLen, left⟩, readMatch, copied⟩ := Result.bind_eq_ok.mp continued
          clear continued
          obtain ⟨-, matchField, len, rfl, lengthField, rfl⟩ :=
            (readLength_eq_ok (low_nibble_le token)).mp readMatch
          cases copied
          refine .inr ⟨low, high, matchField, len, rfl, not_le.mp unfinished,
            Nat.pos_of_ne_zero positive, not_lt.mp inside, lengthField, ?_⟩
          exact copyMatch_eq_copyBytes (Nat.pos_of_ne_zero positive) (not_lt.mp inside)
      · cases continued

/-- Literals that reach the declared size within the capacity are decoded. -/
theorem decodeSequence_literals {token : UInt8} {output field literals : Bytes} (rest : Bytes)
    (litLen : LengthField (token.toNat >>> 4) field literals.length)
    (fits : (output ++ literals).length ≤ size) (reached : size ≤ (output ++ literals).length) :
    decodeSequence size token output (field ++ literals ++ rest) =
      .ok (output ++ literals, rest) := by
  rw [List.length_append] at fits
  have read : readLength "lit_len" (size - output.length) 0 (token.toNat >>> 4)
      (field ++ literals ++ rest) = .ok (literals.length, literals ++ rest) :=
    (readLength_eq_ok (high_nibble_le token)).mpr
      ⟨fun _ => by omega, field, literals.length, List.append_assoc .., litLen, rfl⟩
  have enough : ¬literals.length > (literals ++ rest).length := by
    rw [List.length_append]
    omega
  simp only [decodeSequence, read, Result.ok_bind, enough, ↓reduceIte, List.take_left,
    List.drop_left, ge_iff_le, reached]

/-- A sequence whose match stays within the capacity is decoded. -/
theorem decodeSequence_match {token low high : UInt8} {output field literals matchField : Bytes}
    {len : Nat} (rest : Bytes) (litLen : LengthField (token.toNat >>> 4) field literals.length)
    (incomplete : (output ++ literals).length < size)
    (back : 0 < low.toNat ||| high.toNat <<< 8)
    (inside : low.toNat ||| high.toNat <<< 8 ≤ (output ++ literals).length)
    (matchLen : LengthField (token.toNat &&& 0x0F) matchField len)
    (fits : (output ++ literals).length + (len + MIN_MATCH) ≤ size) :
    decodeSequence size token output
        (field ++ literals ++ low :: high :: (matchField ++ rest)) =
      .ok (copyBytes (low.toNat ||| high.toNat <<< 8) (len + MIN_MATCH) (output ++ literals),
        rest) := by
  have length : (output ++ literals).length = output.length + literals.length :=
    List.length_append
  have read : readLength "lit_len" (size - output.length) 0 (token.toNat >>> 4)
      (field ++ literals ++ low :: high :: (matchField ++ rest)) =
        .ok (literals.length, literals ++ low :: high :: (matchField ++ rest)) :=
    (readLength_eq_ok (high_nibble_le token)).mpr
      ⟨fun _ => by omega, field, literals.length, List.append_assoc .., litLen, rfl⟩
  have readMatch : readLength "match_len" (size - (output ++ literals).length) MIN_MATCH
      (token.toNat &&& 0x0F) (matchField ++ rest) = .ok (len + MIN_MATCH, rest) :=
    (readLength_eq_ok (low_nibble_le token)).mpr
      ⟨fun _ => by omega, matchField, len, rfl, matchLen, rfl⟩
  have enough : ¬literals.length > (literals ++ low :: high :: (matchField ++ rest)).length := by
    rw [List.length_append]
    omega
  have valid : ¬(low.toNat ||| high.toNat <<< 8 = 0 ∨
      low.toNat ||| high.toNat <<< 8 > (output ++ literals).length) := by omega
  simp only [decodeSequence, read, Result.ok_bind, enough, ↓reduceIte, List.take_left,
    List.drop_left, ge_iff_le, not_le.mpr incomplete, valid, readMatch,
    copyMatch_eq_copyBytes back inside]

/-! ## Whole streams -/

/-- The interpreter only adds to its output. -/
theorem Interprets.length_le {output stream final : Bytes}
    (interprets : Interprets size output stream final) : output.length ≤ final.length := by
  induction interprets with
  | stop reached => exact le_rfl
  | literals unfinished litLen reached =>
      rw [copyLiterals_eq, List.length_append]
      exact Nat.le_add_right _ _
  | sequence unfinished litLen incomplete back inside matchLen rest ih =>
      rw [length_copyBytes, copyLiterals_eq, List.length_append] at ih
      omega

/-- Decoding stops when the size is reached. -/
theorem decodeLoop_reached {fuel : Nat} {output encoded : Bytes} (reached : size ≤ output.length) :
    decodeLoop size fuel output encoded = .ok output := by
  cases fuel with
  | zero => exact if_neg (not_lt.mpr reached)
  | succ fuel => exact if_neg (not_lt.mpr reached)

/-- **The decoder follows the grammar**: what it decodes the interpreter reads from a prefix. -/
theorem interprets_of_decodeLoop {fuel : Nat} {output encoded final : Bytes}
    (decoded : decodeLoop size fuel output encoded = .ok final) :
    ∃ stream rest, encoded = stream ++ rest ∧ Interprets size output stream final := by
  induction fuel generalizing output encoded with
  | zero =>
      by_cases unfinished : output.length < size
      · rw [decodeLoop, if_pos unfinished] at decoded
        cases decoded
      · rw [decodeLoop_reached (not_lt.mp unfinished)] at decoded
        cases decoded
        exact ⟨[], encoded, rfl, .stop (not_lt.mp unfinished)⟩
  | succ fuel ih =>
      by_cases unfinished : output.length < size
      · cases encoded with
        | nil =>
            rw [decodeLoop, if_pos unfinished] at decoded
            cases decoded
        | cons token encoded =>
            rw [decodeLoop, if_pos unfinished] at decoded
            split at decoded
            · cases decoded
            · rename_i next rest sequence
              obtain ⟨field, literals, stream, rfl, litLen, complete | incomplete⟩ :=
                decodeSequence_ok sequence
              · obtain ⟨reached, rfl, rfl⟩ := complete
                rw [decodeLoop_reached reached] at decoded
                cases decoded
                rw [← copyLiterals_eq] at reached
                have step := Interprets.literals unfinished litLen reached
                rw [copyLiterals_eq] at step
                exact ⟨_, stream, rfl, step⟩
              · obtain ⟨low, high, matchField, len, rfl, short, back, inside, matchLen, rfl⟩ :=
                  incomplete
                obtain ⟨stream, left, rfl, interprets⟩ := ih decoded
                rw [← copyLiterals_eq] at short inside interprets
                refine ⟨_, left, ?_, .sequence unfinished litLen short back inside matchLen
                  interprets⟩
                simp only [List.cons_append, List.append_assoc]
      · rw [decodeLoop_reached (not_lt.mp unfinished)] at decoded
        cases decoded
        exact ⟨[], encoded, rfl, .stop (not_lt.mp unfinished)⟩

/-- **The grammar is decoded**: what the interpreter completes at the declared size the decoder
returns, whatever follows. -/
theorem decodeLoop_of_interprets {output stream final : Bytes}
    (interprets : Interprets size output stream final) (completes : final.length = size)
    (rest : Bytes) {fuel : Nat} (steps : stream.length ≤ fuel) :
    decodeLoop size fuel output (stream ++ rest) = .ok final := by
  induction interprets generalizing fuel with
  | stop reached => exact decodeLoop_reached reached
  | @literals output field literals token unfinished litLen reached =>
      rw [copyLiterals_eq] at reached completes ⊢
      rw [List.length_cons] at steps
      obtain ⟨fuel, rfl⟩ : ∃ less, fuel = less + 1 := ⟨fuel - 1, by omega⟩
      rw [List.cons_append, decodeLoop_cons unfinished
        (decodeSequence_literals rest litLen completes.le reached), decodeLoop_reached reached]
  | @sequence output field literals matchField stream final token low high len unfinished litLen
      incomplete back inside matchLen interprets ih =>
      have grown := interprets.length_le
      rw [length_copyBytes] at grown
      rw [copyLiterals_eq] at grown incomplete inside ih
      simp only [List.length_cons, List.length_append] at steps
      obtain ⟨fuel, rfl⟩ : ∃ less, fuel = less + 1 := ⟨fuel - 1, by omega⟩
      have decoded := decodeSequence_match (stream ++ rest) litLen incomplete back inside matchLen
        (show _ ≤ size by omega)
      have regrouped :
          token :: (field ++ literals ++ low :: high :: (matchField ++ stream)) ++ rest =
          token :: (field ++ literals ++ low :: high :: (matchField ++ (stream ++ rest))) := by
        simp only [List.cons_append, List.append_assoc]
      rw [regrouped, decodeLoop_cons unfinished decoded, ih completes (by omega)]

/-! ## The output during a run -/

/-- The output after each chunk of an overlapping copy. -/
def overlapOutputs (offset : Nat) (output : Bytes) (remaining : Nat) : List Bytes :=
  if 0 < remaining ∧ 0 < offset then
    let chunk := min remaining offset
    let output := output ++ (output.drop (output.length - offset)).take chunk
    output :: overlapOutputs offset output (remaining - chunk)
  else []
termination_by remaining

/-- The output after each copy a match takes. -/
def matchOutputs (offset matchLen : Nat) (output : Bytes) : List Bytes :=
  if offset ≥ matchLen then [copyMatch offset matchLen output]
  else overlapOutputs offset output matchLen

/-- Decode one sequence, noting the output after everything added to it. -/
def decodeSequenceTraced (originalSize : Nat) (token : UInt8) (output encoded : Bytes) :
    Traced Bytes AetherError (Bytes × Bytes) := do
  let (litLen, encoded) ← Traced.lift
    (readLength "lit_len" (originalSize - output.length) 0 (token.toNat >>> 4) encoded)
  if litLen > encoded.length then
    Traced.lift (.error (.decompression "LZ77: not enough literal data"))
  else
    let output := output ++ encoded.take litLen
    let encoded := encoded.drop litLen
    Traced.note output
    if output.length ≥ originalSize then pure (output, encoded)
    else
      match encoded with
      | low :: high :: encoded =>
          let offset := low.toNat ||| high.toNat <<< 8
          if offset = 0 ∨ offset > output.length then
            Traced.lift (.error (.decompression
              s!"LZ77: invalid offset {offset} at output pos {output.length}"))
          else
            let (matchLen, encoded) ← Traced.lift
              (readLength "match_len" (originalSize - output.length) MIN_MATCH
                (token.toNat &&& 0x0F) encoded)
            Traced.noteAll (matchOutputs offset matchLen output)
            pure (copyMatch offset matchLen output, encoded)
      | _ => Traced.lift (.error (.decompression "LZ77: missing offset bytes"))

/-- The decoder's main loop, noting the output. -/
def decodeLoopTraced (originalSize : Nat) : (fuel : Nat) → (output encoded : Bytes) →
    Traced Bytes AetherError Bytes
  | 0, output, _ =>
      if output.length < originalSize then
        Traced.lift (.error (.decompression "LZ77: unexpected end of data"))
      else pure output
  | fuel + 1, output, encoded =>
      if output.length < originalSize then
        match encoded with
        | [] => Traced.lift (.error (.decompression "LZ77: unexpected end of data"))
        | token :: encoded => do
            let (output, encoded) ← decodeSequenceTraced originalSize token output encoded
            decodeLoopTraced originalSize fuel output encoded
      else pure output

/-- The notes do not change what a sequence decodes to. -/
theorem outcome_decodeSequenceTraced (token : UInt8) (output encoded : Bytes) :
    (decodeSequenceTraced size token output encoded).outcome =
      decodeSequence size token output encoded := by
  rw [decodeSequenceTraced, decodeSequence, Traced.outcome_bind, Traced.outcome_lift]
  congr 1
  funext read
  obtain ⟨litLen, encoded⟩ := read
  dsimp only
  split
  · rfl
  · rw [Traced.outcome_bind, Traced.outcome_note, Result.ok_bind]
    split
    · rfl
    · rcases encoded.drop litLen with _ | ⟨low, _ | ⟨high, encoded⟩⟩
      · rfl
      · rfl
      · dsimp only
        split
        · rfl
        · rw [Traced.outcome_bind, Traced.outcome_lift]
          rfl

/-- Tracing does not change the decoding loop. -/
theorem outcome_decodeLoopTraced (fuel : Nat) (output encoded : Bytes) :
    (decodeLoopTraced size fuel output encoded).outcome = decodeLoop size fuel output encoded := by
  induction fuel generalizing output encoded with
  | zero =>
      rw [decodeLoopTraced, decodeLoop]
      split
      · rfl
      · rfl
  | succ fuel ih =>
      by_cases unfinished : output.length < size
      · cases encoded with
        | nil =>
            rw [decodeLoopTraced, decodeLoop, if_pos unfinished, if_pos unfinished]
            rfl
        | cons token encoded =>
            rw [decodeLoopTraced, decodeLoop, if_pos unfinished, if_pos unfinished,
              Traced.outcome_bind, outcome_decodeSequenceTraced]
            cases decodeSequence size token output encoded with
            | error error => rfl
            | ok next => exact ih next.1 next.2
      · rw [decodeLoopTraced.eq_def, decodeLoop.eq_def]
        dsimp only
        rw [if_neg unfinished, if_neg unfinished]
        rfl

/-- A copied overlap is no longer than the match asks for. -/
theorem length_overlapOutputs_le {offset remaining : Nat} {output buffer : Bytes}
    (inside : offset ≤ output.length) (member : buffer ∈ overlapOutputs offset output remaining) :
    buffer.length ≤ output.length + remaining := by
  induction remaining using Nat.strong_induction_on generalizing output with
  | _ remaining recurse =>
      rw [overlapOutputs] at member
      split at member
      · have grown : (output ++ (output.drop (output.length - offset)).take
            (min remaining offset)).length = output.length + min remaining offset := by
          rw [List.length_append, List.length_take, List.length_drop]
          omega
        rcases List.mem_cons.mp member with rfl | later
        · rw [grown]
          omega
        · have := recurse (remaining - min remaining offset) (by omega) (by rw [grown]; omega) later
          rw [grown] at this
          omega
      · cases member

/-- Nor is any other match. -/
theorem length_matchOutputs_le {offset matchLen : Nat} {output buffer : Bytes}
    (positive : 0 < offset) (inside : offset ≤ output.length)
    (member : buffer ∈ matchOutputs offset matchLen output) :
    buffer.length ≤ output.length + matchLen := by
  rw [matchOutputs] at member
  split at member
  · rw [List.mem_singleton.mp member, copyMatch_eq_copyBytes positive inside, length_copyBytes]
  · exact length_overlapOutputs_le inside member

/-- A length is below the maximum of its nibble, or within the capacity. -/
theorem readLength_le_max {what : String} {remaining base nibble len : Nat} {bytes rest : Bytes}
    (nibbleLe : nibble ≤ 15)
    (read : readLength what remaining base nibble bytes = .ok (len, rest)) :
    len ≤ max (14 + base) remaining := by
  obtain ⟨bounded, field, n, -, length, rfl⟩ := (readLength_eq_ok nibbleLe).mp read
  cases length with
  | short fits => omega
  | extended full _ => exact le_max_of_le_right (bounded full)

/-- One sequence overshoots the declared size by less than an unextended one adds. -/
theorem decodeSequenceTraced_bounded {token : UInt8} {output encoded : Bytes}
    (unfinished : output.length < size) :
    (decodeSequenceTraced size token output encoded).Always fun buffer =>
      buffer.length ≤ size + 17 := by
  rw [decodeSequenceTraced]
  refine Traced.always_lift_bind fun read readLiterals => ?_
  obtain ⟨litLen, encoded⟩ := read
  have litLe := readLength_le_max (high_nibble_le token) readLiterals
  dsimp only
  split
  · exact Traced.always_lift _
  · refine Traced.always_note_bind ?_ ?_
    · rw [List.length_append, List.length_take]
      omega
    · split
      · exact Traced.always_pure _
      · rename_i incomplete
        split
        · split
          · exact Traced.always_lift _
          · rename_i valid
            obtain ⟨positive, inside⟩ := not_or.mp valid
            refine Traced.always_lift_bind fun read readMatch => ?_
            obtain ⟨matchLen, encoded⟩ := read
            have matchLe := readLength_le_max (low_nibble_le token) readMatch
            refine (Traced.always_noteAll fun buffer member => ?_).bind
              fun _ _ => Traced.always_pure _
            have copied := length_matchOutputs_le (Nat.pos_of_ne_zero positive)
              (not_lt.mp inside) member
            simp only [MIN_MATCH] at matchLe
            omega
        · exact Traced.always_lift _

/-- No buffer of the decoding loop exceeds the size by more than seventeen bytes. -/
theorem decodeLoopTraced_bounded (fuel : Nat) (output encoded : Bytes) :
    (decodeLoopTraced size fuel output encoded).Always fun buffer =>
      buffer.length ≤ size + 17 := by
  induction fuel generalizing output encoded with
  | zero =>
      rw [decodeLoopTraced]
      split
      · exact Traced.always_lift _
      · exact Traced.always_pure _
  | succ fuel ih =>
      rw [decodeLoopTraced.eq_def]
      dsimp only
      split
      · rename_i unfinished
        split
        · exact Traced.always_lift _
        · exact (decodeSequenceTraced_bounded unfinished).bind fun next _ => ih next.1 next.2
      · exact Traced.always_pure _

end Lz77

open Lz77

/-- Decode data produced by `lz77Encode`, noting the output. -/
def lz77DecodeTraced (encoded : Bytes) (expectedSize : Nat) : Traced Bytes AetherError Bytes :=
  if encoded.length < 4 then Traced.lift (.error (.decompression "LZ77 data too short"))
  else
    let originalSize := Numeral.littleEndian (encoded.take 4)
    if originalSize ≠ expectedSize then
      Traced.lift (.error (.decompression
        s!"LZ77 size mismatch: header says {originalSize}, expected {expectedSize}"))
    else if originalSize > MAX_LZ77_INPUT_SIZE then
      Traced.lift (.error (.decompression
        s!"LZ77 decode size {originalSize} exceeds safety limit {MAX_LZ77_INPUT_SIZE}"))
    else do
      let output ← decodeLoopTraced originalSize encoded.length [] (encoded.drop 4)
      if output.length ≠ originalSize then
        Traced.lift (.error (.decompression
          s!"LZ77: output size {output.length}, expected {originalSize}"))
      else pure output

/-- Tracing does not change the decoder. -/
theorem outcome_lz77DecodeTraced (encoded : Bytes) (expectedSize : Nat) :
    (lz77DecodeTraced encoded expectedSize).outcome = lz77Decode encoded expectedSize := by
  rw [lz77DecodeTraced, lz77Decode]
  split
  · rfl
  · dsimp only
    split
    · rfl
    · split
      · rfl
      · rw [Traced.outcome_bind, outcome_decodeLoopTraced]
        cases decodeLoop (Numeral.littleEndian (encoded.take 4)) encoded.length []
            (encoded.drop 4) with
        | error error => rfl
        | ok output =>
            rw [Result.ok_bind]
            dsimp only
            split
            · rfl
            · rfl

/-- **No buffer of the decoder exceeds the expected size by more than seventeen bytes.** -/
theorem lz77DecodeTraced_bounded (encoded : Bytes) (expectedSize : Nat) :
    (lz77DecodeTraced encoded expectedSize).Always fun buffer =>
      buffer.length ≤ expectedSize + 17 := by
  rw [lz77DecodeTraced]
  split
  · exact Traced.always_lift _
  · dsimp only
    split
    · exact Traced.always_lift _
    · rename_i same
      have declared := not_not.mp same
      split
      · exact Traced.always_lift _
      · rw [declared]
        refine (decodeLoopTraced_bounded _ _ _).bind fun output _ => ?_
        split
        · exact Traced.always_lift _
        · exact Traced.always_pure _

/-- The plain interpreter completes a string: past the size header it reads some of the tokens,
stops as soon as its output reaches the declared size, and has that many bytes then. -/
def Completes (encoded : Bytes) (size : Nat) (decoded : Bytes) : Prop :=
  ∃ header stream rest, encoded = header ++ stream ++ rest ∧ header.length = 4 ∧
    Numeral.littleEndian header = size ∧ Interprets size [] stream decoded ∧
    decoded.length = size

/-- **The decoder is the plain interpreter up to the size limit**, and its output never overshoots
the declared size by more than an unextended sequence adds. -/
theorem lz77Decode_reference (encoded : Bytes) (expectedSize : Nat) :
    (∀ decoded, lz77Decode encoded expectedSize = .ok decoded ↔
      expectedSize ≤ MAX_LZ77_INPUT_SIZE ∧ Completes encoded expectedSize decoded) ∧
      (lz77DecodeTraced encoded expectedSize).outcome = lz77Decode encoded expectedSize ∧
      ∀ output ∈ (lz77DecodeTraced encoded expectedSize).notes,
        output.length ≤ expectedSize + 17 := by
  refine ⟨fun decoded => ⟨fun success => ?_, ?_⟩, outcome_lz77DecodeTraced encoded expectedSize,
    lz77DecodeTraced_bounded encoded expectedSize⟩
  · rw [lz77Decode] at success
    split at success
    · cases success
    rename_i long
    dsimp only at success
    split at success
    · cases success
    rename_i same
    split at success
    · cases success
    rename_i limited
    split at success
    · cases success
    rename_i output looped
    split at success
    · cases success
    rename_i size
    cases success
    have declared := not_not.mp same
    rw [declared] at looped limited size
    obtain ⟨stream, rest, split, interprets⟩ := interprets_of_decodeLoop looped
    refine ⟨not_lt.mp limited, encoded.take 4, stream, rest, ?_,
      List.length_take_of_le (not_lt.mp long), declared, interprets, not_not.mp size⟩
    rw [List.append_assoc, ← split, List.take_append_drop]
  · rintro ⟨limited, header, stream, rest, rfl, four, declared, interprets, completes⟩
    have looped := decodeLoop_of_interprets interprets completes rest
      (show stream.length ≤ (header ++ stream ++ rest).length by
        rw [List.length_append, List.length_append]
        omega)
    rw [List.append_assoc] at looped ⊢
    rw [lz77Decode, if_neg (by rw [List.length_append]; omega)]
    simp only [List.take_left' four, List.drop_left' four, declared, ne_eq, not_true_eq_false,
      ↓reduceIte, not_lt.mpr limited, looped, completes]

/-- The extension of a length is one in the grammar. -/
theorem extension_lengthExtension (added : Nat) : Extension (lengthExtension added) added := by
  induction added using Nat.strong_induction_on with
  | _ added recurse =>
      rw [lengthExtension]
      split
      · rename_i full
        have more := (recurse (added - 255) (by omega)).more
        rwa [Nat.add_sub_cancel' full] at more
      · rename_i short
        have value : (UInt8.ofNat added).toNat = added := UInt8.toNat_ofNat_of_lt' (by
          change added < 256
          omega)
        have last : UInt8.ofNat added < 255 := by
          rw [UInt8.lt_iff_toNat_lt, value]
          exact not_le.mp short
        have extension := Extension.last last
        rwa [value] at extension

/-- A length written as a nibble and its extension is a field of the grammar. -/
theorem lengthField_extension (len : Nat) : LengthField (min len 15) (extension len) len := by
  rw [extension]
  split
  · rename_i long
    have field := LengthField.extended (Nat.min_eq_right long)
      (extension_lengthExtension (len - 15))
    rwa [Nat.add_sub_cancel' long] at field
  · rename_i short
    have fits : min len 15 = len := Nat.min_eq_left (by omega)
    have field := LengthField.short (show min len 15 < 15 by omega)
    rwa [fits] at field ⊢

/-- The interpreter reads final literals of any length. -/
theorem interprets_emitFinalLiterals {literals : Bytes} (nonempty : 0 < literals.length) :
    Interprets literals.length [] (emitFinalLiterals literals) literals := by
  obtain ⟨highNibble, -⟩ := token_nibbles
    (show min literals.length 15 < 16 by omega) (show 0 < 16 by omega)
  rw [Nat.or_zero] at highNibble
  have field := lengthField_extension literals.length
  rw [← highNibble] at field
  have step := @Interprets.literals literals.length [] _ _ _ nonempty field
    (by rw [copyLiterals_eq, List.nil_append])
  rwa [copyLiterals_eq, List.nil_append] at step

/-- One byte past the size limit, a run of literals that the interpreter completes is refused. -/
theorem lz77Decode_limited :
    Completes (Numeral.toLittleEndian 4 (MAX_LZ77_INPUT_SIZE + 1) ++
        emitFinalLiterals (List.replicate (MAX_LZ77_INPUT_SIZE + 1) 0)) (MAX_LZ77_INPUT_SIZE + 1)
        (List.replicate (MAX_LZ77_INPUT_SIZE + 1) 0) ∧
      ∀ decoded, lz77Decode (Numeral.toLittleEndian 4 (MAX_LZ77_INPUT_SIZE + 1) ++
        emitFinalLiterals (List.replicate (MAX_LZ77_INPUT_SIZE + 1) 0)) (MAX_LZ77_INPUT_SIZE + 1) ≠
          .ok decoded := by
  have interprets := interprets_emitFinalLiterals
    (show 0 < (List.replicate (MAX_LZ77_INPUT_SIZE + 1) (0 : UInt8)).length by
      rw [List.length_replicate]
      exact Nat.succ_pos _)
  rw [List.length_replicate] at interprets
  have header : (Numeral.toLittleEndian 4 (MAX_LZ77_INPUT_SIZE + 1)).length = 4 :=
    Numeral.length_toLittleEndian 4 _
  have declared : Numeral.littleEndian (Numeral.toLittleEndian 4 (MAX_LZ77_INPUT_SIZE + 1)) =
      MAX_LZ77_INPUT_SIZE + 1 := by
    rw [Numeral.littleEndian_toLittleEndian]
    decide
  refine ⟨⟨_, _, [], (List.append_nil _).symm, header, declared, interprets,
    List.length_replicate⟩, fun decoded success => ?_⟩
  rw [lz77Decode, if_neg (by rw [List.length_append]; omega)] at success
  simp only [List.take_left' header, declared, ne_eq, not_true_eq_false, ↓reduceIte, gt_iff_lt,
    Nat.lt_succ_self] at success
  cases success

end AetherArch
