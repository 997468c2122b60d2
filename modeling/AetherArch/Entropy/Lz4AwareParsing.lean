import AetherArch.Coding.Lz77Reference
import AetherArch.Entropy.CountWords
import AetherArch.Entropy.Lz4Aware
import AetherArch.Library.Labelled

/-! # Parsing along with the decoder

The LZ77 decoder reads each byte in a role: part of the size, a token, an extension, a literal or
half an offset. The state machine of the LZ-aware predictor, which never sees the output and reads
one byte at a time, is in the matching state in front of every byte the decoder reads.
-/

namespace AetherArch

open Labelled

namespace Lz77

/-! ## The roles of bytes -/

/-- What the decoder reads a byte as. -/
inductive Role where
  | size (index : Fin 4)
  | token
  | litLenExt
  /-- A literal, with those of its run from it on. -/
  | literal (remaining : Nat)
  | offsetLow
  | offsetHigh
  | matchLenExt
  deriving DecidableEq

/-- Decode a length extension, noting its bytes. -/
def readExtensionRoles (what : String) (role : Role) (remaining : Nat) : (len : Nat) → Bytes →
    Traced (Role × UInt8) AetherError (Nat × Bytes)
  | _, [] => Traced.lift (.error (.decompression s!"LZ77: unexpected end in {what} ext"))
  | len, ext :: encoded => do
      Traced.note (role, ext)
      let extended := len + ext.toNat
      if extended > remaining then
        Traced.lift (.error (.decompression
          s!"LZ77: {what} {extended} exceeds remaining output capacity {remaining}"))
      else if ext < 255 then pure (extended, encoded)
      else readExtensionRoles what role remaining extended encoded

/-- Decode a length from its nibble, noting the bytes of its extension. -/
def readLengthRoles (what : String) (role : Role) (remaining base nibble : Nat)
    (encoded : Bytes) : Traced (Role × UInt8) AetherError (Nat × Bytes) :=
  if nibble = 15 then readExtensionRoles what role remaining (nibble + base) encoded
  else pure (nibble + base, encoded)

/-- The notes of a run of literals. -/
def literalRoles : Bytes → List (Role × UInt8)
  | [] => []
  | byte :: literals => (.literal (literals.length + 1), byte) :: literalRoles literals

/-- Decode one sequence after its token, noting the bytes read. -/
def decodeSequenceRoles (originalSize : Nat) (token : UInt8) (output encoded : Bytes) :
    Traced (Role × UInt8) AetherError (Bytes × Bytes) := do
  let (litLen, encoded) ← readLengthRoles "lit_len" .litLenExt (originalSize - output.length) 0
    (token.toNat >>> 4) encoded
  if litLen > encoded.length then
    Traced.lift (.error (.decompression "LZ77: not enough literal data"))
  else do
    Traced.noteAll (literalRoles (encoded.take litLen))
    let output := output ++ encoded.take litLen
    let encoded := encoded.drop litLen
    if output.length ≥ originalSize then pure (output, encoded)
    else
      match encoded with
      | low :: high :: encoded => do
          Traced.noteAll [(.offsetLow, low), (.offsetHigh, high)]
          let offset := low.toNat ||| high.toNat <<< 8
          if offset = 0 ∨ offset > output.length then
            Traced.lift (.error (.decompression
              s!"LZ77: invalid offset {offset} at output pos {output.length}"))
          else do
            let (matchLen, encoded) ← readLengthRoles "match_len" .matchLenExt
              (originalSize - output.length) MIN_MATCH (token.toNat &&& 0x0F) encoded
            pure (copyMatch offset matchLen output, encoded)
      | _ => Traced.lift (.error (.decompression "LZ77: missing offset bytes"))

/-- The decoder's main loop, noting the bytes read. -/
def decodeLoopRoles (originalSize : Nat) : (fuel : Nat) → (output encoded : Bytes) →
    Traced (Role × UInt8) AetherError Bytes
  | 0, output, _ =>
      if output.length < originalSize then
        Traced.lift (.error (.decompression "LZ77: unexpected end of data"))
      else pure output
  | fuel + 1, output, encoded =>
      if output.length < originalSize then
        match encoded with
        | [] => Traced.lift (.error (.decompression "LZ77: unexpected end of data"))
        | token :: encoded => do
            Traced.note (.token, token)
            let (output, encoded) ← decodeSequenceRoles originalSize token output encoded
            decodeLoopRoles originalSize fuel output encoded
      else pure output

/-- The notes of the four bytes of the size. -/
def sizeRoles (encoded : Bytes) : List (Role × UInt8) :=
  List.ofFn fun index : Fin 4 => (.size index, encoded.getD index 0)

/-- The decoder, noting every byte it reads with its role. -/
def lz77DecodeRoles (encoded : Bytes) (expectedSize : Nat) :
    Traced (Role × UInt8) AetherError Bytes :=
  if encoded.length < 4 then Traced.lift (.error (.decompression "LZ77 data too short"))
  else do
    Traced.noteAll (sizeRoles encoded)
    let originalSize := Numeral.littleEndian (encoded.take 4)
    if originalSize ≠ expectedSize then
      Traced.lift (.error (.decompression
        s!"LZ77 size mismatch: header says {originalSize}, expected {expectedSize}"))
    else if originalSize > MAX_LZ77_INPUT_SIZE then
      Traced.lift (.error (.decompression
        s!"LZ77 decode size {originalSize} exceeds safety limit {MAX_LZ77_INPUT_SIZE}"))
    else do
      let output ← decodeLoopRoles originalSize encoded.length [] (encoded.drop 4)
      if output.length ≠ originalSize then
        Traced.lift (.error (.decompression
          s!"LZ77: output size {output.length}, expected {originalSize}"))
      else pure output

/-! ## The notes change nothing -/

variable {size : Nat}

/-- Noting roles does not change how an extension is read. -/
theorem outcome_readExtensionRoles (what : String) (role : Role) (remaining len : Nat)
    (encoded : Bytes) : (readExtensionRoles what role remaining len encoded).outcome =
      readExtension what remaining len encoded := by
  induction encoded generalizing len with
  | nil => rfl
  | cons ext encoded recurse =>
      rw [readExtensionRoles, readExtension, Traced.outcome_bind, Traced.outcome_note,
        Result.ok_bind]
      dsimp only
      split
      · rfl
      · split
        · rfl
        · exact recurse _

/-- Nor how a length is read. -/
theorem outcome_readLengthRoles (what : String) (role : Role) (remaining base nibble : Nat)
    (encoded : Bytes) : (readLengthRoles what role remaining base nibble encoded).outcome =
      readLength what remaining base nibble encoded := by
  unfold readLengthRoles readLength
  split
  · exact outcome_readExtensionRoles what role remaining _ encoded
  · rfl

/-- Nor how a sequence is decoded. -/
theorem outcome_decodeSequenceRoles (token : UInt8) (output encoded : Bytes) :
    (decodeSequenceRoles size token output encoded).outcome =
      decodeSequence size token output encoded := by
  rw [decodeSequenceRoles, decodeSequence, Traced.outcome_bind, outcome_readLengthRoles]
  congr 1
  funext lengths
  obtain ⟨litLen, bytes⟩ := lengths
  dsimp only
  split
  · rfl
  · rw [Traced.outcome_bind, Traced.outcome_noteAll, Result.ok_bind]
    generalize bytes.drop litLen = stream
    split
    · rfl
    · rcases stream with _ | ⟨low, _ | ⟨high, stream⟩⟩
      · rfl
      · rfl
      · dsimp only
        rw [Traced.outcome_bind, Traced.outcome_noteAll, Result.ok_bind]
        split
        · rfl
        · rw [Traced.outcome_bind, outcome_readLengthRoles]
          rfl

/-- Nor how the stream is decoded. -/
theorem outcome_decodeLoopRoles (fuel : Nat) (output encoded : Bytes) :
    (decodeLoopRoles size fuel output encoded).outcome = decodeLoop size fuel output encoded := by
  induction fuel generalizing output encoded with
  | zero =>
      unfold decodeLoopRoles decodeLoop
      split
      · rfl
      · rfl
  | succ fuel recurse =>
      unfold decodeLoopRoles decodeLoop
      split
      · cases encoded with
        | nil => rfl
        | cons token encoded =>
            dsimp only
            rw [Traced.outcome_bind, Traced.outcome_note, Result.ok_bind, Traced.outcome_bind,
              outcome_decodeSequenceRoles]
            cases decodeSequence size token output encoded with
            | error error => rfl
            | ok decoded => exact recurse decoded.1 decoded.2
      · rfl

/-- The decoder with notes returns what the decoder does. -/
theorem outcome_lz77DecodeRoles (encoded : Bytes) (expectedSize : Nat) :
    (lz77DecodeRoles encoded expectedSize).outcome = lz77Decode encoded expectedSize := by
  unfold lz77DecodeRoles lz77Decode
  split
  · rfl
  · rw [Traced.outcome_bind, Traced.outcome_noteAll, Result.ok_bind]
    dsimp only
    split
    · rfl
    · split
      · rfl
      · rw [Traced.outcome_bind, outcome_decodeLoopRoles]
        cases decodeLoop (Numeral.littleEndian (encoded.take 4)) encoded.length []
            (encoded.drop 4) with
        | error error => rfl
        | ok output =>
            rw [Result.ok_bind]
            dsimp only
            split
            · rfl
            · rfl

end Lz77

/-! ## The state machine -/

/-- What decides the states of the predictor. -/
structure Lz4Position where
  state : Lz4ParseState
  litLenAccum : Nat
  matchLenNibble : UInt8

/-- The role of the next byte in a state. -/
def Lz4ParseState.role : Lz4ParseState → Lz77.Role
  | .sizePrefix byteIndex => .size byteIndex
  | .token => .token
  | .litLenExt => .litLenExt
  | .literals remaining => .literal remaining
  | .matchOffsetLow => .offsetLow
  | .matchOffsetHigh => .offsetHigh
  | .matchLenExt => .matchLenExt

open Lz4AwarePredictor (MAX_LIT_LEN)

namespace Lz4Position

theorem size_lt {byteIndex : Fin 4} (more : byteIndex.val < 3) : byteIndex.val + 1 < 4 :=
  Nat.succ_lt_succ more

/-- The position after a byte. -/
def next (position : Lz4Position) (byte : UInt8) : Lz4Position :=
  match position.state with
  | .sizePrefix byteIndex =>
      { position with
        state :=
          if more : byteIndex.val < 3 then .sizePrefix ⟨byteIndex + 1, size_lt more⟩ else .token }
  | .token =>
      { state :=
          if byte >>> 4 = 15 then .litLenExt
          else if byte >>> 4 > 0 then .literals (byte >>> 4).toNat
          else .matchOffsetLow
        litLenAccum := if byte >>> 4 = 15 then 15 else position.litLenAccum
        matchLenNibble := byte &&& 0x0F }
  | .litLenExt =>
      let accum := min (min (position.litLenAccum + byte.toNat) (2 ^ 64 - 1)) MAX_LIT_LEN
      { position with
        state :=
          if byte = 255 then .litLenExt
          else if accum > 0 then .literals accum
          else .matchOffsetLow
        litLenAccum := accum }
  | .literals remaining =>
      { position with
        state := if remaining > 1 then .literals (remaining - 1) else .matchOffsetLow }
  | .matchOffsetLow => { position with state := .matchOffsetHigh }
  | .matchOffsetHigh =>
      { position with state := if position.matchLenNibble = 15 then .matchLenExt else .token }
  | .matchLenExt =>
      { position with state := if byte = 255 then .matchLenExt else .token }

/-- The state machine reads bytes in these roles. -/
def Parses : Lz4Position → List (Lz77.Role × UInt8) → Lz4Position → Prop :=
  Reads next fun position => position.state.role

/-- The state in front of literals, which is past them when there are none. -/
def beforeLiterals (len : Nat) : Lz4ParseState :=
  if len > 0 then .literals len else .matchOffsetLow

variable {position : Lz4Position}

/-- A token decides the next position. -/
theorem next_token (start : position.state = .token) (byte : UInt8) :
    position.next byte =
      { state :=
          if byte >>> 4 = 15 then .litLenExt
          else if byte >>> 4 > 0 then .literals (byte >>> 4).toNat
          else .matchOffsetLow
        litLenAccum := if byte >>> 4 = 15 then 15 else position.litLenAccum
        matchLenNibble := byte &&& 0x0F } := by
  rw [next, start]

/-- The accumulated length is exact up to its cap. -/
theorem next_litLenExt (start : position.state = .litLenExt) {byte : UInt8}
    (fits : position.litLenAccum + byte.toNat ≤ MAX_LIT_LEN) :
    position.next byte =
      { position with
        state :=
          if byte = 255 then .litLenExt
          else beforeLiterals (position.litLenAccum + byte.toNat)
        litLenAccum := position.litLenAccum + byte.toNat } := by
  have cap : MAX_LIT_LEN < 2 ^ 64 - 1 := by decide
  have whole : min (min (position.litLenAccum + byte.toNat) (2 ^ 64 - 1)) MAX_LIT_LEN =
      position.litLenAccum + byte.toNat := by
    omega
  rw [next, start]
  dsimp only
  rw [whole]
  rfl

open Lz77

/-- **Reading an extension**, by what holds in front of its bytes and behind its last. -/
theorem parses_extension {what : String} {role : Role} {remaining len read : Nat}
    {encoded rest : Bytes} {within behind : Nat → Lz4Position → Prop}
    (shown : ∀ len position, within len position → position.state.role = role)
    (more : ∀ len position (ext : UInt8), ext = 255 → len + ext.toNat ≤ remaining →
      within len position → within (len + ext.toNat) (position.next ext))
    (last : ∀ len position (ext : UInt8), ext ≠ 255 → len + ext.toNat ≤ remaining →
      within len position → behind (len + ext.toNat) (position.next ext))
    (start : within len position)
    (success : (readExtensionRoles what role remaining len encoded).outcome = .ok (read, rest)) :
    ∃ final, Parses position (readExtensionRoles what role remaining len encoded).notes final ∧
      behind read final ∧
      (readExtensionRoles what role remaining len encoded).notes.map Prod.snd ++ rest =
        encoded := by
  induction encoded generalizing position len with
  | nil => cases success
  | cons ext encoded recurse =>
      rw [readExtensionRoles, Traced.outcome_bind, Traced.outcome_note, Result.ok_bind] at success
      rw [readExtensionRoles, Traced.notes_bind (Traced.outcome_note _)]
      dsimp only at success ⊢
      split at success
      · cases success
      · rename_i exceeds
        have fits := not_lt.mp exceeds
        rw [if_neg exceeds]
        split at success
        · rename_i short
          cases success
          rw [if_pos short]
          exact ⟨position.next ext, Reads.single ext (shown len position start),
            last len position ext (lt_full_iff.mp short) fits start, rfl⟩
        · rename_i full
          have maximal : ext = 255 := not_not.mp fun other => full (lt_full_iff.mpr other)
          obtain ⟨final, parses, ends, consumed⟩ :=
            recurse (more len position ext maximal fits start) success
          rw [if_neg full]
          exact ⟨final, Reads.cons (shown len position start) parses, ends,
            congrArg (ext :: ·) consumed⟩

/-- Behind a match is a token. -/
theorem parses_matchLength {what : String} {remaining base nibble read : Nat}
    {encoded rest : Bytes}
    (start : position.state = if nibble = 15 then .matchLenExt else .token)
    (success : (readLengthRoles what .matchLenExt remaining base nibble encoded).outcome =
      .ok (read, rest)) :
    ∃ final, Parses position (readLengthRoles what .matchLenExt remaining base nibble
        encoded).notes final ∧ final.state = .token ∧
      (readLengthRoles what .matchLenExt remaining base nibble encoded).notes.map Prod.snd ++
        rest = encoded := by
  unfold readLengthRoles at success ⊢
  split at success
  · rename_i full
    rw [if_pos full] at start ⊢
    apply @parses_extension position what .matchLenExt remaining _ read encoded rest
      (fun _ position => position.state = .matchLenExt) (fun _ position => position.state = .token)
      _ _ _ start success
    · intro len position within
      rw [within]
      rfl
    · intro len position ext full _ within
      rw [next, within]
      exact if_pos full
    · intro len position ext short _ within
      rw [next, within]
      exact if_neg short
  · rename_i short
    rw [if_neg short] at start ⊢
    cases success
    exact ⟨position, Reads.nil position, start, rfl⟩

/-- Behind a token and the extension of its literal length are as many literals as the decoder
copies. The cap on the accumulated length is never reached. -/
theorem parses_literalLength {what : String} {remaining read : Nat} {token : UInt8}
    {encoded rest : Bytes} (start : position.state = .token) (small : remaining ≤ MAX_LIT_LEN)
    (success : (readLengthRoles what .litLenExt remaining 0 (token.toNat >>> 4) encoded).outcome =
      .ok (read, rest)) :
    ∃ final, Parses position ((.token, token) ::
        (readLengthRoles what .litLenExt remaining 0 (token.toNat >>> 4) encoded).notes) final ∧
      final.state = beforeLiterals read ∧ final.matchLenNibble = token &&& 0x0F ∧
      (readLengthRoles what .litLenExt remaining 0 (token.toNat >>> 4) encoded).notes.map
        Prod.snd ++ rest = encoded := by
  have shown : position.state.role = .token := by rw [start]; rfl
  have nibble : (token >>> 4).toNat = token.toNat >>> 4 := rfl
  have after := next_token start token
  unfold readLengthRoles at success ⊢
  split at success
  · rename_i full
    have full8 : token >>> 4 = 15 := UInt8.toNat_inj.mp (nibble.trans full)
    rw [if_pos full8, if_pos full8] at after
    rw [if_pos full]
    obtain ⟨final, parses, ⟨state, kept⟩, consumed⟩ :=
      @parses_extension (position.next token) what .litLenExt remaining _ read encoded rest
        (fun len position => position.state = .litLenExt ∧ position.litLenAccum = len ∧ 0 < len ∧
          position.matchLenNibble = token &&& 0x0F)
        (fun len position => position.state = beforeLiterals len ∧
          position.matchLenNibble = token &&& 0x0F)
        (by
          rintro len position ⟨within, -⟩
          rw [within]
          rfl)
        (by
          rintro len position ext full fits ⟨within, accum, positive, kept⟩
          subst accum
          rw [next_litLenExt within (fits.trans small)]
          exact ⟨if_pos full, rfl, Nat.add_pos_left positive _, kept⟩)
        (by
          rintro len position ext short fits ⟨within, accum, positive, kept⟩
          subst accum
          rw [next_litLenExt within (fits.trans small)]
          exact ⟨if_neg short, kept⟩)
        (by
          rw [after]
          exact ⟨rfl, full.symm, by omega, rfl⟩)
        success
    exact ⟨final, Reads.cons shown parses, state, kept, consumed⟩
  · rename_i short
    have short8 : token >>> 4 ≠ 15 := fun full => short (nibble.symm.trans (congrArg _ full))
    rw [if_neg short8, if_neg short8] at after
    rw [if_neg short]
    cases success
    refine ⟨position.next token, Reads.single token shown, ?_, ?_, rfl⟩
    · rw [after, Nat.add_zero]
      dsimp only
      rw [← nibble, beforeLiterals]
      rfl
    · rw [after]

/-- The literals are read one by one, up to the offset. -/
theorem parses_literals {literals : Bytes}
    (start : position.state = beforeLiterals literals.length) :
    ∃ final, Parses position (literalRoles literals) final ∧ final.state = .matchOffsetLow ∧
      final.matchLenNibble = position.matchLenNibble ∧
      (literalRoles literals).map Prod.snd = literals := by
  induction literals generalizing position with
  | nil => exact ⟨position, Reads.nil position, start, rfl, rfl⟩
  | cons byte literals recurse =>
      have here : position.state = .literals (literals.length + 1) := start
      have shown : position.state.role = .literal (literals.length + 1) := by rw [here]; rfl
      have later : (position.next byte).state = beforeLiterals literals.length := by
        rw [next, here]
        dsimp only
        unfold beforeLiterals
        rw [Nat.add_sub_cancel]
        exact if_congr (by omega) rfl rfl
      have kept : (position.next byte).matchLenNibble = position.matchLenNibble := by
        rw [next, here]
      obtain ⟨final, parses, ends, nibble, consumed⟩ := recurse later
      exact ⟨final, Reads.cons shown parses, ends, nibble.trans kept,
        congrArg (byte :: ·) consumed⟩

/-- The two bytes of an offset. -/
theorem parses_offset (start : position.state = .matchOffsetLow) (low high : UInt8) :
    ∃ final, Parses position [(.offsetLow, low), (.offsetHigh, high)] final ∧
      final.state = if position.matchLenNibble = 15 then .matchLenExt else .token := by
  have shown : position.state.role = .offsetLow := by rw [start]; rfl
  have after : position.next low = { position with state := .matchOffsetHigh } := by
    rw [next, start]
  refine ⟨(position.next low).next high, Reads.cons shown (Reads.single high ?_), ?_⟩
  · rw [after]
    rfl
  · rw [after]
    rfl

/-- **A sequence** is read in the roles of the decoder, and leads back to a token unless it ends
the output. -/
theorem parses_decodeSequence {size : Nat} {token : UInt8} {output decoded encoded rest : Bytes}
    (start : position.state = .token) (small : size ≤ MAX_LIT_LEN)
    (success : (decodeSequenceRoles size token output encoded).outcome = .ok (decoded, rest)) :
    ∃ final, Parses position
        ((.token, token) :: (decodeSequenceRoles size token output encoded).notes) final ∧
      (decoded.length < size → final.state = .token) ∧
      (decodeSequenceRoles size token output encoded).notes.map Prod.snd ++ rest = encoded := by
  rw [decodeSequenceRoles, Traced.outcome_bind] at success
  obtain ⟨⟨litLen, bytes⟩, lengthRead, continued⟩ := Result.bind_eq_ok.mp success
  obtain ⟨literalStart, parsesLength, atLiterals, nibble, consumedLength⟩ :=
    parses_literalLength start ((Nat.sub_le size output.length).trans small) lengthRead
  rw [decodeSequenceRoles, Traced.notes_bind lengthRead, List.map_append, List.append_assoc]
  dsimp only at continued ⊢
  split at continued
  · cases continued
  · rename_i lacking
    have enough := not_lt.mp lacking
    have length : (bytes.take litLen).length = litLen := List.length_take_of_le enough
    obtain ⟨offsetStart, parsesLiterals, atOffset, kept, consumedLiterals⟩ :=
      @parses_literals literalStart (bytes.take litLen) (by rw [length]; exact atLiterals)
    have whole := List.take_append_drop litLen bytes
    rw [Traced.outcome_bind, Traced.outcome_noteAll, Result.ok_bind] at continued
    rw [if_neg lacking, Traced.notes_bind (Traced.outcome_noteAll _)]
    change ∃ final, Parses position ((Role.token, token) :: (_ ++ (literalRoles _ ++ _))) final ∧
      _ ∧ _ ++ ((literalRoles _ ++ _).map Prod.snd ++ rest) = encoded
    rw [List.map_append, consumedLiterals, List.append_assoc]
    generalize bytes.drop litLen = stream at whole continued ⊢
    split at continued
    · rename_i reached
      cases continued
      rw [if_pos reached]
      refine ⟨offsetStart, ?_, fun unfinished => absurd reached (not_le.mpr unfinished), ?_⟩
      · exact parsesLength.append (parsesLiterals.append (Reads.nil offsetStart))
      · change _ ++ (_ ++ ([] ++ _)) = _
        rw [List.nil_append, whole, consumedLength]
    · rename_i incomplete
      rw [if_neg incomplete]
      rcases stream with _ | ⟨low, _ | ⟨high, stream⟩⟩
      · cases continued
      · cases continued
      · dsimp only at continued ⊢
        obtain ⟨matchStart, parsesOffset, atMatch⟩ := parses_offset atOffset low high
        rw [Traced.outcome_bind, Traced.outcome_noteAll, Result.ok_bind] at continued
        rw [Traced.notes_bind (Traced.outcome_noteAll _)]
        split at continued
        · cases continued
        · rename_i valid
          rw [if_neg valid]
          rw [Traced.outcome_bind] at continued
          obtain ⟨⟨matchLen, left⟩, matchRead, copied⟩ := Result.bind_eq_ok.mp continued
          cases copied
          have opened : matchStart.state =
              if token.toNat &&& 0x0F = 15 then .matchLenExt else .token := by
            rw [atMatch, kept, nibble]
            exact if_congr UInt8.toNat_inj.symm rfl rfl
          obtain ⟨final, parsesMatch, atToken, consumedMatch⟩ :=
            parses_matchLength opened matchRead
          rw [Traced.notes_bind matchRead]
          refine ⟨final, ?_, fun _ => atToken, ?_⟩
          · apply parsesLength.append
            apply parsesLiterals.append
            apply parsesOffset.append
            exact parsesMatch.append (Reads.nil final)
          · rw [List.map_append, List.map_append, List.append_assoc, List.append_assoc]
            change _ ++ (_ ++ low :: high :: (_ ++ left)) = encoded
            rw [consumedMatch, whole, consumedLength]

/-- **The decoder's loop** is read in its roles. -/
theorem parses_decodeLoop {size fuel : Nat} {output decoded encoded : Bytes}
    (start : output.length < size → position.state = .token) (small : size ≤ MAX_LIT_LEN)
    (success : (decodeLoopRoles size fuel output encoded).outcome = .ok decoded) :
    ∃ final, Parses position (decodeLoopRoles size fuel output encoded).notes final ∧
      (decodeLoopRoles size fuel output encoded).notes.map Prod.snd <+: encoded := by
  induction fuel generalizing position output encoded with
  | zero =>
      unfold decodeLoopRoles at success ⊢
      split
      · exact ⟨position, Reads.nil position, List.nil_prefix⟩
      · exact ⟨position, Reads.nil position, List.nil_prefix⟩
  | succ fuel recurse =>
      unfold decodeLoopRoles at success ⊢
      split at success
      · rename_i unfinished
        rw [if_pos unfinished]
        cases encoded with
        | nil => cases success
        | cons token encoded =>
            dsimp only at success ⊢
            rw [Traced.outcome_bind, Traced.outcome_note, Result.ok_bind, Traced.outcome_bind]
              at success
            obtain ⟨⟨next, rest⟩, sequence, continued⟩ := Result.bind_eq_ok.mp success
            obtain ⟨middle, parsesSequence, atToken, consumed⟩ :=
              parses_decodeSequence (start unfinished) small sequence
            obtain ⟨final, parsesRest, prefixed⟩ := recurse atToken continued
            rw [Traced.notes_bind (Traced.outcome_note _), Traced.notes_bind sequence]
            refine ⟨final, parsesSequence.append parsesRest, ?_⟩
            obtain ⟨left, split⟩ := prefixed
            refine ⟨left, ?_⟩
            rw [List.map_append, List.map_append, List.append_assoc, List.append_assoc, split]
            exact congrArg (token :: ·) consumed
      · rename_i reached
        rw [if_neg reached]
        exact ⟨position, Reads.nil position, List.nil_prefix⟩

/-- **The whole decoder** is read in its roles, from the start of a block. -/
theorem parses_lz77DecodeRoles {size : Nat} {decoded encoded : Bytes}
    (start : position.state = .sizePrefix 0)
    (success : (lz77DecodeRoles encoded size).outcome = .ok decoded) :
    ∃ final, Parses position (lz77DecodeRoles encoded size).notes final ∧
      (lz77DecodeRoles encoded size).notes.map Prod.snd <+: encoded := by
  have cap : MAX_LZ77_INPUT_SIZE ≤ MAX_LIT_LEN := by decide
  unfold lz77DecodeRoles at success ⊢
  split at success
  · cases success
  rename_i long
  rw [if_neg long, Traced.notes_bind (Traced.outcome_noteAll _)]
  rw [Traced.outcome_bind, Traced.outcome_noteAll, Result.ok_bind] at success
  dsimp only at success ⊢
  split at success
  · cases success
  rename_i declared
  rw [if_neg declared]
  split at success
  · cases success
  rename_i limited
  rw [if_neg limited]
  rw [Traced.outcome_bind] at success
  obtain ⟨output, looped, sized⟩ := Result.bind_eq_ok.mp success
  split at sized
  · cases sized
  rename_i exactly
  rw [Traced.notes_bind looped, if_neg exactly]
  rcases encoded with _ | ⟨first, _ | ⟨second, _ | ⟨third, _ | ⟨fourth, encoded⟩⟩⟩⟩
  iterate 4 exact absurd (Nat.lt_of_sub_pos (Nat.succ_pos _)) long
  obtain ⟨state, litLenAccum, matchLenNibble⟩ := position
  dsimp only at start
  subst start
  obtain ⟨final, parses, prefixed⟩ := @parses_decodeLoop
    (((Lz4Position.next ⟨.sizePrefix 0, litLenAccum, matchLenNibble⟩ first).next second).next
      third |>.next fourth) _ _ _ output encoded (fun _ => rfl)
    ((not_lt.mp limited).trans cap) looped
  refine ⟨final, ?_, ?_⟩
  · apply Reads.append (Reads.cons rfl (Reads.cons rfl (Reads.cons rfl (Reads.single fourth rfl))))
    exact parses.append (Reads.nil final)
  · rw [List.map_append, List.map_append]
    change [first, second, third, fourth] ++ (_ ++ []) <+: [first, second, third, fourth] ++ encoded
    rw [List.append_nil]
    exact (List.prefix_append_right_inj _).mpr prefixed

end Lz4Position

namespace Lz4AwarePredictor

open CountWords (CodingStep)

variable {formats : FloatFormats}

/-- What decides the states of a predictor. -/
def position (predictor : Lz4AwarePredictor formats) : Lz4Position where
  state := predictor.state
  litLenAccum := predictor.litLenAccum
  matchLenNibble := predictor.matchLenNibble

/-- No model has a say in how a byte is parsed. -/
theorem position_update (predictor : Lz4AwarePredictor formats) (byte : UInt8) :
    (predictor.update byte).position = predictor.position.next byte := by
  obtain ⟨state, _, _, _, _, _, _, _, _, _, _, _, _, _, _, _, _⟩ := predictor
  cases state with
  | sizePrefix byteIndex => rfl
  | token => rfl
  | litLenExt => rfl
  | literals remaining => rfl
  | matchOffsetLow => rfl
  | matchOffsetHigh => rfl
  | matchLenExt => rfl

/-- Predicting leaves the position. -/
theorem position_predict (predictor : Lz4AwarePredictor formats) :
    predictor.predict.2.position = predictor.position := by
  obtain ⟨state, _, _, _, _, _, _, _, _, _, _, _, _, _, _, _, _⟩ := predictor
  cases state with
  | sizePrefix byteIndex => rfl
  | token => rfl
  | litLenExt => rfl
  | literals remaining => rfl
  | matchOffsetLow => rfl
  | matchOffsetHigh => rfl
  | matchLenExt => rfl

theorem position_foldl (bytes : Bytes) (predictor : Lz4AwarePredictor formats) :
    (bytes.foldl update predictor).position = bytes.foldl Lz4Position.next predictor.position :=
  foldl_project position_update bytes predictor

/-- The bytes a coding run feeds. -/
def fed : List CodingStep → Bytes
  | [] => []
  | .update byte :: steps => byte :: fed steps
  | _ :: steps => fed steps

/-- **Predictions, queries and decodings do not move the state machine.** -/
theorem position_run (sorting : UnstableSort Nat) (steps : List CodingStep)
    (predictor : Lz4AwarePredictor formats) :
    (steps.foldl (@CodingStep.run _ (probabilityPredictor formats sorting)) predictor).position =
      (fed steps).foldl Lz4Position.next predictor.position := by
  induction steps generalizing predictor with
  | nil => rfl
  | cons step steps recurse =>
      rw [List.foldl_cons, recurse]
      have unmoved : (fed steps).foldl Lz4Position.next predictor.predict.2.position =
          (fed steps).foldl Lz4Position.next predictor.position := by
        rw [position_predict]
      cases step with
      | predict => exact unmoved
      | query byte => exact unmoved
      | decode freq => exact unmoved
      | update byte =>
          change (fed steps).foldl Lz4Position.next (predictor.update byte).position = _
          rw [position_update]
          rfl

/-- **The predictor parses like the decoder.** After a reset and the bytes in front of one that
the decoder reads, the state machine is in the state of the role the decoder gives that byte,
whatever was predicted between the bytes. -/
theorem parses_like_decoder (predictor : Lz4AwarePredictor formats) (encoded : Bytes) :
    (∀ size decoded, lz77Decode encoded size = .ok decoded →
      (Lz77.lz77DecodeRoles encoded size).outcome = .ok decoded ∧
      (Lz77.lz77DecodeRoles encoded size).notes.map Prod.snd <+: encoded ∧
      ∀ (k : Nat) (read : k < (Lz77.lz77DecodeRoles encoded size).notes.length),
        (((encoded.take k).foldl update predictor.reset).state.role =
          ((Lz77.lz77DecodeRoles encoded size).notes.get ⟨k, read⟩).1) ∧
        ∀ (sorting : UnstableSort Nat) (steps : List CodingStep), fed steps = encoded.take k →
          (steps.foldl (@CodingStep.run _ (probabilityPredictor formats sorting))
            predictor.reset).state.role =
              ((Lz77.lz77DecodeRoles encoded size).notes.get ⟨k, read⟩).1) ∧
      ∀ data, lz77Encode data = some encoded → lz77Decode encoded data.length = .ok data := by
  refine ⟨fun size decoded accepted => ?_, fun data success => (lz77Decode_lz77Encode success).1⟩
  have outcome := (Lz77.outcome_lz77DecodeRoles encoded size).trans accepted
  obtain ⟨final, parses, prefixed⟩ :=
    @Lz4Position.parses_lz77DecodeRoles predictor.reset.position size decoded encoded rfl outcome
  refine ⟨outcome, prefixed, fun k read => ?_⟩
  have taken : ((Lz77.lz77DecodeRoles encoded size).notes.map Prod.snd).take k =
      encoded.take k := by
    obtain ⟨rest, split⟩ := prefixed
    refine (List.take_append_of_le_length ?_).symm.trans (congrArg (List.take k) split)
    rw [List.length_map]
    exact read.le
  have shown := parses.view_foldl read
  rw [taken] at shown
  refine ⟨?_, fun sorting steps same => ?_⟩
  · rw [← position_foldl] at shown
    exact shown
  · rw [← same, ← position_run sorting] at shown
    exact shown

/-- One literal repeated by a match with an extended length: in front of the extension the
predictor expects one. -/
theorem parses_like_decoder_repeated :
    ((([20, 0, 0, 0, 0x1F, 97, 1, 0, 1] : Bytes).take 8).foldl update
      (new : Lz4AwarePredictor (.exact id id id (fun bits => bits) fun _ => 0)).reset).state.role =
        .matchLenExt := by
  have accepted : lz77Decode [20, 0, 0, 0, 0x1F, 97, 1, 0, 1] 20 =
      .ok (List.replicate 20 97) := by
    decide +kernel
  have roles := ((parses_like_decoder
    (new : Lz4AwarePredictor (.exact id id id (fun bits => bits) fun _ => 0))
    [20, 0, 0, 0, 0x1F, 97, 1, 0, 1]).1 20 _ accepted).2.2
  exact (roles 8 (by decide +kernel)).1.trans (by decide +kernel)

end Lz4AwarePredictor

end AetherArch
