import AetherArch.Coding.ZeroRun

/-! # Zero-run coding is a bijection

A decoder accepts one stream only for each decoded text: the one that spells every
maximal run of zeros in its bijective digits. The encoder writes it as long as its run
counter does not wrap around.
-/

namespace AetherArch

/-! ## Run lengths -/

/-- The number that bijective base-2 digits spell, least significant first. -/
def runLength : Bytes → Nat
  | [] => 0
  | digit :: digits => digit.toNat + 1 + 2 * runLength digits

/-- Bytes that are all run digits. -/
def Digits (digits : Bytes) : Prop := ∀ digit ∈ digits, digit ≤ 1

theorem digits_nil : Digits [] := fun _ member => nomatch member

theorem digit_le {digit : UInt8} (small : digit ≤ 1) : digit.toNat ≤ 1 :=
  UInt8.le_iff_toNat_le.mp small

/-- The numeration is bijective: digits are those of the number they spell. -/
theorem encodeRunLength_runLength {digits : Bytes} (valid : Digits digits) :
    encodeRunLength (runLength digits) = digits := by
  induction digits with
  | nil => exact encodeRunLength_zero
  | cons digit digits ih =>
      have small := digit_le (valid digit List.mem_cons_self)
      have low : (runLength (digit :: digits) - 1) % 2 = digit.toNat := by
        rw [runLength]
        omega
      have high : (runLength (digit :: digits) - 1) / 2 = runLength digits := by
        rw [runLength]
        omega
      have positive : 0 < runLength (digit :: digits) := by
        rw [runLength]
        omega
      rw [encodeRunLength_of_pos positive, low, high, UInt8.ofNat_toNat,
        ih fun other member => valid other (List.mem_cons_of_mem _ member)]

theorem runLength_append_digit (digits : Bytes) (digit : UInt8) :
    runLength (digits ++ [digit]) = runLength digits + (digit.toNat + 1) * 2 ^ digits.length := by
  induction digits with
  | nil =>
      simp only [List.nil_append, runLength, List.length_nil, Nat.pow_zero]
      omega
  | cons first digits ih =>
      rw [List.cons_append, runLength, ih, runLength, List.length_cons, Nat.pow_succ]
      ring

/-- The run that digits leave pending. -/
def pendingRun (digits : Bytes) : Option RunDigits :=
  if digits = [] then none
  else some { runLen := min (runLength digits) (2 ^ 64 - 1)
              power := min (2 ^ digits.length) (2 ^ 64 - 1) }

/-- Saturation keeps the smaller of the spelled number and the largest word. -/
theorem pendingRun_read (digits : Bytes) {digit : UInt8} (small : digit ≤ 1) :
    some (((pendingRun digits).getD .new).read digit) = pendingRun (digits ++ [digit]) := by
  have bit := digit_le small
  have start : (pendingRun digits).getD .new =
      { runLen := min (runLength digits) (2 ^ 64 - 1)
        power := min (2 ^ digits.length) (2 ^ 64 - 1) } := by
    rw [pendingRun]
    split
    · rename_i empty
      subst empty
      rfl
    · rfl
  rw [start, pendingRun, if_neg (by simp), runLength_append_digit, List.length_append,
    List.length_singleton, pow_succ 2 digits.length]
  generalize runLength digits = length
  generalize 2 ^ digits.length = power
  rcases Nat.le_one_iff_eq_zero_or_eq_one.mp bit with zero | one
  · simp only [RunDigits.read, saturatingAdd, saturatingMul, zero]
    congr 2 <;> omega
  · simp only [RunDigits.read, saturatingAdd, saturatingMul, one]
    congr 2 <;> omega

/-! ## Spelling -/

/-- The stream of a text after a pending run, were the run counter unbounded. -/
def spellRuns (coding : RunCoding) : (run : Nat) → Bytes → Bytes
  | run, [] => encodeRunLength run
  | run, value :: rest =>
      if value = 0 then spellRuns coding (run + 1) rest
      else encodeRunLength run ++ coding.literal value ++ spellRuns coding 0 rest

/-- The run counter does not wrap around in shorter texts. -/
theorem encodeRuns_eq_spellRuns (coding : RunCoding) {run : Nat} {data : Bytes}
    (short : run + data.length < 2 ^ 32) :
    encodeRuns coding run data = spellRuns coding run data := by
  induction data generalizing run with
  | nil => rfl
  | cons value data ih =>
      rw [List.length_cons] at short
      rw [encodeRuns, spellRuns, Nat.mod_eq_of_lt (show run + 1 < 2 ^ 32 by omega),
        ih (show run + 1 + data.length < 2 ^ 32 by omega),
        ih (show 0 + data.length < 2 ^ 32 by omega)]

/-- Zeros join the pending run. -/
theorem spellRuns_zeros (coding : RunCoding) (run n : Nat) (rest : Bytes) :
    spellRuns coding run (List.replicate n 0 ++ rest) = spellRuns coding (run + n) rest := by
  induction n generalizing run with
  | zero => rfl
  | succ n ih =>
      rw [List.replicate_succ, List.cons_append, spellRuns, if_pos rfl, ih, Nat.add_assoc,
        Nat.add_comm 1]

/-- A run of zeros counts up to the width of the encoder's counter. -/
theorem encodeRuns_zeros (coding : RunCoding) {run : Nat} (inside : run < 2 ^ 32) (n : Nat) :
    encodeRuns coding run (List.replicate n 0) = encodeRunLength ((run + n) % 2 ^ 32) := by
  induction n generalizing run with
  | zero => rw [List.replicate_zero, encodeRuns, Nat.add_zero, Nat.mod_eq_of_lt inside]
  | succ n ih =>
      rw [List.replicate_succ, encodeRuns, if_pos rfl, ih (Nat.mod_lt _ (by decide)),
        Nat.mod_add_mod, Nat.add_assoc, Nat.add_comm 1]

/-! ## Canonicity -/

/-- A run that is written out is the one its digits spell: a saturated length is longer
than any room left. -/
theorem writeRun_pendingRun {expectedSize : Nat} {output written digits : Bytes}
    (room : expectedSize < 2 ^ 64 - 1)
    (success : writeRun expectedSize output (pendingRun digits) = .ok written) :
    written = output ++ List.replicate (runLength digits) 0 := by
  rw [pendingRun] at success
  split at success
  · rename_i empty
    subst empty
    cases success
    rw [runLength, List.replicate_zero, List.append_nil]
  · rw [writeRun] at success
    dsimp only at success
    split at success
    · cases success
    · rename_i fits
      cases success
      rw [Nat.min_eq_left (by omega)]

/-- A literal symbol is the coding of the value it is decoded to. -/
theorem literal_sub_one {coding : RunCoding} {symbol : UInt8} (literal : ¬symbol ≤ 1)
    (plain : ¬(coding = .escaped ∧ symbol = 255)) :
    symbol - 1 ≠ 0 ∧ coding.literal (symbol - 1) = [symbol] ∧ coding.Represents (symbol - 1) := by
  have above : 1 < symbol.toNat := by
    rw [UInt8.le_iff_toNat_le] at literal
    exact not_le.mp literal
  have below : symbol.toNat < 256 := symbol.toNat_lt
  have lowered : (symbol - 1).toNat = symbol.toNat - 1 :=
    UInt8.toNat_sub_of_le _ _ (UInt8.le_iff_toNat_le.mpr above.le)
  refine ⟨?_, ?_, ?_⟩
  · intro zero
    rw [zero] at lowered
    change 0 = symbol.toNat - 1 at lowered
    omega
  · cases coding with
    | standard => rw [RunCoding.literal, UInt8.sub_add_cancel]
    | escaped =>
        have unescaped : symbol.toNat ≠ 255 := fun maximal =>
          plain ⟨rfl, UInt8.toNat_inj.mp maximal⟩
        have small : symbol - 1 < 254 := by
          rw [UInt8.lt_iff_toNat_lt, lowered]
          change symbol.toNat - 1 < 254
          omega
        rw [RunCoding.literal, if_pos small, UInt8.sub_add_cancel]
  · intro _ maximal
    rw [maximal] at lowered
    change 255 = symbol.toNat - 1 at lowered
    omega

/-- The escapes leave no value without bytes. -/
theorem escaped_represents (value : UInt8) : RunCoding.escaped.Represents value :=
  fun standard => nomatch standard

/-- What a stream decodes to after the digits of a pending run spells them and the stream. -/
def SpelledBy (coding : RunCoding) (output decoded stream : Bytes) : Prop :=
  ∃ tail, decoded = output ++ tail ∧ spellRuns coding 0 tail = stream ∧
    ∀ value ∈ tail, coding.Represents value

/-- A written run and a literal in front of a text are spelled in front of its stream. -/
theorem SpelledBy.literal {coding : RunCoding} {output decoded digits stream : Bytes}
    {value : UInt8} (valid : Digits digits) (nonzero : value ≠ 0)
    (represents : coding.Represents value)
    (rest : SpelledBy coding (output ++ List.replicate (runLength digits) 0 ++ [value])
      decoded stream) :
    SpelledBy coding output decoded (digits ++ coding.literal value ++ stream) := by
  obtain ⟨tail, rfl, spelled, representable⟩ := rest
  refine ⟨List.replicate (runLength digits) 0 ++ value :: tail, by simp, ?_, ?_⟩
  · rw [spellRuns_zeros, spellRuns, if_neg nonzero, Nat.zero_add, encodeRunLength_runLength valid,
      spelled]
  · intro other member
    rcases List.mem_append.mp member with zero | later
    · rw [List.eq_of_mem_replicate zero]
      exact fun _ => by decide
    · rcases List.mem_cons.mp later with rfl | later
      · exact represents
      · exact representable other later

/-- **The decoder neither merges nor splits runs**: from any pending run on, what is left of
an accepted stream spells what is left of its text. -/
theorem spelledBy_of_decodeRuns (coding : RunCoding) {expectedSize : Nat}
    (room : expectedSize < 2 ^ 64 - 1) {position : Nat} {output decoded digits stream : Bytes}
    (valid : Digits digits)
    (success : decodeRuns coding expectedSize position output (pendingRun digits) stream =
      .ok decoded) : SpelledBy coding output decoded (digits ++ stream) := by
  induction hlen : stream.length using Nat.strongRecOn
    generalizing stream position output digits with
  | ind length ih =>
  cases stream with
  | nil =>
      rw [decodeRuns] at success
      have written := writeRun_pendingRun room success
      refine ⟨List.replicate (runLength digits) 0, written, ?_, ?_⟩
      · have spelled := spellRuns_zeros coding 0 (runLength digits) []
        rw [List.append_nil, Nat.zero_add] at spelled
        rw [spelled, spellRuns, encodeRunLength_runLength valid, List.append_nil]
      · intro value member
        rw [List.eq_of_mem_replicate member]
        exact fun _ => by decide
  | cons symbol rest =>
      rw [List.length_cons] at hlen
      rw [decodeRuns] at success
      split at success
      · rename_i small
        rw [pendingRun_read digits small] at success
        have longer : Digits (digits ++ [symbol]) := by
          intro digit member
          rcases List.mem_append.mp member with earlier | last
          · exact valid digit earlier
          · rw [List.mem_singleton.mp last]
            exact small
        have spelled := ih rest.length (by omega) longer success rfl
        rwa [List.append_assoc] at spelled
      · rename_i literal
        split at success
        · cases success
        · rename_i written ran
          have run := writeRun_pendingRun room ran
          subst run
          -- No digits are pending after a literal.
          have next {value : UInt8} {rest' : Bytes} {position' : Nat}
              (shorter : rest'.length < length)
              (decodes : decodeRuns coding expectedSize position'
                (output ++ List.replicate (runLength digits) 0 ++ [value]) none rest' =
                  .ok decoded) :
              SpelledBy coding (output ++ List.replicate (runLength digits) 0 ++ [value])
                decoded rest' :=
            ih rest'.length shorter digits_nil decodes rfl
          split at success
          · rename_i escape
            obtain ⟨rfl, rfl⟩ := escape
            cases rest with
            | nil => cases success
            | cons suffix rest =>
                rw [List.length_cons] at hlen
                dsimp only at success
                split at success
                · cases success
                · split at success
                  · rename_i second
                    subst second
                    have spelled := (next (by omega) success).literal valid (by decide)
                      (escaped_represents 254)
                    rwa [List.append_assoc] at spelled
                  · split at success
                    · rename_i third
                      subst third
                      have spelled := (next (by omega) success).literal valid (by decide)
                        (escaped_represents 255)
                      rwa [List.append_assoc] at spelled
                    · cases success
          · rename_i plain
            split at success
            · cases success
            · obtain ⟨nonzero, coded, represents⟩ := literal_sub_one literal plain
              have spelled := (next (by omega) success).literal valid nonzero represents
              rw [coded, List.append_assoc, List.singleton_append] at spelled
              exact spelled

/-- An accepted stream is the spelling of its text, which has the expected size. -/
theorem spellRuns_of_decodeRunsExact {coding : RunCoding} {stream decoded : Bytes}
    {expectedSize : Nat} (room : expectedSize < 2 ^ 64 - 1)
    (success : decodeRunsExact coding stream expectedSize = .ok decoded) :
    decoded.length = expectedSize ∧ spellRuns coding 0 decoded = stream ∧
      ∀ value ∈ decoded, coding.Represents value := by
  rw [decodeRunsExact] at success
  split at success
  · cases success
  · rename_i output decodes
    split at success
    · cases success
    · rename_i size
      cases success
      obtain ⟨tail, rfl, spelled, represents⟩ := spelledBy_of_decodeRuns coding room
        digits_nil decodes
      exact ⟨not_not.mp size, spelled, represents⟩

/-- Digits are read into the pending run they add up to. -/
theorem decodeRuns_digits (coding : RunCoding) (expectedSize position : Nat) (output : Bytes)
    {digits : Bytes} (read : Bytes) (valid : Digits digits) :
    decodeRuns coding expectedSize position output (pendingRun read) digits =
      writeRun expectedSize output (pendingRun (read ++ digits)) := by
  induction digits generalizing position read with
  | nil => rw [decodeRuns, List.append_nil]
  | cons digit digits ih =>
      have small := valid digit List.mem_cons_self
      rw [decodeRuns, if_pos small, pendingRun_read read small,
        ih (position + 1) (read ++ [digit]) fun other member =>
          valid other (List.mem_cons_of_mem _ member),
        List.append_assoc, List.singleton_append]

/-- A stream of digits alone decodes to as many zeros as they spell. -/
theorem decodeRunsExact_digits (coding : RunCoding) {digits : Bytes} {n : Nat}
    (valid : Digits digits) (nonempty : digits ≠ []) (spells : runLength digits = n)
    (room : n < 2 ^ 64 - 1) :
    decodeRunsExact coding digits n = .ok (List.replicate n 0) := by
  have read := decodeRuns_digits coding n 0 [] [] valid
  have written : writeRun n [] (pendingRun digits) = .ok (List.replicate n 0) := by
    rw [pendingRun, if_neg nonempty, spells, writeRun]
    simp only [Nat.min_eq_left room.le, List.length_nil, Nat.sub_zero, gt_iff_lt, lt_irrefl,
      ↓reduceIte, List.nil_append]
  have decoded : decodeRuns coding n 0 [] none digits = .ok (List.replicate n 0) :=
    read.trans written
  rw [decodeRunsExact, decoded]
  simp only [List.length_replicate, ne_eq, not_true_eq_false, ↓reduceIte]

/-! ## The bijection -/

/-- The standard form encodes a text without the value 255 by its runs. -/
theorem rleEncode_of_represents {data : Bytes}
    (represents : ∀ value ∈ data, RunCoding.standard.Represents value) :
    rleEncode data = some (encodeRuns .standard 0 data) := by
  rw [rleEncode, if_neg]
  intro contained
  exact represents 255 (List.contains_iff_mem.mp contained) rfl rfl

/-- **Zero-run coding is a bijection onto what its decoder accepts.** Encoding undoes decoding
below 2^32 bytes, and no two streams decode to the same text at any size below the largest
word. -/
theorem zeroRun_bijection :
    (∀ data : Bytes, data.length < 2 ^ 32 →
      rleDecodeEscaped (rleEncodeEscaped data) data.length = .ok data ∧
        (255 ∉ data → ∃ stream, rleEncode data = some stream ∧
          rleDecode stream data.length = .ok data)) ∧
      (∀ (stream decoded : Bytes) (n : Nat), n < 2 ^ 32 →
        (rleDecode stream n = .ok decoded → rleEncode decoded = some stream) ∧
          (rleDecodeEscaped stream n = .ok decoded → rleEncodeEscaped decoded = stream)) ∧
      ∀ (first second decoded : Bytes) (n m : Nat), n < 2 ^ 64 - 1 → m < 2 ^ 64 - 1 →
        (rleDecode first n = .ok decoded → rleDecode second m = .ok decoded →
          n = decoded.length ∧ m = decoded.length ∧ first = second) ∧
          (rleDecodeEscaped first n = .ok decoded → rleDecodeEscaped second m = .ok decoded →
            n = decoded.length ∧ m = decoded.length ∧ first = second) := by
  have canonical {coding : RunCoding} {stream decoded : Bytes} {n : Nat} (below : n < 2 ^ 32)
      (success : decodeRunsExact coding stream n = .ok decoded) :
      encodeRuns coding 0 decoded = stream ∧ ∀ value ∈ decoded, coding.Represents value := by
    obtain ⟨size, spelled, represents⟩ := spellRuns_of_decodeRunsExact (by omega) success
    rw [encodeRuns_eq_spellRuns coding (by omega)]
    exact ⟨spelled, represents⟩
  have distinct {coding : RunCoding} {first second decoded : Bytes} {n m : Nat}
      (roomFirst : n < 2 ^ 64 - 1) (roomSecond : m < 2 ^ 64 - 1)
      (decodesFirst : decodeRunsExact coding first n = .ok decoded)
      (decodesSecond : decodeRunsExact coding second m = .ok decoded) :
      n = decoded.length ∧ m = decoded.length ∧ first = second := by
    obtain ⟨sizeFirst, spelledFirst, -⟩ := spellRuns_of_decodeRunsExact roomFirst decodesFirst
    obtain ⟨sizeSecond, spelledSecond, -⟩ := spellRuns_of_decodeRunsExact roomSecond decodesSecond
    exact ⟨sizeFirst.symm, sizeSecond.symm, spelledFirst.symm.trans spelledSecond⟩
  refine ⟨fun data short => ⟨?_, fun absent => ?_⟩, fun stream decoded n below => ⟨?_, ?_⟩,
    fun first second decoded n m roomFirst roomSecond =>
      ⟨distinct roomFirst roomSecond, distinct roomFirst roomSecond⟩⟩
  · exact decodeRunsExact_encodeRuns .escaped (fun value _ => escaped_represents value) short
  · have represents : ∀ value ∈ data, RunCoding.standard.Represents value := by
      rintro value member - rfl
      exact absent member
    exact ⟨_, rleEncode_of_represents represents,
      decodeRunsExact_encodeRuns .standard represents short⟩
  · intro success
    obtain ⟨spelled, represents⟩ := canonical below success
    rw [rleEncode_of_represents represents, spelled]
  · intro success
    exact (canonical below success).1

/-- At 2^32 zeros the decoder accepts the digits of the run, whereas the encoder's counter has
wrapped around and writes none. -/
theorem zeroRun_wraps :
    rleDecode (1 :: List.replicate 31 0) (2 ^ 32) = .ok (List.replicate (2 ^ 32) 0) ∧
      rleEncode (List.replicate (2 ^ 32) 0) ≠ some (1 :: List.replicate 31 0) ∧
      rleDecodeEscaped (1 :: List.replicate 31 0) (2 ^ 32) = .ok (List.replicate (2 ^ 32) 0) ∧
      rleEncodeEscaped (List.replicate (2 ^ 32) 0) ≠ 1 :: List.replicate 31 0 := by
  have valid : Digits (1 :: List.replicate 31 0) := by
    intro digit member
    rcases List.mem_cons.mp member with rfl | zero
    · decide
    · rw [List.eq_of_mem_replicate zero]
      decide
  have spells : runLength (1 :: List.replicate 31 0) = 2 ^ 32 := by decide
  have wrapped (coding : RunCoding) : encodeRuns coding 0 (List.replicate (2 ^ 32) 0) = [] := by
    rw [encodeRuns_zeros coding (by decide), Nat.zero_add, Nat.mod_self, encodeRunLength_zero]
  have represents : ∀ value ∈ List.replicate (2 ^ 32) (0 : UInt8),
      RunCoding.standard.Represents value := by
    intro value member
    rw [List.eq_of_mem_replicate member]
    exact fun _ => by decide
  refine ⟨decodeRunsExact_digits .standard valid (List.cons_ne_nil _ _) spells (by decide), ?_,
    decodeRunsExact_digits .escaped valid (List.cons_ne_nil _ _) spells (by decide), ?_⟩
  · rw [rleEncode_of_represents represents, wrapped]
    intro same
    cases same
  · rw [rleEncodeEscaped, wrapped]
    intro same
    cases same

end AetherArch
