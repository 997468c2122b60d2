import Mathlib.Tactic
import AetherArch.Coding.Lz77

/-! # LZ77 round trip

Every match the finder returns has been compared byte for byte against earlier input,
whatever entries the hash chain holds. The decoder's output is therefore always the
prefix of the input that the encoder has consumed.
-/

namespace AetherArch

namespace Lz77

/-- The bytes at a position repeat those an offset back. -/
structure IsMatch (data : Bytes) (pos offset len : Nat) : Prop where
  offset_pos : 0 < offset
  offset_le : offset ≤ pos
  offset_lt : offset < WINDOW_SIZE
  minimum : MIN_MATCH ≤ len
  inside : pos + len ≤ data.length
  repeats : ∀ k < len, data.getD (pos - offset + k) 0 = data.getD (pos + k) 0

theorem commonLength_le (first second : Bytes) :
    commonLength first second ≤ second.length := by
  fun_induction commonLength first second with
  | case1 x a b recurse => simpa using recurse
  | case2 => exact Nat.zero_le _
  | case3 => exact Nat.zero_le _

/-- The shared leading bytes are shared. -/
theorem getD_commonLength {first second : Bytes} {k : Nat}
    (below : k < commonLength first second) : first.getD k 0 = second.getD k 0 := by
  induction first generalizing second k with
  | nil => simp only [commonLength, Nat.not_lt_zero] at below
  | cons x a recurse =>
      cases second with
      | nil => simp only [commonLength, Nat.not_lt_zero] at below
      | cons y b =>
          simp only [commonLength] at below
          split at below
          · rename_i same
            cases k with
            | zero => simpa only [List.getD_cons_zero] using same
            | succ k =>
                simp only [List.getD_cons_succ]
                exact recurse (by omega)
          · exact absurd below (Nat.not_lt_zero _)

/-- Two positions that agree on two bytes and then on a common prefix are a match. -/
theorem isMatch_of_commonLength {data : Bytes} {pos refPos maxLen : Nat} (earlier : refPos < pos)
    (near : pos - refPos < WINDOW_SIZE) (room : pos + 2 ≤ data.length)
    (first : data.getD refPos 0 = data.getD pos 0)
    (second : data.getD (refPos + 1) 0 = data.getD (pos + 1) 0)
    (long : MIN_MATCH ≤ 2 + commonLength ((data.drop (refPos + 2)).take (maxLen - 2))
      ((data.drop (pos + 2)).take (maxLen - 2))) :
    IsMatch data pos ((pos - refPos) % 2 ^ 16)
      (2 + commonLength ((data.drop (refPos + 2)).take (maxLen - 2))
        ((data.drop (pos + 2)).take (maxLen - 2))) := by
  have small : (pos - refPos) % 2 ^ 16 = pos - refPos := Nat.mod_eq_of_lt near
  rw [small]
  set common := commonLength ((data.drop (refPos + 2)).take (maxLen - 2))
    ((data.drop (pos + 2)).take (maxLen - 2)) with commonDef
  have bounded := commonLength_le ((data.drop (refPos + 2)).take (maxLen - 2))
    ((data.drop (pos + 2)).take (maxLen - 2))
  rw [← commonDef, List.length_take, List.length_drop] at bounded
  refine ⟨by omega, by omega, near, long, by omega, ?_⟩
  intro k below
  have back : pos - (pos - refPos) = refPos := by omega
  rw [back]
  match k, below with
  | 0, _ => exact first
  | 1, _ => exact second
  | k + 2, below =>
      have shared := getD_commonLength (show k < common by omega)
      have beneath : k < maxLen - 2 := by omega
      simp only [List.getD_eq_getElem?_getD, List.getElem?_take_of_lt beneath,
        List.getElem?_drop] at shared
      simp only [List.getD_eq_getElem?_getD]
      rw [show refPos + (k + 2) = refPos + 2 + k by omega,
        show pos + (k + 2) = pos + 2 + k by omega]
      exact shared

/-- The walk keeps the best match found so far, if there is one. -/
theorem MatchFinder.walkChain_isMatch (finder : MatchFinder) {data : Bytes} {pos : Nat}
    (maxLen : Nat) (room : pos + 2 ≤ data.length) (chains refPos lastRefPos : Nat)
    {bestOffset bestLen : Nat}
    (best : bestLen = MIN_MATCH - 1 ∨ IsMatch data pos bestOffset bestLen) :
    (finder.walkChain data pos maxLen chains refPos lastRefPos bestOffset bestLen).2 =
        MIN_MATCH - 1 ∨
      IsMatch data pos
        (finder.walkChain data pos maxLen chains refPos lastRefPos bestOffset bestLen).1
        (finder.walkChain data pos maxLen chains refPos lastRefPos bestOffset bestLen).2 := by
  induction chains generalizing refPos lastRefPos bestOffset bestLen with
  | zero => exact best
  | succ chains recurse =>
      rw [walkChain]
      have longEnough : MIN_MATCH - 1 ≤ bestLen := by
        rcases best with none | found
        · exact none.ge
        · exact le_trans (Nat.sub_le _ _) found.minimum
      simp only [MIN_MATCH] at longEnough
      split
      · exact best
      split
      · exact best
      rename_i near
      split
      · exact best
      simp only
      split
      · rename_i same
        split
        · rename_i longer
          have isMatch : IsMatch data pos ((pos - refPos) % 2 ^ 16)
              (2 + commonLength ((data.drop (refPos + 2)).take (maxLen - 2))
                ((data.drop (pos + 2)).take (maxLen - 2))) :=
            isMatch_of_commonLength (by omega) (by omega) room same.2.1 same.2.2
              (by simp only [MIN_MATCH]; omega)
          split
          · exact .inr isMatch
          · exact recurse _ _ (.inr isMatch)
        · exact recurse _ _ best
      · exact recurse _ _ best

/-- **Whatever the chain holds, a match returned is a match.** -/
theorem MatchFinder.findBest_isMatch {finder : MatchFinder} {data : Bytes} {pos hash : Nat}
    {offset len : Nat} (room : pos + 2 ≤ data.length)
    (found : finder.findBest data pos hash = some (offset, len)) :
    IsMatch data pos offset len := by
  have walked := @finder.walkChain_isMatch data pos (min (data.length - pos) MAX_MATCH) room
    MAX_CHAIN (finder.head hash) pos 0 (MIN_MATCH - 1) (.inl rfl)
  simp only [findBest] at found
  split at found
  · rename_i long
    rw [Option.some.inj found] at walked long
    rcases walked with short | isMatch
    · simp only [MIN_MATCH] at short long
      omega
    · exact isMatch
  · cases found

/-! ## Copying a match -/

/-- Appending a chunk that repeats earlier output extends the prefix of the input. -/
theorem take_append_chunk {data : Bytes} {produced offset : Nat} (chunk : Nat)
    (back : offset ≤ produced) (whole : chunk ≤ offset) (inside : produced + chunk ≤ data.length)
    (repeats : ∀ k < chunk, data.getD (produced - offset + k) 0 = data.getD (produced + k) 0) :
    data.take produced ++ ((data.take produced).drop
        ((data.take produced).length - offset)).take chunk =
      data.take (produced + chunk) := by
  have length : (data.take produced).length = produced := by rw [List.length_take]; omega
  rw [length, List.take_add]
  congr 1
  apply List.ext_getElem
  · simp only [List.length_take, List.length_drop]
    omega
  · intro k left right
    have below : k < chunk := lt_of_lt_of_le left (by simp only [List.length_take]; omega)
    have same := repeats k below
    simp only [List.getD_eq_getElem?_getD] at same
    rw [List.getElem?_eq_getElem (by omega), List.getElem?_eq_getElem (by omega)] at same
    simpa only [List.getElem_take, List.getElem_drop, Option.getD_some] using same

theorem copyOverlapping_take {data : Bytes} {produced offset remaining : Nat}
    (positive : 0 < offset) (back : offset ≤ produced)
    (inside : produced + remaining ≤ data.length)
    (repeats : ∀ k < remaining,
      data.getD (produced - offset + k) 0 = data.getD (produced + k) 0) :
    copyOverlapping offset (data.take produced) remaining = data.take (produced + remaining) := by
  induction remaining using Nat.strong_induction_on generalizing produced with
  | _ remaining recurse =>
      rw [copyOverlapping]
      split
      · rename_i more
        have step := take_append_chunk (min remaining offset) back (Nat.min_le_right _ _)
          (by omega) fun k below => repeats k (by omega)
        simp only
        rw [step, recurse (remaining - min remaining offset) (by omega) (by omega) (by omega)]
        · congr 1
          omega
        · intro k below
          have later := repeats (min remaining offset + k) (by omega)
          rw [show produced + min remaining offset - offset + k =
            produced - offset + (min remaining offset + k) by omega, later]
          congr 1
          omega
      · have nothing : remaining = 0 := by omega
        rw [nothing, Nat.add_zero]

/-- **Copying a match extends the decoded prefix by it.** -/
theorem copyMatch_take {data : Bytes} {pos offset len : Nat}
    (isMatch : IsMatch data pos offset len) :
    copyMatch offset len (data.take pos) = data.take (pos + len) := by
  rw [copyMatch]
  split
  · rename_i whole
    exact take_append_chunk len isMatch.offset_le whole isMatch.inside isMatch.repeats
  · exact copyOverlapping_take isMatch.offset_pos isMatch.offset_le isMatch.inside isMatch.repeats

/-! ## Length fields -/

/-- A length extension reads back what it adds, when the capacity allows it. -/
theorem readExtension_lengthExtension (what : String) {remaining len added : Nat}
    (fits : len + added ≤ remaining) (rest : Bytes) :
    readExtension what remaining len (lengthExtension added ++ rest) = .ok (len + added, rest) := by
  induction added using Nat.strong_induction_on generalizing len with
  | _ added recurse =>
      rw [lengthExtension]
      split
      · rename_i full
        have within : ¬len + (255 : UInt8).toNat > remaining := by
          change ¬len + 255 > remaining
          omega
        have more : ¬(255 : UInt8) < 255 := by decide
        have value : len + (255 : UInt8).toNat + (added - 255) = len + added := by
          change len + 255 + (added - 255) = _
          omega
        rw [List.cons_append, readExtension]
        simp only [within, more, ↓reduceIte]
        rw [recurse (added - 255) (by omega) (by omega), value]
      · rename_i short
        have byte : (UInt8.ofNat added).toNat = added := UInt8.toNat_ofNat_of_lt' (by
          change added < 256
          omega)
        have last : UInt8.ofNat added < 255 := by
          rw [UInt8.lt_iff_toNat_lt, byte]
          change added < 255
          omega
        simp only [List.cons_append, List.nil_append, readExtension, byte, last, ↓reduceIte]
        rw [if_neg (by omega)]

/-- A length written as a nibble and its extension reads back over any base. -/
theorem readLength_extension (what : String) {remaining base len : Nat}
    (fits : len + base ≤ remaining) (rest : Bytes) :
    readLength what remaining base (min len 15) (extension len ++ rest) =
      .ok (len + base, rest) := by
  by_cases long : len ≥ 15
  · rw [readLength, Nat.min_eq_right long, if_pos rfl, extension, if_pos long,
      readExtension_lengthExtension what (by omega)]
    congr 2
    omega
  · rw [readLength, extension, if_neg long, Nat.min_eq_left (by omega), if_neg (by omega),
      List.nil_append]

/-- The two nibbles of a token. -/
theorem token_nibbles {high low : Nat} (highFits : high < 16) (lowFits : low < 16) :
    (UInt8.ofNat (high <<< 4 ||| low)).toNat >>> 4 = high ∧
      (UInt8.ofNat (high <<< 4 ||| low)).toNat &&& 0x0F = low := by
  have sum : high <<< 4 ||| low = high * 16 + low := by
    rw [← Nat.shiftLeft_add_eq_or_of_lt (i := 4) lowFits, Nat.shiftLeft_eq]
  have byte : (UInt8.ofNat (high * 16 + low)).toNat = high * 16 + low :=
    UInt8.toNat_ofNat_of_lt' (by
      change high * 16 + low < 256
      omega)
  rw [sum, byte, Nat.shiftRight_eq_div_pow, show (0x0F : Nat) = 2 ^ 4 - 1 from rfl,
    Nat.and_two_pow_sub_one_eq_mod]
  omega

/-- The two offset bytes. -/
theorem offset_bytes {offset : Nat} (fits : offset < WINDOW_SIZE) :
    (UInt8.ofNat offset).toNat ||| (UInt8.ofNat (offset >>> 8)).toNat <<< 8 = offset := by
  have high : offset >>> 8 < 256 := by
    rw [Nat.shiftRight_eq_div_pow]
    simp only [WINDOW_SIZE] at fits
    omega
  have low : (UInt8.ofNat offset).toNat = offset % 256 := rfl
  rw [low, UInt8.toNat_ofNat_of_lt' high, Nat.or_comm,
    ← Nat.shiftLeft_add_eq_or_of_lt (i := 8) (Nat.mod_lt _ (by norm_num)), Nat.shiftLeft_eq,
    Nat.shiftRight_eq_div_pow]
  omega

/-! ## Sequences -/

/-- Literals after the decoded prefix give the prefix up to the match. -/
theorem take_append_literals {data : Bytes} {litStart pos : Nat} (ordered : litStart ≤ pos) :
    data.take litStart ++ (data.drop litStart).take (pos - litStart) = data.take pos := by
  rw [← List.take_add, Nat.add_sub_cancel' ordered]

/-- The token of a sequence and the bytes after it. -/
theorem emitSequence_append {data literals : Bytes} {litStart pos offset len : Nat} (rest : Bytes)
    (ordered : litStart ≤ pos) (isMatch : IsMatch data pos offset len)
    (source : literals = (data.drop litStart).take (pos - litStart)) :
    ∃ token encoded, emitSequence literals offset len ++ rest = token :: encoded ∧
      decodeSequence data.length token (data.take litStart) encoded =
        .ok (data.take (pos + len), rest) := by
  have inside := isMatch.inside
  have minimum := isMatch.minimum
  have litLen : literals.length = pos - litStart := by
    rw [source, List.length_take, List.length_drop]
    omega
  have prefixLen : (data.take litStart).length = litStart := by rw [List.length_take]; omega
  have grown : data.take litStart ++ literals = data.take pos := by
    rw [source, take_append_literals ordered]
  have grownLen : (data.take pos).length = pos := by rw [List.length_take]; omega
  obtain ⟨highNibble, lowNibble⟩ := token_nibbles
    (show min literals.length 15 < 16 by omega) (show min (len - MIN_MATCH) 15 < 16 by omega)
  refine ⟨_, _, rfl, ?_⟩
  have readLiterals (encoded : Bytes) : readLength "lit_len" (data.length - litStart) 0
      (min literals.length 15) (extension literals.length ++ encoded) =
        .ok (literals.length, encoded) :=
    readLength_extension "lit_len" (by omega) encoded
  simp only [MIN_MATCH] at minimum
  have enough (encoded : Bytes) : ¬literals.length > (literals ++ encoded).length := by
    rw [List.length_append]
    omega
  have offsetPos := isMatch.offset_pos
  have offsetLe := isMatch.offset_le
  have readMatch := readLength_extension "match_len"
    (show len - MIN_MATCH + MIN_MATCH ≤ data.length - pos by simp only [MIN_MATCH]; omega) rest
  rw [Nat.sub_add_cancel isMatch.minimum] at readMatch
  simp only [decodeSequence, List.append_eq, List.append_assoc, highNibble, lowNibble, prefixLen,
    readLiterals, Result.ok_bind, enough, ↓reduceIte, List.take_left, List.drop_left, grown,
    grownLen]
  rw [if_neg (by omega)]
  simp only [List.cons_append, List.nil_append, offset_bytes isMatch.offset_lt]
  rw [if_neg (by omega), readMatch]
  simp only [Result.ok_bind, copyMatch_take isMatch]

/-- The last sequence completes the output. -/
theorem emitFinalLiterals_decode {data : Bytes} {litStart : Nat}
    (remaining : litStart < data.length) :
    ∃ token encoded, emitFinalLiterals (data.drop litStart) = token :: encoded ∧
      decodeSequence data.length token (data.take litStart) encoded = .ok (data, []) := by
  have litLen : (data.drop litStart).length = data.length - litStart := List.length_drop
  have prefixLen : (data.take litStart).length = litStart := by rw [List.length_take]; omega
  obtain ⟨highNibble, lowNibble⟩ := token_nibbles
    (show min (data.drop litStart).length 15 < 16 by omega) (show 0 < 16 by omega)
  simp only [Nat.or_zero] at highNibble
  refine ⟨_, _, rfl, ?_⟩
  have readLiterals := readLength_extension "lit_len"
    (show (data.drop litStart).length + 0 ≤ data.length - litStart by omega) (data.drop litStart)
  simp only [decodeSequence, highNibble, prefixLen, readLiterals, Result.ok_bind, Nat.add_zero,
    gt_iff_lt, lt_irrefl, ↓reduceIte, List.take_length, List.drop_length, List.take_append_drop,
    ge_iff_le, le_refl]

theorem decodeLoop_complete {data encoded : Bytes} (fuel : Nat) :
    decodeLoop data.length fuel data encoded = .ok data := by
  cases fuel with
  | zero => simp only [decodeLoop, lt_irrefl, ↓reduceIte]
  | succ fuel => simp only [decodeLoop, lt_irrefl, ↓reduceIte]

/-- One decoder round over a sequence. -/
theorem decodeLoop_cons {originalSize fuel : Nat} {output encoded next rest : Bytes}
    {token : UInt8} (incomplete : output.length < originalSize)
    (decoded : decodeSequence originalSize token output encoded = .ok (next, rest)) :
    decodeLoop originalSize (fuel + 1) output (token :: encoded) =
      decodeLoop originalSize fuel next rest := by
  rw [decodeLoop, if_pos incomplete]
  simp only [decoded]

/-- **The decoder follows the encoder from any of its states.** -/
theorem decodeLoop_encodeLoop {data : Bytes} {encodeFuel : Nat} (finder : MatchFinder)
    {pos litStart : Nat} (deferred : Bool) {decodeFuel : Nat} (ordered : litStart ≤ pos)
    (reached : pos ≤ data.length) (rounds : data.length - 2 - pos < encodeFuel)
    (steps : (encodeLoop data encodeFuel finder pos litStart deferred).length ≤ decodeFuel) :
    decodeLoop data.length decodeFuel (data.take litStart)
      (encodeLoop data encodeFuel finder pos litStart deferred) = .ok data := by
  induction encodeFuel generalizing finder pos litStart deferred decodeFuel with
  | zero => omega
  | succ encodeFuel recurse =>
      rw [encodeLoop] at steps ⊢
      by_cases more : pos + 2 < data.length
      · simp only [more, ↓reduceIte] at steps ⊢
        split
        · rename_i matched offset len useIt current
          rw [current] at useIt
          simp only [current, useIt] at steps
          have isMatch := MatchFinder.findBest_isMatch (by omega) current
          have minimum := isMatch.minimum
          have inside := isMatch.inside
          simp only [MIN_MATCH] at minimum
          obtain ⟨token, encoded, cons, decoded⟩ := emitSequence_append
            (encodeLoop data encodeFuel (finder.insertRange data pos
              (min (pos + len) (data.length - 2))) (pos + len) (pos + len) false)
            ordered isMatch rfl
          have nonempty : 0 < (emitSequence ((data.drop litStart).take (pos - litStart))
              offset len).length := by
            simp only [emitSequence, List.length_cons, Nat.zero_lt_succ]
          rw [List.length_append] at steps
          rw [cons]
          obtain ⟨decodeFuel, rfl⟩ : ∃ fuel, decodeFuel = fuel + 1 :=
            ⟨decodeFuel - 1, by omega⟩
          rw [decodeLoop_cons (by rw [List.length_take]; omega) decoded]
          exact recurse _ _ le_rfl inside (by omega) (by omega)
        · rename_i unmatched
          refine recurse _ _ (by omega) (by omega) (by omega) ?_
          split at steps
          · rename_i offset len useIt current
            exact absurd current (unmatched offset len useIt)
          · exact steps
      · simp only [more, ↓reduceIte] at steps ⊢
        by_cases rest : litStart < data.length
        · have nonempty : (data.drop litStart).isEmpty = false := by
            rw [List.isEmpty_eq_false_iff]
            exact List.drop_eq_nil_iff.not.mpr (by omega)
          simp only [nonempty, Bool.false_eq_true, ↓reduceIte] at steps ⊢
          obtain ⟨token, encoded, cons, decoded⟩ := emitFinalLiterals_decode rest
          rw [cons, List.length_cons] at steps
          rw [cons]
          obtain ⟨decodeFuel, rfl⟩ : ∃ fuel, decodeFuel = fuel + 1 :=
            ⟨decodeFuel - 1, by omega⟩
          rw [decodeLoop_cons (by rw [List.length_take]; omega) decoded]
          exact decodeLoop_complete decodeFuel
        · rw [List.take_of_length_le (by omega)]
          exact decodeLoop_complete decodeFuel

end Lz77

open Lz77

/-- **LZ77 round trip, on every input the encoder shortens.** -/
theorem lz77Decode_lz77Encode {data encoded : Bytes} (success : lz77Encode data = some encoded) :
    lz77Decode encoded data.length = .ok data ∧ encoded.length < data.length := by
  rw [lz77Encode] at success
  split at success
  · cases success
  rename_i minimum
  split at success
  · cases success
  rename_i bounded
  simp only at success
  split at success
  · rename_i shorter
    obtain rfl := Option.some.inj success
    refine ⟨?_, shorter⟩
    have header : (Numeral.toLittleEndian 4 data.length).length = 4 :=
      Numeral.length_toLittleEndian 4 data.length
    have size : Numeral.littleEndian (Numeral.toLittleEndian 4 data.length) = data.length :=
      (Numeral.littleEndian_toLittleEndian 4 data.length).trans (Nat.mod_eq_of_lt (by
        simp only [MAX_LZ77_INPUT_SIZE, MAX_DECOMPRESSED_BLOCK_SIZE] at bounded
        omega))
    rw [lz77Decode, if_neg (by rw [List.length_append]; omega)]
    simp only [List.take_left' header, List.drop_left' header, size, ne_eq, not_true_eq_false,
      ↓reduceIte, if_neg bounded]
    have decoded := decodeLoop_encodeLoop MatchFinder.new false (le_refl 0)
      (Nat.zero_le data.length)
      (show data.length - 2 - 0 < data.length by simp only [MIN_MATCH] at minimum; omega)
      (show _ ≤ (Numeral.toLittleEndian 4 data.length ++
          encodeLoop data data.length MatchFinder.new 0 0 false).length by
        rw [List.length_append]
        omega)
    rw [List.take_zero] at decoded
    rw [decoded]
    simp only [not_true_eq_false, ↓reduceIte]
  · cases success

/-! ## What the encoder emits -/

namespace Lz77

/-- A run of literals and the match after it. -/
structure Sequence where
  literals : Bytes
  offset : Nat
  matchLen : Nat
  deriving DecidableEq, Repr

/-- The stream of sequences and of the literals after them. -/
def emitAll (sequences : List Sequence) (final : Bytes) : Bytes :=
  sequences.flatMap (fun sequence =>
    emitSequence sequence.literals sequence.offset sequence.matchLen) ++
      if final.isEmpty then [] else emitFinalLiterals final

/-- Sequences lie side by side from a position on: literals are the bytes there, and a match
repeats bytes in front of it. -/
def Tiles (data : Bytes) : (start : Nat) → List Sequence → (final : Bytes) → Prop
  | start, [], final => final = data.drop start
  | start, sequence :: sequences, final =>
      sequence.literals = (data.drop start).take sequence.literals.length ∧
        IsMatch data (start + sequence.literals.length) sequence.offset sequence.matchLen ∧
        Tiles data (start + sequence.literals.length + sequence.matchLen) sequences final

/-- **Every emitted match has been compared**, whatever the finder's tables hold and however
matches are deferred. -/
theorem encodeLoop_tiles {data : Bytes} {fuel : Nat} (finder : MatchFinder) {pos litStart : Nat}
    (deferred : Bool) (ordered : litStart ≤ pos) (reached : pos ≤ data.length)
    (rounds : data.length - 2 - pos < fuel) :
    ∃ sequences final, encodeLoop data fuel finder pos litStart deferred =
      emitAll sequences final ∧ Tiles data litStart sequences final := by
  induction fuel generalizing finder pos litStart deferred with
  | zero => omega
  | succ fuel recurse =>
      rw [encodeLoop]
      by_cases more : pos + 2 < data.length
      · simp only [more, ↓reduceIte]
        split
        · rename_i matched offset len useIt current
          have isMatch := MatchFinder.findBest_isMatch (by omega) current
          have minimum := isMatch.minimum
          have inside := isMatch.inside
          simp only [MIN_MATCH] at minimum
          obtain ⟨sequences, final, emitted, tiles⟩ := recurse
            (finder.insertRange data pos (min (pos + len) (data.length - 2))) false le_rfl inside
            (by omega)
          have length : ((data.drop litStart).take (pos - litStart)).length = pos - litStart := by
            rw [List.length_take, List.length_drop]
            omega
          have reaches : litStart + (pos - litStart) = pos := by omega
          refine ⟨{ literals := (data.drop litStart).take (pos - litStart)
                    offset := offset
                    matchLen := len } :: sequences, final, ?_, ?_, ?_, ?_⟩
          · rw [emitted, emitAll, emitAll, List.flatMap_cons, List.append_assoc]
          · rw [length]
          · rw [length, reaches]
            exact isMatch
          · rw [length, reaches]
            exact tiles
        · exact recurse _ _ (by omega) (by omega) (by omega)
      · simp only [more, ↓reduceIte]
        exact ⟨[], data.drop litStart, rfl, rfl⟩

/-- **LZ77 round trip.** The encoding is shorter and decodes to the data. It consists of
sequences whose matches repeat bytes in front of them, as every match does that a finder returns
from any tables, and a length of any size survives its field. -/
theorem lz77_roundTrip {data encoded : Bytes} (success : lz77Encode data = some encoded) :
    encoded.length < data.length ∧ lz77Decode encoded data.length = .ok data ∧
      (∃ sequences final, encoded =
          Numeral.toLittleEndian 4 data.length ++ emitAll sequences final ∧
        Tiles data 0 sequences final) ∧
      (∀ (finder : MatchFinder) (pos hash offset len : Nat), pos + 2 ≤ data.length →
        finder.findBest data pos hash = some (offset, len) → IsMatch data pos offset len) ∧
      ∀ (what : String) (remaining base len : Nat) (rest : Bytes), len + base ≤ remaining →
        readLength what remaining base (min len 15) (extension len ++ rest) =
          .ok (len + base, rest) := by
  obtain ⟨decoded, shorter⟩ := lz77Decode_lz77Encode success
  refine ⟨shorter, decoded, ?_,
    fun finder pos hash offset len room found => MatchFinder.findBest_isMatch room found,
    fun what remaining base len rest fits => readLength_extension what fits rest⟩
  rw [lz77Encode] at success
  split at success
  · cases success
  rename_i minimum
  split at success
  · cases success
  dsimp only at success
  split at success
  · cases success
    obtain ⟨sequences, final, emitted, tiles⟩ := @encodeLoop_tiles data data.length
      MatchFinder.new 0 0 false le_rfl (Nat.zero_le _) (by simp only [MIN_MATCH] at minimum; omega)
    exact ⟨sequences, final, by rw [emitted], tiles⟩
  · cases success

/-- A run of equal bytes is shortened, so it comes back. -/
theorem lz77_roundTrip_repeated :
    ∃ encoded, lz77Encode (List.replicate 20 7) = some encoded ∧ encoded.length < 20 ∧
      lz77Decode encoded 20 = .ok (List.replicate 20 7) := by
  have shortened : (lz77Encode (List.replicate 20 7)).isSome := by decide +kernel
  obtain ⟨encoded, success⟩ := Option.isSome_iff_exists.mp shortened
  obtain ⟨shorter, decoded, -⟩ := lz77_roundTrip success
  exact ⟨encoded, success, shorter, decoded⟩

end Lz77

end AetherArch
