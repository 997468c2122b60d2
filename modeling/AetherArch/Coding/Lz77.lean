import Mathlib.Logic.Function.Basic
import AetherArch.Library.Numeral
import AetherArch.Format

/-! # LZ77 preprocessor

Minimum match length three, lazy matching and a bounded hash chain. The output is
the original size followed by sequences of a token, literals and a match; the last
sequence has literals only.
-/

namespace AetherArch

namespace Lz77

/-- 64 KiB sliding window. -/
def WINDOW_SIZE : Nat := 65536

def MIN_MATCH : Nat := 3

def MAX_MATCH : Nat := 65538

def HASH_BITS : Nat := 16

/-- Bounded hash chain walk. -/
def MAX_CHAIN : Nat := 256

/-- Stop searching at a match of this length. -/
def NICE_MATCH : Nat := 258

def MAX_LZ77_INPUT_SIZE : Nat := MAX_DECOMPRESSED_BLOCK_SIZE

/-- "No entry" sentinel. -/
def EMPTY : Nat := 2 ^ 32 - 1

/-- Hash three bytes with Knuth's multiplicative hash. -/
def hash3 (data : Bytes) (pos : Nat) : Nat :=
  let v := (data.getD pos 0).toNat <<< 16 ||| (data.getD (pos + 1) 0).toNat <<< 8 |||
    (data.getD (pos + 2) 0).toNat
  (v * 2654435761 % 2 ^ 32) >>> (32 - HASH_BITS)

/-- The hash chains: the latest position of a hash, and the position before one. -/
structure MatchFinder where
  head : Nat → Nat
  prev : Nat → Nat

/-- The number of leading bytes two slices share. -/
def commonLength : Bytes → Bytes → Nat
  | x :: a, y :: b => if x = y then commonLength a b + 1 else 0
  | _, _ => 0

namespace MatchFinder

def new : MatchFinder where
  head := fun _ => EMPTY
  prev := fun _ => EMPTY

def insert (finder : MatchFinder) (pos hash : Nat) : MatchFinder :=
  if pos > MAX_LZ77_INPUT_SIZE then finder
  else
    { prev := Function.update finder.prev (pos % WINDOW_SIZE) (finder.head hash)
      head := Function.update finder.head hash (pos % 2 ^ 32) }

/-- Walk the chain, at most `chains` entries further, keeping the longest match. -/
def walkChain (finder : MatchFinder) (data : Bytes) (pos maxLen : Nat) :
    (chains : Nat) → (chainPos lastRefPos : Nat) → (bestOffset bestLen : Nat) → Nat × Nat
  | 0, _, _, bestOffset, bestLen => (bestOffset, bestLen)
  | chains + 1, refPos, lastRefPos, bestOffset, bestLen =>
      if refPos = EMPTY then (bestOffset, bestLen)
      else if refPos ≥ pos ∨ pos - refPos ≥ WINDOW_SIZE then (bestOffset, bestLen)
      else if refPos ≥ lastRefPos then (bestOffset, bestLen)
      else
        let offset := (pos - refPos) % 2 ^ 16
        let next := finder.prev (refPos % WINDOW_SIZE)
        if data.getD (refPos + bestLen) 0 = data.getD (pos + bestLen) 0 ∧
            data.getD refPos 0 = data.getD pos 0 ∧
            data.getD (refPos + 1) 0 = data.getD (pos + 1) 0 then
          let len := 2 + commonLength ((data.drop (refPos + 2)).take (maxLen - 2))
            ((data.drop (pos + 2)).take (maxLen - 2))
          if len > bestLen then
            if len ≥ NICE_MATCH ∨ len = maxLen then (offset, len)
            else walkChain finder data pos maxLen chains next refPos offset len
          else walkChain finder data pos maxLen chains next refPos bestOffset bestLen
        else walkChain finder data pos maxLen chains next refPos bestOffset bestLen

/-- The longest match on the chain of a hash, as offset and length. -/
def findBest (finder : MatchFinder) (data : Bytes) (pos hash : Nat) : Option (Nat × Nat) :=
  let maxLen := min (data.length - pos) MAX_MATCH
  let best := walkChain finder data pos maxLen MAX_CHAIN (finder.head hash) pos 0 (MIN_MATCH - 1)
  if best.2 ≥ MIN_MATCH then some best else none

/-- Insert all positions from `pos` up to `stop`. -/
def insertRange (finder : MatchFinder) (data : Bytes) (pos stop : Nat) : MatchFinder :=
  (List.range' pos (stop - pos)).foldl (fun finder i => finder.insert i (hash3 data i)) finder

end MatchFinder

/-- The extension bytes of a length past its nibble. -/
def lengthExtension (rem : Nat) : Bytes :=
  if rem ≥ 255 then 255 :: lengthExtension (rem - 255) else [UInt8.ofNat rem]
termination_by rem

/-- The extension bytes of a length, none when the nibble holds it. -/
def extension (len : Nat) : Bytes :=
  if len ≥ 15 then lengthExtension (len - 15) else []

def emitSequence (literals : Bytes) (offset matchLen : Nat) : Bytes :=
  let litLen := literals.length
  let matchMinus3 := matchLen - MIN_MATCH
  UInt8.ofNat (min litLen 15 <<< 4 ||| min matchMinus3 15) ::
    (extension litLen ++ literals ++ [UInt8.ofNat offset, UInt8.ofNat (offset >>> 8)] ++
      extension matchMinus3)

def emitFinalLiterals (literals : Bytes) : Bytes :=
  UInt8.ofNat (min literals.length 15 <<< 4) :: (extension literals.length ++ literals)

/-- Whether to take the current match, or to defer to the next position. -/
def useMatch (finder : MatchFinder) (data : Bytes) (pos : Nat) (deferred : Bool) :
    Option (Nat × Nat) → Bool
  | none => false
  | some (_, curLen) =>
      if deferred then true
      else if pos + 3 < data.length then
        match finder.findBest data (pos + 1) (hash3 data (pos + 1)) with
        | some (_, nextLen) => nextLen ≤ curLen + 1
        | none => true
      else true

/-- The encoder's main loop: the sequences emitted from a position on. Every round
moves past at least one byte. -/
def encodeLoop (data : Bytes) : (fuel : Nat) → MatchFinder → (pos litStart : Nat) →
    (deferred : Bool) → Bytes
  | 0, _, _, _, _ => []
  | fuel + 1, finder, pos, litStart, deferred =>
      if pos + 2 < data.length then
        let hash := hash3 data pos
        let currentMatch := finder.findBest data pos hash
        match useMatch finder data pos deferred currentMatch, currentMatch with
        | true, some (offset, matchLen) =>
            let stop := min (pos + matchLen) (data.length - 2)
            emitSequence ((data.drop litStart).take (pos - litStart)) offset matchLen ++
              encodeLoop data fuel (finder.insertRange data pos stop) (pos + matchLen)
                (pos + matchLen) false
        | _, _ =>
            encodeLoop data fuel (finder.insert pos hash) (pos + 1) litStart currentMatch.isSome
      else
        let remaining := data.drop litStart
        if remaining.isEmpty then [] else emitFinalLiterals remaining

/-- Decode a length extension, capped by the remaining output capacity. -/
def readExtension (what : String) (remaining : Nat) : (len : Nat) → Bytes → Result (Nat × Bytes)
  | _, [] => .error (.decompression s!"LZ77: unexpected end in {what} ext")
  | len, ext :: encoded =>
      let extended := len + ext.toNat
      if extended > remaining then
        .error (.decompression
          s!"LZ77: {what} {extended} exceeds remaining output capacity {remaining}")
      else if ext < 255 then .ok (extended, encoded)
      else readExtension what remaining extended encoded

/-- Decode a length from its nibble, over a base, and its extension when the nibble is full. -/
def readLength (what : String) (remaining base nibble : Nat) (encoded : Bytes) :
    Result (Nat × Bytes) :=
  if nibble = 15 then readExtension what remaining (nibble + base) encoded
  else .ok (nibble + base, encoded)

/-- Repeat the last `offset` bytes to fill an overlapping match. -/
def copyOverlapping (offset : Nat) (output : Bytes) (remaining : Nat) : Bytes :=
  if 0 < remaining ∧ 0 < offset then
    let chunk := min remaining offset
    copyOverlapping offset (output ++ (output.drop (output.length - offset)).take chunk)
      (remaining - chunk)
  else output
termination_by remaining

/-- Copy a match from earlier output. -/
def copyMatch (offset matchLen : Nat) (output : Bytes) : Bytes :=
  if offset ≥ matchLen then output ++ (output.drop (output.length - offset)).take matchLen
  else copyOverlapping offset output matchLen

/-- Decode one sequence after its token: the output grown by it, and the bytes left. -/
def decodeSequence (originalSize : Nat) (token : UInt8) (output encoded : Bytes) :
    Result (Bytes × Bytes) := do
  let (litLen, encoded) ←
    readLength "lit_len" (originalSize - output.length) 0 (token.toNat >>> 4) encoded
  if litLen > encoded.length then
    .error (.decompression "LZ77: not enough literal data")
  else
    let output := output ++ encoded.take litLen
    let encoded := encoded.drop litLen
    if output.length ≥ originalSize then .ok (output, encoded)
    else
      match encoded with
      | low :: high :: encoded =>
          let offset := low.toNat ||| high.toNat <<< 8
          if offset = 0 ∨ offset > output.length then
            .error (.decompression
              s!"LZ77: invalid offset {offset} at output pos {output.length}")
          else
            let (matchLen, encoded) ←
              readLength "match_len" (originalSize - output.length) MIN_MATCH
                (token.toNat &&& 0x0F) encoded
            .ok (copyMatch offset matchLen output, encoded)
      | _ => .error (.decompression "LZ77: missing offset bytes")

/-- The decoder's main loop. Every round consumes a token. -/
def decodeLoop (originalSize : Nat) : (fuel : Nat) → (output encoded : Bytes) → Result Bytes
  | 0, output, _ =>
      if output.length < originalSize then
        .error (.decompression "LZ77: unexpected end of data")
      else .ok output
  | fuel + 1, output, encoded =>
      if output.length < originalSize then
        match encoded with
        | [] => .error (.decompression "LZ77: unexpected end of data")
        | token :: encoded =>
            match decodeSequence originalSize token output encoded with
            | .error error => .error error
            | .ok (output, encoded) => decodeLoop originalSize fuel output encoded
      else .ok output

end Lz77

open Lz77

/-- Encode data, if that makes it shorter. -/
def lz77Encode (data : Bytes) : Option Bytes :=
  if data.length < MIN_MATCH then none
  else if data.length > MAX_LZ77_INPUT_SIZE then none
  else
    let output := Numeral.toLittleEndian 4 data.length ++
      encodeLoop data data.length MatchFinder.new 0 0 false
    if output.length < data.length then some output else none

/-- Decode data produced by `lz77Encode`. -/
def lz77Decode (encoded : Bytes) (expectedSize : Nat) : Result Bytes :=
  if encoded.length < 4 then .error (.decompression "LZ77 data too short")
  else
    let originalSize := Numeral.littleEndian (encoded.take 4)
    if originalSize ≠ expectedSize then
      .error (.decompression
        s!"LZ77 size mismatch: header says {originalSize}, expected {expectedSize}")
    else if originalSize > MAX_LZ77_INPUT_SIZE then
      .error (.decompression
        s!"LZ77 decode size {originalSize} exceeds safety limit {MAX_LZ77_INPUT_SIZE}")
    else
      match decodeLoop originalSize encoded.length [] (encoded.drop 4) with
      | .error error => .error error
      | .ok output =>
          if output.length ≠ originalSize then
            .error (.decompression
              s!"LZ77: output size {output.length}, expected {originalSize}")
          else .ok output

end AetherArch
