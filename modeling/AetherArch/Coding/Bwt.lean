import AetherArch.Library.BurrowsWheeler
import AetherArch.Coding.MoveToFront
import AetherArch.Format

/-! # Burrows–Wheeler transform

The transform is read off the suffix array of the doubled text. Its inverse walks
the last-to-first mapping from the primary index, in one of three shapes chosen by
size.
-/

namespace AetherArch

/-- Maximum decodable output size for BWT+MTF decode. -/
def MAX_BWT_DECODE_SIZE : Nat := MAX_DECOMPRESSED_BLOCK_SIZE

/-- Maximum input size for BWT encoding (8 MiB). -/
def MAX_BWT_INPUT_SIZE : Nat := 8 * 1024 * 1024

/-- Scan the suffix array in order, keeping the positions inside the text. -/
def scanRotations (data : Bytes) : List Nat → (bwt : Bytes) → (primaryIndex : Nat) → Bytes × Nat
  | [], bwt, primaryIndex => (bwt, primaryIndex)
  | pos :: sa, bwt, primaryIndex =>
      let n := data.length
      if pos < n then
        let primary := if pos = 0 then bwt.length else primaryIndex
        let grown := bwt ++ [data.getD ((pos + n - 1) % n) 0]
        if grown.length = n then (grown, primary) else scanRotations data sa grown primary
      else scanRotations data sa bwt primaryIndex

/-- Compute the transform with the doubled-text trick. `libsais` gives the suffix
array of a text, or nothing when its construction fails. -/
def bwtEncode (libsais : Bytes → Option (List Nat)) (data : Bytes) : Except String (Bytes × Nat) :=
  let n := data.length
  if n = 0 then .ok ([], 0)
  else if n = 1 then .ok (data, 0)
  else if n > MAX_BWT_INPUT_SIZE then .error "BWT input exceeds MAX_BWT_INPUT_SIZE"
  else
    match libsais (data ++ data) with
    | none => .error "libsais suffix array construction failed"
    | some sa => .ok (scanRotations data sa [] 0)

/-- Largest block for which `(lf << 8) | byte` fits in a 32-bit word. -/
def MAX_PACKED_LF : Nat := 1 <<< 24

/-- Above this, the two-chain walk pays for its second table. -/
def TWO_CHAIN_MIN : Nat := 1 <<< 20

/-- Character frequencies. -/
def countBytes (bwt : Bytes) : UInt8 → Nat :=
  bwt.foldl (fun count b => Function.update count b (count b + 1)) fun _ => 0

/-- The number of characters below a byte value. -/
def cumulBytes (count : UInt8 → Nat) : Nat → Nat
  | 0 => 0
  | i + 1 => cumulBytes count i + count (UInt8.ofNat i)

/-- Fill a table over the transform from a position on, storing for each entry what
`store` makes of its last-to-first position and its byte. -/
def fillLf (store : Nat → UInt8 → Nat) (cumul : UInt8 → Nat) :
    (i : Nat) → (occ : UInt8 → Nat) → (table : Nat → Nat) → Bytes → (Nat → Nat)
  | _, _, table, [] => table
  | i, occ, table, b :: bwt =>
      fillLf store cumul (i + 1) (Function.update occ b (occ b + 1))
        (Function.update table i (store (cumul b + occ b) b)) bwt

/-- The table of a whole transform. -/
def lfTable (store : Nat → UInt8 → Nat) (bwt : Bytes) : Nat → Nat :=
  fillLf store (fun b => cumulBytes (countBytes bwt) b.toNat) 0 (fun _ => 0) (fun _ => 0) bwt

/-- A position and a byte in one 32-bit word. -/
def packLf (position : Nat) (b : UInt8) : Nat := (position <<< 8) % 2 ^ 32 ||| b.toNat

/-- Fill `count` slots from the last one down, walking from `idx`; the slots filled
so far follow in `output`. -/
def walkBack (byteAt : Nat → UInt8) (next : Nat → Nat) : (count : Nat) → (idx : Nat) →
    (output : Bytes) → Bytes
  | 0, _, output => output
  | count + 1, idx, output => walkBack byteAt next count (next idx) (byteAt idx :: output)

/-- The inverse of a packed table. -/
def inverseTable (n : Nat) (forward : Nat → Nat) : Nat → Nat :=
  (List.range n).foldl (fun inverse i =>
    Function.update inverse (forward i >>> 8) ((i <<< 8) % 2 ^ 32 ||| (forward i &&& 0xFF)))
    fun _ => 0

/-- Walk both chains at once: `front` grows at its end and `tail` at its start. -/
def walkBoth (forward inverse : Nat → Nat) : (rounds : Nat) → (back fwd : Nat) →
    (front tail : Bytes) → Nat × Bytes × Bytes
  | 0, back, _, front, tail => (back, front, tail)
  | rounds + 1, back, fwd, front, tail =>
      let b := forward back
      let f := inverse fwd
      walkBoth forward inverse rounds (b >>> 8) (f >>> 8) (front ++ [UInt8.ofNat f])
        (UInt8.ofNat b :: tail)

/-- Inverse transform with the size thresholds given. -/
def bwtDecodeWith (bwt : Bytes) (primaryIndex twoChainMin maxPackedLf : Nat) :
    Except String Bytes :=
  let n := bwt.length
  if n = 0 then .ok []
  else if primaryIndex ≥ n then .error "BWT primary index out of bounds"
  else if n > maxPackedLf then
    let lf := lfTable (fun position _ => position) bwt
    .ok (walkBack (fun idx => bwt.getD idx 0) lf n primaryIndex [])
  else
    let forward := lfTable packLf bwt
    if n ≤ twoChainMin then
      .ok (walkBack (fun idx => UInt8.ofNat (forward idx)) (fun idx => forward idx >>> 8) n
        primaryIndex [])
    else
      let inverse := inverseTable n forward
      let (back, front, tail) :=
        walkBoth forward inverse (n / 2) primaryIndex primaryIndex [] []
      if n % 2 = 1 then .ok (front ++ UInt8.ofNat (forward back) :: tail) else .ok (front ++ tail)

/-- Inverse transform. -/
def bwtDecode (bwt : Bytes) (primaryIndex : Nat) : Except String Bytes :=
  bwtDecodeWith bwt primaryIndex TWO_CHAIN_MIN MAX_PACKED_LF

/-- Apply the transform and move-to-front. -/
def bwtMtfEncodeParts (libsais : Bytes → Option (List Nat)) (data : Bytes) : Result (Nat × Bytes) :=
  match bwtEncode libsais data with
  | .error message => .error (.resourceLimitExceeded message)
  | .ok (bwtData, primaryIndex) => .ok (primaryIndex, mtfEncode bwtData)

/-- Reverse the transform and move-to-front. -/
def bwtMtfDecodeParts (primaryIndex : Nat) (mtfData : Bytes) (expectedSize : Nat) : Result Bytes :=
  if expectedSize > MAX_BWT_DECODE_SIZE then
    .error (.decompression
      s!"BWT+MTF decode size {expectedSize} exceeds safety limit {MAX_BWT_DECODE_SIZE}")
  else
    match bwtDecode (mtfDecode mtfData) primaryIndex with
    | .error message => .error (.decompression s!"BWT decode failed: {message}")
    | .ok original =>
        if original.length ≠ expectedSize then
          .error (.decompression
            s!"BWT+MTF decode size mismatch: got {original.length}, expected {expectedSize}")
        else .ok original

end AetherArch
