import AetherArch.Analyzer
import AetherArch.Coding.Rans
import AetherArch.Entropy.Order0
import AetherArch.Library.Numeral

/-! # Byte-plane splitting

Numeric data is split into one plane for each byte position of its elements. Every plane
is delta-coded and range-coded where its entropy suggests so.
-/

namespace AetherArch

/-- Element width for byte-plane splitting. -/
inductive BytePlaneWidth where
  | two
  | four
  deriving DecidableEq, Repr

namespace BytePlaneWidth

/-- Parse a stored width. -/
def fromU8 (value : UInt8) : Option BytePlaneWidth :=
  if value = 2 then some two else if value = 4 then some four else none

/-- Number of byte planes. -/
def planes : BytePlaneWidth → Nat
  | two => 2
  | four => 4

end BytePlaneWidth

namespace BytePlane

/-- Minimum chunk size to attempt splitting. -/
def MIN_BYTEPLANE_SIZE : Nat := 64

/-- Split data into byte planes and the bytes left over. -/
def split (data : Bytes) (width : BytePlaneWidth) : List Bytes × Bytes :=
  let w := width.planes
  let elements := data.length / w
  ((List.range w).map fun p => (List.range elements).map fun i => data.getD (i * w + p) 0,
    data.drop (elements * w))

/-- Interleave byte planes, appending the bytes left over. -/
def merge (planes : List Bytes) (tail : Bytes) : Bytes :=
  match planes with
  | [] => tail
  | first :: _ =>
      (List.range first.length).flatMap (fun i => planes.map fun plane => plane.getD i 0) ++ tail

/-- Delta-encode bytes after a previous one. -/
def deltaFrom : (previous : UInt8) → Bytes → Bytes
  | _, [] => []
  | previous, byte :: plane => (byte - previous) :: deltaFrom byte plane

def deltaEncode (plane : Bytes) : Bytes := deltaFrom 0 plane

/-- Delta-encode a plane where that is decided. -/
def maybeDelta (delta : Nat → Bytes → Bool) (i : Nat) (plane : Bytes) : Bytes :=
  if delta i plane then deltaEncode plane else plane

/-- The running sums of bytes over a previous one. -/
def sumFrom : (previous : UInt8) → Bytes → Bytes
  | _, [] => []
  | previous, byte :: plane => (byte + previous) :: sumFrom (byte + previous) plane

def deltaDecode (plane : Bytes) : Bytes := sumFrom 0 plane

/-- One bit for every marked plane. -/
def planeFlags (marks : List Bool) : Nat :=
  marks.zipIdx.foldl (fun flags mark => if mark.1 then flags ||| 1 <<< mark.2 else flags) 0

section Heuristics

variable (format : FloatFormat)

/-- Entropy threshold for compressing a plane. -/
def PLANE_COMPRESS_THRESHOLD : format.Carrier := 7.0

/-- Minimum entropy improvement to justify delta encoding. -/
def DELTA_BENEFIT_THRESHOLD : format.Carrier := 0.1

/-- The largest finite number of double precision. -/
def F64_MAX : format.Carrier := (((2 ^ 53 - 1) * 2 ^ 971 : Nat) : format.Carrier)

/-- Minimum plane entropy sampled from the first 1024 elements of every plane. -/
def minSampledPlaneEntropy (data : Bytes) (width : BytePlaneWidth) : Option format.Carrier :=
  let w := width.planes
  let elements := data.length / w
  if elements < 32 then none
  else
    let sampleSize := min elements 1024
    some ((List.range w).foldl (fun least p =>
      let sample := (List.range sampleSize).map fun i => data.getD (i * w + p) 0
      let entropy := shannonEntropy format sample
      if entropy < least then entropy else least) (F64_MAX format))

/-- Whether splitting by a width would be beneficial. -/
def isBeneficial (data : Bytes) (width : BytePlaneWidth) : Bool :=
  if data.length < MIN_BYTEPLANE_SIZE then false
  else
    match minSampledPlaneEntropy format data width with
    | none => false
    | some least => decide ((1.5 : format.Carrier) < shannonEntropy format data - least)

/-- Whether a plane should be compressed. -/
def isCompressible (plane : Bytes) : Bool :=
  !plane.isEmpty && decide (shannonEntropy format plane < PLANE_COMPRESS_THRESHOLD format)

/-- Whether delta encoding reduces the entropy of a plane enough. -/
def shouldDelta (plane : Bytes) : Bool :=
  if plane.length < 16 then false
  else
    decide (shannonEntropy format (deltaEncode plane) + DELTA_BENEFIT_THRESHOLD format <
      shannonEntropy format plane)

/-- The better of two widths by entropy benefit; the wider must win by a margin. -/
def chooseWidth (rawEntropy : format.Carrier) (data : Bytes)
    (best : Option (BytePlaneWidth × format.Carrier)) (width : BytePlaneWidth) :
    Option (BytePlaneWidth × format.Carrier) :=
  match minSampledPlaneEntropy format data width with
  | none => best
  | some least =>
      let benefit := rawEntropy - least
      let better := match best with
        | none => true
        | some (_, b) => decide (b + 0.25 < benefit)
      if decide (1.5 < benefit) && better then some (width, benefit) else best

/-- Detect whether data is likely an array of numbers of some width. -/
def detectNumericWidth (data : Bytes) : Option BytePlaneWidth :=
  if data.length < MIN_BYTEPLANE_SIZE then none
  else
    let rawEntropy := shannonEntropy format data
    ([.two, .four].foldl (chooseWidth format rawEntropy data) none).map Prod.fst

end Heuristics

/-- Range-code a plane where it is flagged and shrinks by it. -/
def encodePlane (rcFlags i : Nat) (plane : Bytes) : Bytes :=
  if rcFlags.testBit i then
    match (Rans.encodeBlock plane Order0Model.new).1 with
    | .ok rcBytes => if rcBytes.length < plane.length then rcBytes else plane
    | .error _ => plane
  else plane

end BytePlane

open BytePlane

/-- Encode data in byte planes, if that makes it shorter, under given answers to the
questions which planes to delta-code and which to compress. -/
def byteplaneEncodeWith (delta compressible : Nat → Bytes → Bool) (data : Bytes)
    (width : BytePlaneWidth) : Option Bytes :=
  if data.length < MIN_BYTEPLANE_SIZE ∨ data.length > MAX_DECOMPRESSED_BLOCK_SIZE then none
  else
    let (planes, tail) := split data width
    let w := width.planes
    let deltaFlags := planeFlags (planes.mapIdx delta)
    let maybeDeltaPlanes := planes.mapIdx (maybeDelta delta)
    let rcFlags := planeFlags (maybeDeltaPlanes.mapIdx compressible)
    if rcFlags = 0 then none
    else
      let encodedPlanes := maybeDeltaPlanes.mapIdx (encodePlane rcFlags)
      let actualRcFlags := planeFlags ((encodedPlanes.zip maybeDeltaPlanes).mapIdx fun i pair =>
        decide (pair.1.length < pair.2.length) && rcFlags.testBit i)
      let combinedFlags := actualRcFlags ||| deltaFlags <<< 4
      let headerSize := 2 + 4 * w
      let planesSize := (encodedPlanes.map List.length).sum
      let totalSize := headerSize + planesSize + tail.length
      if totalSize ≥ data.length then none
      else
        some (UInt8.ofNat w :: UInt8.ofNat combinedFlags ::
          (encodedPlanes.flatMap (fun plane => Numeral.toLittleEndian 4 plane.length) ++
            encodedPlanes.flatten ++ tail))

/-- Encode data in byte planes, deciding by entropy. -/
def byteplaneEncode (format : FloatFormat) : Bytes → BytePlaneWidth → Option Bytes :=
  byteplaneEncodeWith (fun _ => shouldDelta format) (fun _ => isCompressible format)

namespace BytePlane

/-- The stored size of a plane, within the limit. -/
def planeSize (payload : Bytes) (i : Nat) : Result Nat :=
  let size := Numeral.littleEndian ((payload.drop (2 + 4 * i)).take 4)
  if size > MAX_DECOMPRESSED_BLOCK_SIZE then
    .error (.resourceLimitExceeded
      s!"BytePlane plane {i} size {size} exceeds safety limit {MAX_DECOMPRESSED_BLOCK_SIZE}")
  else .ok size

/-- Cut bytes into pieces of given sizes; what follows them is returned too. -/
def planeViews : (sizes : List Nat) → Bytes → List Bytes × Bytes
  | [], rest => ([], rest)
  | size :: sizes, data =>
      let (views, rest) := planeViews sizes (data.drop size)
      (data.take size :: views, rest)

/-- Undo the range coding of a plane. -/
def decodePlaneData (rcFlags elements i : Nat) (planeData : Bytes) : Result Bytes :=
  if rcFlags.testBit i then (Rans.decodeBlock planeData elements Order0Model.new).1
  else if planeData.length ≠ elements then
    .error (.decompression (s!"BytePlane raw plane {i} size mismatch: {planeData.length} vs "
      ++ s!"expected {elements}"))
  else .ok planeData

/-- Decode one plane. -/
def decodePlane (rcFlags deltaFlags elements : Nat) (view : Bytes × Nat) : Result Bytes := do
  let plane ← decodePlaneData rcFlags elements view.2 view.1
  .ok (if deltaFlags.testBit view.2 then deltaDecode plane else plane)

end BytePlane

/-- Decode byte planes back to the original data. -/
def byteplaneDecode (payload : Bytes) (uncompressedSize : Nat) : Result Bytes :=
  match payload with
  | widthByte :: flagsByte :: _ =>
      match BytePlaneWidth.fromU8 widthByte with
      | none => .error (.decompression s!"BytePlane: invalid width byte {widthByte}")
      | some width => do
          let rcFlags := flagsByte.toNat &&& 0x0F
          let deltaFlags := flagsByte.toNat >>> 4
          let w := width.planes
          let sizesEnd := 2 + 4 * w
          if payload.length < sizesEnd then
            .error (.decompression
              s!"BytePlane payload too short for {w} plane sizes: {payload.length} bytes")
          else
            let planeSizes ← (List.range w).mapM (planeSize payload)
            let elements := uncompressedSize / w
            let tailLen := uncompressedSize % w
            let expectedPayloadLen := sizesEnd + planeSizes.sum + tailLen
            if payload.length < expectedPayloadLen then
              .error (.decompression (s!"BytePlane payload too short: need {expectedPayloadLen} "
                ++ s!"bytes, have {payload.length}"))
            else
              let (views, rest) := planeViews planeSizes (payload.drop sizesEnd)
              let planes ← views.zipIdx.mapM (decodePlane rcFlags deltaFlags elements)
              let result := merge planes (rest.take tailLen)
              if result.length ≠ uncompressedSize then
                .error (.decompression (s!"BytePlane size mismatch after merge: got "
                  ++ s!"{result.length} expected {uncompressedSize}"))
              else .ok result
  | _ => .error (.decompression "BytePlane payload too short: missing header")

end AetherArch
