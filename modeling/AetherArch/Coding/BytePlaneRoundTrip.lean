import Mathlib.Data.List.GetD
import AetherArch.Coding.BytePlane
import AetherArch.Coding.RansRoundTrip
import AetherArch.Entropy.Order0Contract

/-! # Byte-plane round trip

Whatever planes are delta-coded or compressed, every plane decodes to itself, and the
planes interleave to the data they were split from.
-/

namespace AetherArch

namespace BytePlane

theorem planes_pos (width : BytePlaneWidth) : 0 < width.planes := by cases width <;> decide

theorem planes_le (width : BytePlaneWidth) : width.planes ≤ 4 := by cases width <;> decide

/-! ## Splitting and merging -/

theorem length_split (data : Bytes) (width : BytePlaneWidth) :
    (split data width).1.length = width.planes := by
  simp only [split, List.length_map, List.length_range]

/-- Each plane holds its share of the data. -/
theorem length_of_mem_split {data : Bytes} {width : BytePlaneWidth} {plane : Bytes}
    (member : plane ∈ (split data width).1) : plane.length = data.length / width.planes := by
  simp only [split, List.mem_map] at member
  obtain ⟨p, -, rfl⟩ := member
  simp only [List.length_map, List.length_range]

/-- The tail is what the planes leave. -/
theorem length_split_tail (data : Bytes) (width : BytePlaneWidth) :
    (split data width).2.length = data.length % width.planes := by
  simp only [split, List.length_drop]
  rw [Nat.mul_comm, Nat.mod_eq_sub]

/-- The bytes of an element are its entries in the planes. -/
theorem element_eq {data : Bytes} {w i : Nat} (inside : (i + 1) * w ≤ data.length) :
    (List.range w).map (fun p => data.getD (i * w + p) 0) = (data.drop (i * w)).take w := by
  rw [Nat.succ_mul] at inside
  apply List.ext_getElem
  · simp only [List.length_map, List.length_range, List.length_take, List.length_drop]
    omega
  · intro p left right
    rw [List.length_map, List.length_range] at left
    have within : i * w + p < data.length := by omega
    simp only [List.getElem_map, List.getElem_range, List.getElem_take, List.getElem_drop,
      List.getD_eq_getElem?_getD, List.getElem?_eq_getElem within, Option.getD_some]

/-- Interleaving elements one by one gives the leading bytes of the data. -/
theorem flatMap_elements {data : Bytes} {w elements : Nat} (inside : elements * w ≤ data.length) :
    (List.range elements).flatMap (fun i =>
        (List.range w).map fun p => data.getD (i * w + p) 0) =
      data.take (elements * w) := by
  induction elements with
  | zero => simp only [List.range_zero, List.flatMap_nil, Nat.zero_mul, List.take_zero]
  | succ elements recurse =>
      have shorter : elements * w ≤ data.length :=
        le_trans (Nat.mul_le_mul_right w (Nat.le_succ elements)) inside
      rw [List.range_succ, List.flatMap_append, recurse shorter, List.flatMap_singleton,
        element_eq inside, Nat.succ_mul, List.take_add]

/-- **Planes interleave to the data they were split from.** -/
theorem merge_split (data : Bytes) (width : BytePlaneWidth) :
    merge (split data width).1 (split data width).2 = data := by
  have positive := planes_pos width
  have inside : data.length / width.planes * width.planes ≤ data.length :=
    Nat.div_mul_le_self _ _
  have count := length_split data width
  match planesEq : (split data width).1 with
  | [] =>
      rw [planesEq, List.length_nil] at count
      omega
  | first :: others =>
      have firstLength : first.length = data.length / width.planes :=
        length_of_mem_split (by rw [planesEq]; exact List.mem_cons_self ..)
      rw [merge, firstLength, ← planesEq]
      simp only [split, List.map_map]
      have entries : (List.range (data.length / width.planes)).flatMap (fun i =>
          (List.range width.planes).map ((fun plane : Bytes => plane.getD i 0) ∘ fun p =>
            (List.range (data.length / width.planes)).map fun i =>
              data.getD (i * width.planes + p) 0)) =
          (List.range (data.length / width.planes)).flatMap fun i =>
            (List.range width.planes).map fun p => data.getD (i * width.planes + p) 0 := by
        apply List.flatMap_congr
        intro i member
        have below := List.mem_range.mp member
        apply List.map_congr_left
        intro p _
        simp only [Function.comp_apply, List.getD_eq_getElem?_getD, List.getElem?_map,
          List.getElem?_range below, Option.map_some, Option.getD_some]
      rw [entries, flatMap_elements inside, List.take_append_drop]

/-! ## Delta coding -/

/-- Summing the differences restores the plane. -/
theorem sumFrom_deltaFrom (previous : UInt8) (plane : Bytes) :
    sumFrom previous (deltaFrom previous plane) = plane := by
  induction plane generalizing previous with
  | nil => rfl
  | cons byte plane recurse =>
      rw [deltaFrom, sumFrom, UInt8.sub_add_cancel, recurse]

theorem deltaDecode_deltaEncode (plane : Bytes) : deltaDecode (deltaEncode plane) = plane :=
  sumFrom_deltaFrom 0 plane

/-- There is one difference for each byte. -/
theorem length_deltaFrom (previous : UInt8) (plane : Bytes) :
    (deltaFrom previous plane).length = plane.length := by
  induction plane generalizing previous with
  | nil => rfl
  | cons byte plane recurse => rw [deltaFrom, List.length_cons, recurse, List.length_cons]

/-- Whether it is differenced or not, a plane keeps its length. -/
theorem length_maybeDelta (delta : Nat → Bytes → Bool) (i : Nat) (plane : Bytes) :
    (maybeDelta delta i plane).length = plane.length := by
  rw [maybeDelta]
  split
  · exact length_deltaFrom 0 plane
  · rfl

/-! ## Flags -/

/-- One more mark sets one more bit. -/
theorem planeFlags_concat (marks : List Bool) (mark : Bool) :
    planeFlags (marks ++ [mark]) =
      if mark then planeFlags marks ||| 1 <<< marks.length else planeFlags marks := by
  simp only [planeFlags, List.zipIdx_append, List.foldl_append, List.zipIdx_cons,
    List.zipIdx_nil, List.foldl_cons, List.foldl_nil, Nat.zero_add]

/-- The bits of the flags are the marks. -/
theorem testBit_planeFlags (marks : List Bool) (i : Nat) :
    (planeFlags marks).testBit i = marks.getD i false := by
  induction marks using List.reverseRecOn with
  | nil => simp only [planeFlags, List.zipIdx_nil, List.foldl_nil, Nat.zero_testBit, List.getD_nil]
  | append_singleton marks mark recurse =>
      rw [planeFlags_concat]
      rcases lt_trichotomy i marks.length with below | rfl | above
      · have other : (1 <<< marks.length).testBit i = false := by
          rw [Nat.one_shiftLeft, Nat.testBit_two_pow]
          exact decide_eq_false (by omega)
        rw [List.getD_append _ _ _ _ below]
        split
        · rw [Nat.testBit_or, other, Bool.or_false, recurse]
        · exact recurse
      · have unset : (planeFlags marks).testBit marks.length = false := by
          rw [recurse, List.getD_eq_default _ _ le_rfl]
        rw [List.getD_append_right _ _ _ _ le_rfl, Nat.sub_self, List.getD_cons_zero]
        cases mark with
        | true =>
            rw [if_pos rfl, Nat.testBit_or, unset, Nat.one_shiftLeft, Nat.testBit_two_pow_self,
              Bool.false_or]
        | false => rw [if_neg (by decide), unset]
      · have other : (1 <<< marks.length).testBit i = false := by
          rw [Nat.one_shiftLeft, Nat.testBit_two_pow]
          exact decide_eq_false (by omega)
        have outside : marks.getD i false = false := List.getD_eq_default _ _ above.le
        rw [List.getD_eq_default _ _ (by
          rw [List.length_append, List.length_singleton]
          omega)]
        split
        · rw [Nat.testBit_or, other, Bool.or_false, recurse, outside]
        · rw [recurse, outside]

/-- The flags of four planes fit half a byte. -/
theorem planeFlags_lt (marks : List Bool) (few : marks.length ≤ 4) : planeFlags marks < 16 := by
  apply Nat.lt_pow_two_of_testBit (n := 4)
  intro i high
  rw [testBit_planeFlags, List.getD_eq_default _ _ (by omega)]

/-- The flags byte holds the two sets of flags in its nibbles. -/
theorem combined_nibbles {low high : Nat} (lowFits : low < 16) (highFits : high < 16) :
    (UInt8.ofNat (low ||| high <<< 4)).toNat &&& 0x0F = low ∧
      (UInt8.ofNat (low ||| high <<< 4)).toNat >>> 4 = high := by
  have sum : low ||| high <<< 4 = high * 16 + low := by
    rw [Nat.or_comm, ← Nat.shiftLeft_add_eq_or_of_lt (i := 4) lowFits, Nat.shiftLeft_eq]
  have byte : (UInt8.ofNat (high * 16 + low)).toNat = high * 16 + low :=
    UInt8.toNat_ofNat_of_lt' (by
      change high * 16 + low < 256
      omega)
  rw [sum, byte, Nat.shiftRight_eq_div_pow, show (0x0F : Nat) = 2 ^ 4 - 1 from rfl,
    Nat.and_two_pow_sub_one_eq_mod]
  omega

/-! ## Planes -/

/-- A plane is stored as it is, or range-coded to fewer bytes. -/
theorem encodePlane_cases (rcFlags i : Nat) (plane : Bytes) :
    encodePlane rcFlags i plane = plane ∨
      rcFlags.testBit i = true ∧
      (Rans.encodeBlock plane Order0Model.new).1 = .ok (encodePlane rcFlags i plane) ∧
      (encodePlane rcFlags i plane).length < plane.length := by
  rw [encodePlane]
  split
  · rename_i flagged
    split
    · rename_i rcBytes encoded
      split
      · rename_i shorter
        exact .inr ⟨flagged, encoded, shorter⟩
      · exact .inl rfl
    · exact .inl rfl
  · exact .inl rfl

/-- No plane grows in coding. -/
theorem length_encodePlane_le (rcFlags i : Nat) (plane : Bytes) :
    (encodePlane rcFlags i plane).length ≤ plane.length := by
  rcases encodePlane_cases rcFlags i plane with raw | ⟨-, -, shorter⟩
  · rw [raw]
  · exact shorter.le

/-- A plane whose flag says whether it shrank decodes to itself. -/
theorem decodePlaneData_encodePlane {rcFlags i elements : Nat} (actualFlags : Nat) {plane : Bytes}
    (length : plane.length = elements) (bounded : elements ≤ MAX_DECOMPRESSED_BLOCK_SIZE)
    (actual : actualFlags.testBit i =
      (decide ((encodePlane rcFlags i plane).length < plane.length) && rcFlags.testBit i)) :
    decodePlaneData actualFlags elements i (encodePlane rcFlags i plane) = .ok plane := by
  rw [decodePlaneData, actual]
  rcases encodePlane_cases rcFlags i plane with raw | ⟨flagged, encoded, shorter⟩
  · rw [raw]
    simp only [lt_irrefl, decide_false, Bool.false_and, Bool.false_eq_true, ↓reduceIte, length,
      ne_eq, not_true_eq_false]
  · have decoded := (Rans.decodeBlockInner_encodeBlockInner plane Order0Model.new true
      (Order0Model.contract Order0Model.new_wellFormed) (by omega) _ encoded).1
    simp only [flagged, shorter, decide_true, Bool.and_self, ↓reduceIte]
    rw [← length]
    exact congrArg Prod.fst decoded

/-! ## The payload -/

/-- Pieces cut by their own sizes. -/
theorem planeViews_flatten (pieces : List Bytes) (rest : Bytes) :
    planeViews (pieces.map List.length) (pieces.flatten ++ rest) = (pieces, rest) := by
  induction pieces with
  | nil => rfl
  | cons piece pieces recurse =>
      simp only [List.map_cons, List.flatten_cons, List.append_assoc, planeViews,
        List.drop_left, List.take_left, recurse]

/-- The sizes written before the planes read back. -/
theorem storedSize_eq (pieces : List Bytes) (rest : Bytes) {i : Nat} (inside : i < pieces.length)
    (bounded : ∀ piece ∈ pieces, piece.length ≤ MAX_DECOMPRESSED_BLOCK_SIZE) :
    Numeral.littleEndian (((pieces.flatMap (fun piece =>
      Numeral.toLittleEndian 4 piece.length) ++ rest).drop (4 * i)).take 4) =
        (pieces.getD i []).length := by
  induction pieces generalizing i with
  | nil => exact absurd inside (Nat.not_lt_zero i)
  | cons piece pieces recurse =>
      have width : (Numeral.toLittleEndian 4 piece.length).length = 4 :=
        Numeral.length_toLittleEndian 4 piece.length
      rw [List.flatMap_cons, List.append_assoc]
      cases i with
      | zero =>
          have fits : piece.length % 256 ^ 4 = piece.length := by
            have small := bounded piece (List.mem_cons_self ..)
            rw [MAX_DECOMPRESSED_BLOCK_SIZE] at small
            exact Nat.mod_eq_of_lt (by omega)
          rw [Nat.mul_zero, List.drop_zero, List.take_left' width,
            Numeral.littleEndian_toLittleEndian, fits, List.getD_cons_zero]
      | succ i =>
          rw [show 4 * (i + 1) = 4 + 4 * i by ring, ← List.drop_drop, List.drop_left' width,
            List.getD_cons_succ]
          exact recurse (Nat.lt_of_succ_lt_succ inside)
            fun other member => bounded other (List.mem_cons_of_mem _ member)

/-- Every plane decodes to itself, whichever were delta-coded or compressed. -/
theorem decodePlanes_encodePlanes {delta : Nat → Bytes → Bool} {planes : List Bytes}
    {rcFlags actualFlags elements : Nat} (lengths : ∀ plane ∈ planes, plane.length = elements)
    (bounded : elements ≤ MAX_DECOMPRESSED_BLOCK_SIZE)
    (actual : ∀ i plane, planes[i]? = some plane → actualFlags.testBit i =
      (decide ((encodePlane rcFlags i (maybeDelta delta i plane)).length <
        (maybeDelta delta i plane).length) && rcFlags.testBit i)) :
    ((planes.mapIdx (maybeDelta delta)).mapIdx (encodePlane rcFlags)).zipIdx.mapM
      (decodePlane actualFlags (planeFlags (planes.mapIdx delta)) elements) = .ok planes := by
  have steps : ∀ view ∈ ((planes.mapIdx (maybeDelta delta)).mapIdx (encodePlane rcFlags)).zipIdx,
      decodePlane actualFlags (planeFlags (planes.mapIdx delta)) elements view =
        .ok (planes.getD view.2 []) := by
    rintro ⟨encoded, i⟩ member
    have entry := List.mem_zipIdx_iff_getElem?.mp member
    simp only [List.getElem?_mapIdx, Option.map_map] at entry
    obtain ⟨plane, present, rfl⟩ := Option.map_eq_some_iff.mp entry
    have planeMem := List.mem_of_getElem? present
    have decoded := decodePlaneData_encodePlane actualFlags
      ((length_maybeDelta delta i plane).trans (lengths plane planeMem)) bounded
      (actual i plane present)
    have mark : (planeFlags (planes.mapIdx delta)).testBit i = delta i plane := by
      rw [testBit_planeFlags, List.getD_eq_getElem?_getD, List.getElem?_mapIdx, present,
        Option.map_some, Option.getD_some]
    have original : planes.getD i [] = plane := by
      rw [List.getD_eq_getElem?_getD, present, Option.getD_some]
    change (decodePlaneData actualFlags elements i
      (encodePlane rcFlags i (maybeDelta delta i plane)) >>= fun plane => .ok
        (if (planeFlags (planes.mapIdx delta)).testBit i then deltaDecode plane else plane)) =
          .ok (planes.getD i [])
    rw [decoded, Result.ok_bind, mark, original, maybeDelta]
    split
    · rw [deltaDecode_deltaEncode]
    · rfl
  rw [Result.mapM_ok steps]
  congr 1
  apply List.ext_getElem?
  intro i
  simp only [List.getElem?_map, List.getElem?_zipIdx, List.getElem?_mapIdx, Option.map_map,
    Nat.zero_add]
  cases present : planes[i]? with
  | none => rfl
  | some plane =>
      simp only [Option.map_some, Function.comp_apply, List.getD_eq_getElem?_getD, present,
        Option.getD_some]

theorem fromU8_planes (width : BytePlaneWidth) :
    BytePlaneWidth.fromU8 (UInt8.ofNat width.planes) = some width := by cases width <;> rfl

/-- Each piece takes four bytes in the table of sizes. -/
theorem length_sizes (pieces : List Bytes) :
    (pieces.flatMap fun piece => Numeral.toLittleEndian 4 piece.length).length =
      4 * pieces.length := by
  induction pieces with
  | nil => rfl
  | cons piece pieces recurse =>
      rw [List.flatMap_cons, List.length_append, recurse, Numeral.length_toLittleEndian,
        List.length_cons]
      ring

/-- The sizes at the head of a payload read back. -/
theorem planeSizes_eq {pieces : List Bytes} {widthByte flagsByte : UInt8} {rest : Bytes} {w : Nat}
    (count : pieces.length = w)
    (bounded : ∀ piece ∈ pieces, piece.length ≤ MAX_DECOMPRESSED_BLOCK_SIZE) :
    (List.range w).mapM (planeSize (widthByte :: flagsByte ::
      ((pieces.flatMap fun piece => Numeral.toLittleEndian 4 piece.length) ++ rest))) =
        .ok (pieces.map List.length) := by
  have steps : ∀ i ∈ List.range w, planeSize (widthByte :: flagsByte ::
      ((pieces.flatMap fun piece => Numeral.toLittleEndian 4 piece.length) ++ rest)) i =
        .ok (pieces.getD i []).length := by
    intro i member
    have inside : i < pieces.length := by
      rw [count]
      exact List.mem_range.mp member
    have skip : 2 + 4 * i = 4 * i + 2 := Nat.add_comm _ _
    have small : (pieces.getD i []).length ≤ MAX_DECOMPRESSED_BLOCK_SIZE := by
      rw [List.getD_eq_getElem _ _ inside]
      exact bounded _ (List.getElem_mem inside)
    rw [planeSize, skip]
    simp only [List.drop_succ_cons, storedSize_eq pieces rest inside bounded]
    exact if_neg (not_lt.mpr small)
  rw [Result.mapM_ok steps]
  congr 1
  apply List.ext_getElem
  · rw [List.length_map, List.length_range, List.length_map, count]
  · intro i left right
    rw [List.length_map] at right
    rw [List.getElem_map, List.getElem_map, List.getElem_range, List.getD_eq_getElem _ _ right]

end BytePlane

open BytePlane

/-- **Byte-plane round trip, whatever the entropies decide.** -/
theorem byteplaneDecode_byteplaneEncodeWith {delta compressible : Nat → Bytes → Bool}
    {data payload : Bytes} {width : BytePlaneWidth}
    (success : byteplaneEncodeWith delta compressible data width = some payload) :
    byteplaneDecode payload data.length = .ok data ∧ payload.length < data.length := by
  rw [byteplaneEncodeWith] at success
  split at success
  · cases success
  rename_i bounds
  simp only [not_or, not_lt] at bounds
  obtain ⟨-, bounded⟩ := bounds
  simp only at success
  set planes := (split data width).1 with planesDef
  set tail := (split data width).2 with tailDef
  set deltaPlanes := planes.mapIdx (maybeDelta delta) with deltaPlanesDef
  set rcFlags := planeFlags (deltaPlanes.mapIdx compressible) with rcFlagsDef
  set encodedPlanes := deltaPlanes.mapIdx (encodePlane rcFlags) with encodedDef
  set actualFlags := planeFlags ((encodedPlanes.zip deltaPlanes).mapIdx fun i pair =>
    decide (pair.1.length < pair.2.length) && rcFlags.testBit i) with actualDef
  set deltaFlags := planeFlags (planes.mapIdx delta) with deltaFlagsDef
  split at success
  · cases success
  split at success
  · cases success
  rename_i shorter
  obtain rfl := Option.some.inj success
  have positive := planes_pos width
  have few := planes_le width
  have elementsLe : data.length / width.planes ≤ MAX_DECOMPRESSED_BLOCK_SIZE :=
    le_trans (Nat.div_le_self _ _) bounded
  have planesLength : planes.length = width.planes := length_split data width
  have encodedLength : encodedPlanes.length = width.planes := by
    rw [encodedDef, List.length_mapIdx, deltaPlanesDef, List.length_mapIdx, planesLength]
  have tailLength : tail.length = data.length % width.planes := length_split_tail data width
  have actual : ∀ i plane, planes[i]? = some plane → actualFlags.testBit i =
      (decide ((encodePlane rcFlags i (maybeDelta delta i plane)).length <
        (maybeDelta delta i plane).length) && rcFlags.testBit i) := by
    intro i plane present
    rw [actualDef, testBit_planeFlags, List.getD_eq_getElem?_getD, List.getElem?_mapIdx,
      List.zip, List.getElem?_zipWith, encodedDef, deltaPlanesDef]
    simp only [List.getElem?_mapIdx, present, Option.map_some, Option.getD_some]
  have pieceLength : ∀ piece ∈ encodedPlanes, piece.length ≤ MAX_DECOMPRESSED_BLOCK_SIZE := by
    intro piece member
    obtain ⟨i, inside, rfl⟩ := List.mem_iff_getElem.mp member
    simp only [encodedDef, deltaPlanesDef, List.getElem_mapIdx]
    refine le_trans (length_encodePlane_le _ _ _) ?_
    rw [length_maybeDelta, length_of_mem_split (List.getElem_mem _)]
    exact elementsLe
  have lowFits : actualFlags < 16 := planeFlags_lt _ (by
    rw [List.length_mapIdx, List.length_zip, encodedLength]
    omega)
  have highFits : deltaFlags < 16 := planeFlags_lt _ (by
    rw [List.length_mapIdx, planesLength]
    exact few)
  obtain ⟨lowNibble, highNibble⟩ := combined_nibbles lowFits highFits
  have sizesLength := length_sizes encodedPlanes
  have flattenLength : encodedPlanes.flatten.length = (encodedPlanes.map List.length).sum :=
    List.length_flatten
  have payloadLength : (UInt8.ofNat width.planes ::
      UInt8.ofNat (actualFlags ||| deltaFlags <<< 4) ::
      ((encodedPlanes.flatMap fun plane => Numeral.toLittleEndian 4 plane.length) ++
        encodedPlanes.flatten ++ tail)).length =
      2 + 4 * width.planes + (encodedPlanes.map List.length).sum + tail.length := by
    simp only [List.length_cons, List.length_append, sizesLength, flattenLength, encodedLength]
    omega
  refine ⟨?_, by omega⟩
  have body : (UInt8.ofNat width.planes :: UInt8.ofNat (actualFlags ||| deltaFlags <<< 4) ::
      ((encodedPlanes.flatMap fun plane => Numeral.toLittleEndian 4 plane.length) ++
        encodedPlanes.flatten ++ tail)).drop (2 + 4 * width.planes) =
      encodedPlanes.flatten ++ tail := by
    rw [Nat.add_comm 2, List.drop_succ_cons, List.drop_succ_cons, List.append_assoc]
    exact List.drop_left' (by rw [sizesLength, encodedLength])
  have decoded : encodedPlanes.zipIdx.mapM
      (decodePlane actualFlags deltaFlags (data.length / width.planes)) = .ok planes :=
    decodePlanes_encodePlanes (fun plane member => length_of_mem_split member) elementsLe actual
  have sizes : (List.range width.planes).mapM (planeSize (UInt8.ofNat width.planes ::
      UInt8.ofNat (actualFlags ||| deltaFlags <<< 4) ::
      ((encodedPlanes.flatMap fun plane => Numeral.toLittleEndian 4 plane.length) ++
        encodedPlanes.flatten ++ tail))) = .ok (encodedPlanes.map List.length) := by
    rw [List.append_assoc]
    exact planeSizes_eq encodedLength pieceLength
  rw [byteplaneDecode]
  simp only [fromU8_planes, lowNibble, highNibble]
  rw [if_neg (by omega), sizes, Result.ok_bind, if_neg (by omega), body]
  simp only [planeViews_flatten]
  rw [decoded, Result.ok_bind, ← tailLength, List.take_length, planesDef, tailDef, merge_split]
  simp only [ne_eq, not_true_eq_false, ↓reduceIte]

/-- **Byte-plane round trip under every outcome of the heuristics**, those the entropies decide
included: what is encoded is shorter than the data and decodes to it. -/
theorem byteplane_roundTrip (data : Bytes) (width : BytePlaneWidth) :
    (∀ delta compressible payload,
      byteplaneEncodeWith delta compressible data width = some payload →
      payload.length < data.length ∧ byteplaneDecode payload data.length = .ok data) ∧
    ∀ (format : FloatFormat) payload, byteplaneEncode format data width = some payload →
      payload.length < data.length ∧ byteplaneDecode payload data.length = .ok data := by
  have general (delta compressible : Nat → Bytes → Bool) (payload : Bytes)
      (success : byteplaneEncodeWith delta compressible data width = some payload) :
      payload.length < data.length ∧ byteplaneDecode payload data.length = .ok data :=
    (byteplaneDecode_byteplaneEncodeWith success).symm
  exact ⟨general, fun format => general _ _⟩

/-- Zeros are shortened, so they come back. -/
theorem byteplane_roundTrip_zeros :
    ∃ payload,
      byteplaneEncodeWith (fun _ _ => false) (fun _ _ => true) (List.replicate 64 0) .two =
          some payload ∧
        payload.length < (List.replicate 64 (0 : UInt8)).length ∧
          byteplaneDecode payload (List.replicate 64 (0 : UInt8)).length =
            .ok (List.replicate 64 0) := by
  have shortened : (byteplaneEncodeWith (fun _ _ => false) (fun _ _ => true)
      (List.replicate 64 0) .two).isSome := by decide +kernel
  obtain ⟨payload, success⟩ := Option.isSome_iff_exists.mp shortened
  exact ⟨payload, success, (byteplane_roundTrip _ _).1 _ _ payload success⟩

end AetherArch
