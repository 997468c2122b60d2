import AetherArch.Coding.BytePlaneRoundTrip
import AetherArch.Library.Pointwise
import AetherArch.Pipeline.DecodedSize
import AetherArch.Machine.Rans

/-! # Byte planes by machine steps

The payload cut into planes by a cursor, the running sums of a plane in place, and the planes
merged element by element. The sizes are the archive's, and every slice taken with them is
checked.
-/

namespace AetherArch

open Checked BytePlane

namespace Machine

/-- The stored size of a plane, within the limit. -/
def planeSize (payload : Bytes) (i : Nat) : Run AetherError Nat := do
  let before ← mul 64 4 i
  let offset ← add 64 2 before
  let stop ← add 64 offset 4
  let sizeBytes ← slice payload offset stop
  let size := Numeral.littleEndian sizeBytes
  if size > MAX_DECOMPRESSED_BLOCK_SIZE then
    refuse (.resourceLimitExceeded
      s!"BytePlane plane {i} size {size} exceeds safety limit {MAX_DECOMPRESSED_BLOCK_SIZE}")
  else .ok size

/-- Cut the payload into pieces of given sizes from a cursor on. -/
def planeViews (payload : Bytes) : (sizes : List Nat) → (dataOffset : Nat) →
    Run AetherError (List Bytes × Nat)
  | [], dataOffset => .ok ([], dataOffset)
  | size :: sizes, dataOffset => do
      let stop ← add 64 dataOffset size
      let view ← slice payload dataOffset stop
      let (views, last) ← planeViews payload sizes stop
      .ok (view :: views, last)

/-- One round of the running sums: every byte is added to the one before. -/
def deltaRound (i : Nat) (plane : Bytes) : Run AetherError Bytes := do
  let byte ← index plane i
  let before ← sub i 1
  let previous ← index plane before
  put plane i (byte + previous)

def deltaDecode (plane : Bytes) : Run AetherError Bytes :=
  forRange deltaRound 1 (plane.length - 1) plane

/-- Undo the range coding of a plane. -/
def decodePlaneData (rcFlags elements i : Nat) (planeData : Bytes) : Run AetherError Bytes :=
  if rcFlags.testBit i then decodeBlock planeData elements Order0Model.new
  else if planeData.length ≠ elements then
    refuse (.decompression (s!"BytePlane raw plane {i} size mismatch: {planeData.length} vs "
      ++ s!"expected {elements}"))
  else .ok planeData

/-- Decode one plane. -/
def decodePlane (rcFlags deltaFlags elements : Nat) (view : Bytes × Nat) :
    Run AetherError Bytes := do
  let plane ← decodePlaneData rcFlags elements view.2 view.1
  if deltaFlags.testBit view.2 then deltaDecode plane else .ok plane

/-- Write one element: its bytes from the planes in turn. -/
def mergeRound (planes : List Bytes) (i : Nat) (data : Bytes) : Run AetherError Bytes := do
  let row ← planes.mapM fun plane => index plane i
  let start ← mul 64 i planes.length
  let stop ← add 64 start planes.length
  copyFrom data start stop row

/-- Interleave byte planes, appending the bytes left over. -/
def merge (planes : List Bytes) (tail : Bytes) : Run AetherError Bytes :=
  match planes with
  | [] => .ok tail
  | first :: _ => do
      let front ← mul 64 first.length planes.length
      let size ← add 64 front tail.length
      let data ← forRange (mergeRound planes) 0 first.length (List.replicate size 0)
      copyFrom data front data.length tail

/-- Decode byte planes back to the original data. -/
def byteplaneDecode (payload : Bytes) (uncompressedSize : Nat) : Run AetherError Bytes :=
  if payload.length < 2 then
    refuse (.decompression "BytePlane payload too short: missing header")
  else do
    let widthByte ← index payload 0
    match BytePlaneWidth.fromU8 widthByte with
    | none => refuse (.decompression s!"BytePlane: invalid width byte {widthByte}")
    | some width => do
        let flagsByte ← index payload 1
        let rcFlags := flagsByte.toNat &&& 0x0F
        let deltaFlags := flagsByte.toNat >>> 4
        let w := width.planes
        let sizesLen ← mul 64 4 w
        let sizesEnd ← add 64 2 sizesLen
        if payload.length < sizesEnd then
          refuse (.decompression
            s!"BytePlane payload too short for {w} plane sizes: {payload.length} bytes")
        else do
          let planeSizes ← (List.range w).mapM (planeSize payload)
          let elements ← div uncompressedSize w
          let tailLen ← rem uncompressedSize w
          let totalPlaneBytes ← planeSizes.foldlM (add 64) 0
          let dataEnd ← add 64 sizesEnd totalPlaneBytes
          let expectedPayloadLen ← add 64 dataEnd tailLen
          if payload.length < expectedPayloadLen then
            refuse (.decompression (s!"BytePlane payload too short: need {expectedPayloadLen} "
              ++ s!"bytes, have {payload.length}"))
          else do
            let (views, dataOffset) ← planeViews payload planeSizes sizesEnd
            let planes ← views.zipIdx.mapM (decodePlane rcFlags deltaFlags elements)
            let stop ← add 64 dataOffset tailLen
            let tail ← slice payload dataOffset stop
            let result ← merge planes tail
            if result.length ≠ uncompressedSize then
              refuse (.decompression (s!"BytePlane size mismatch after merge: got "
                ++ s!"{result.length} expected {uncompressedSize}"))
            else .ok result

/-! ## Cutting -/

variable {payload : Bytes}

/-- The size of a plane is read. -/
theorem planeSize_eq {w i : Nat} (below : i < w) (few : w ≤ 4)
    (room : 2 + 4 * w ≤ payload.length) :
    planeSize payload i = ofResult (BytePlane.planeSize payload i) := by
  rw [planeSize, mul_of_lt (by omega), Result.ok_bind, add_of_lt (by omega), Result.ok_bind,
    add_of_lt (by omega), Result.ok_bind, slice_of_le (by omega) (by omega), Result.ok_bind,
    Nat.add_sub_cancel_left, BytePlane.planeSize]
  dsimp only
  split
  · rfl
  · rfl

/-- A stored size that is accepted is within the limit. -/
theorem planeSize_le {i size : Nat} (read : BytePlane.planeSize payload i = .ok size) :
    size ≤ MAX_DECOMPRESSED_BLOCK_SIZE := by
  rw [BytePlane.planeSize] at read
  split at read
  · cases read
  · rename_i within
    cases read
    exact not_lt.mp within

/-- The planes are cut out of the payload. -/
theorem planeViews_eq (addressable : payload.length < 2 ^ 63) {sizes : List Nat}
    {dataOffset : Nat} (room : dataOffset + sizes.sum ≤ payload.length) :
    planeViews payload sizes dataOffset =
        .ok ((BytePlane.planeViews sizes (payload.drop dataOffset)).1, dataOffset + sizes.sum) ∧
      (BytePlane.planeViews sizes (payload.drop dataOffset)).2 =
        payload.drop (dataOffset + sizes.sum) := by
  induction sizes generalizing dataOffset with
  | nil => exact ⟨rfl, rfl⟩
  | cons size sizes recurse =>
      rw [List.sum_cons, ← Nat.add_assoc] at room ⊢
      obtain ⟨ran, rest⟩ := recurse room
      rw [planeViews, add_of_lt (by omega), Result.ok_bind, slice_of_le (by omega) (by omega),
        Result.ok_bind, ran, Result.ok_bind, BytePlane.planeViews, List.drop_drop,
        Nat.add_sub_cancel_left]
      exact ⟨rfl, rest⟩

/-- There is one view for each size. -/
theorem length_planeViews (sizes : List Nat) (data : Bytes) :
    (BytePlane.planeViews sizes data).1.length = sizes.length := by
  induction sizes generalizing data with
  | nil => rfl
  | cons size sizes recurse =>
    rw [BytePlane.planeViews, List.length_cons, recurse, List.length_cons]

/-- No view is longer than the data. -/
theorem length_of_mem_planeViews {sizes : List Nat} {data view : Bytes}
    (member : view ∈ (BytePlane.planeViews sizes data).1) : view.length ≤ data.length := by
  induction sizes generalizing data with
  | nil => cases member
  | cons size sizes recurse =>
      rw [BytePlane.planeViews] at member
      rcases List.mem_cons.mp member with rfl | later
      · exact List.length_take_le' ..
      · have := recurse later
        rw [List.length_drop] at this
        omega

/-! ## Running sums -/

/-- Summing keeps the length. -/
theorem length_sumFrom (previous : UInt8) (plane : Bytes) :
    (sumFrom previous plane).length = plane.length := by
  induction plane generalizing previous with
  | nil => rfl
  | cons byte plane recurse => rw [sumFrom, List.length_cons, List.length_cons, recurse]

/-- Every running sum adds a byte to the sum before. -/
theorem getElem_sumFrom {previous : UInt8} {plane : Bytes} {i : Nat}
    (inside : i + 1 < (sumFrom previous plane).length) (entry : i + 1 < plane.length) :
    (sumFrom previous plane)[i + 1] = plane[i + 1] + (sumFrom previous plane)[i] := by
  induction plane generalizing previous i with
  | nil => exact absurd entry (Nat.not_lt_zero _)
  | cons byte plane recurse =>
      cases i with
      | zero =>
          cases plane with
          | nil => exact absurd entry (Nat.lt_irrefl _)
          | cons next plane => rfl
      | succ i => exact recurse (Nat.lt_of_succ_lt_succ inside) (Nat.lt_of_succ_lt_succ entry)

/-- **The running sums in place meet no fault.** -/
theorem deltaDecode_eq {plane : Bytes} (addressable : plane.length < 2 ^ 63) :
    deltaDecode plane = .ok (BytePlane.deltaDecode plane) := by
  cases plane with
  | nil => rfl
  | cons byte plane =>
      have length := length_sumFrom 0 (byte :: plane)
      obtain ⟨sums, ran, same⟩ := @forRange_ends AetherError Bytes deltaRound
        (fun i sums => sums =
          (sumFrom 0 (byte :: plane)).take i ++ (byte :: plane).drop i)
        1 plane.length (byte :: plane) (by
          rintro i sums above below rfl
          obtain ⟨i, rfl⟩ : ∃ before, i = before + 1 := ⟨i - 1, by omega⟩
          have inside : i + 1 < (byte :: plane).length := by
            rw [List.length_cons]
            omega
          have front : ((sumFrom 0 (byte :: plane)).take (i + 1)).length = i + 1 :=
            List.length_take_of_le (by rw [length]; omega)
          have whole : i + 1 < ((sumFrom 0 (byte :: plane)).take (i + 1) ++
              (byte :: plane).drop (i + 1)).length := by
            rw [List.length_append, front, List.length_drop]
            omega
          have current : ((sumFrom 0 (byte :: plane)).take (i + 1) ++
              (byte :: plane).drop (i + 1))[i + 1] = (byte :: plane)[i + 1] := by
            rw [List.getElem_append_right front.le]
            simp only [front, Nat.sub_self, List.getElem_drop, Nat.add_zero]
          have previous : ((sumFrom 0 (byte :: plane)).take (i + 1) ++
              (byte :: plane).drop (i + 1))[i] = (sumFrom 0 (byte :: plane))[i] := by
            rw [List.getElem_append_left (by omega), List.getElem_take]
          have summed := getElem_sumFrom (show i + 1 < (sumFrom 0 (byte :: plane)).length by
            rw [length]; exact inside) inside
          refine ⟨_, ?_, rfl⟩
          rw [deltaRound, index_of_lt whole, Result.ok_bind, sub_of_le above,
            Result.ok_bind, Nat.add_sub_cancel, index_of_lt (Nat.lt_of_succ_lt whole),
            Result.ok_bind, put_of_lt whole, current, previous, ← summed]
          congr 1
          rw [List.set_append_right _ _ front.le, front, Nat.sub_self,
            List.drop_eq_getElem_cons inside, List.set_cons_zero,
            List.take_succ_eq_append_getElem (show i + 1 < _ by rw [length]; exact inside),
            List.append_assoc, List.singleton_append])
        (by rw [sumFrom, UInt8.add_zero]; rfl)
      rw [deltaDecode, List.length_cons, Nat.add_sub_cancel, ran, same, Nat.add_comm,
        List.take_of_length_le (by rw [length, List.length_cons]),
        List.drop_eq_nil_of_le (by rw [List.length_cons]), List.append_nil]
      rfl

/-! ## Planes -/

/-- A decoded plane has as many bytes as asked for. -/
theorem length_decodePlaneData {rcFlags elements i : Nat} {planeData plane : Bytes}
    (read : BytePlane.decodePlaneData rcFlags elements i planeData = .ok plane) :
    plane.length = elements := by
  rw [BytePlane.decodePlaneData] at read
  split at read
  · exact Rans.length_decodeBlock read
  · split at read
    · cases read
    · rename_i same
      cases read
      exact not_not.mp same

/-- So has a plane that was differenced. -/
theorem length_decodePlane {rcFlags deltaFlags elements : Nat} {view : Bytes × Nat}
    {plane : Bytes} (read : BytePlane.decodePlane rcFlags deltaFlags elements view = .ok plane) :
    plane.length = elements := by
  obtain ⟨data, found, rest⟩ := Result.bind_eq_ok.mp read
  cases rest
  split
  · exact (length_sumFrom 0 data).trans (length_decodePlaneData found)
  · exact length_decodePlaneData found

/-- Decoding a plane does not fault. -/
theorem decodePlane_eq {rcFlags deltaFlags elements : Nat} {view : Bytes × Nat}
    (addressable : view.1.length < 2 ^ 63) (claimed : elements < 2 ^ 63) :
    decodePlane rcFlags deltaFlags elements view =
      ofResult (BytePlane.decodePlane rcFlags deltaFlags elements view) := by
  have data : decodePlaneData rcFlags elements view.2 view.1 =
      ofResult (BytePlane.decodePlaneData rcFlags elements view.2 view.1) := by
    rw [decodePlaneData, BytePlane.decodePlaneData]
    split
    · exact decodeBlock_eq addressable elements (Order0Model.contract Order0Model.new_wellFormed)
    · split
      · rfl
      · rfl
  rw [decodePlane, data, BytePlane.decodePlane]
  cases found : BytePlane.decodePlaneData rcFlags elements view.2 view.1 with
  | error error => rfl
  | ok plane =>
      have length := length_decodePlaneData found
      rw [ofResult_ok, Result.ok_bind, Result.ok_bind]
      split
      · rw [deltaDecode_eq (length ▸ claimed), ofResult_ok]
      · rfl

/-! ## Merging -/

/-- The bytes of one element. -/
def rowOf (planes : List Bytes) (i : Nat) : Bytes := planes.map fun plane => plane.getD i 0

/-- A row is read across the planes. -/
theorem row_eq {planes : List Bytes} {i : Nat} (inside : ∀ plane ∈ planes, i < plane.length) :
    (planes.mapM (fun plane => index plane i) : Run AetherError Bytes) =
      .ok (rowOf planes i) := by
  have ran := @mapM_eq AetherError _ _ (fun plane : Bytes => index plane i)
    (fun plane => .ok (plane.getD i 0)) planes (fun plane member => by
      rw [index_of_lt (inside plane member), List.getD_eq_getElem _ _ (inside plane member)]
      rfl)
  rw [ran, Result.mapM_ok fun _ _ => rfl]
  rfl

/-- The rows hold one byte for each plane. -/
theorem length_rows (planes : List Bytes) (count : Nat) :
    ((List.range count).flatMap (rowOf planes)).length = count * planes.length := by
  induction count with
  | zero => rw [Nat.zero_mul]; rfl
  | succ count recurse =>
      rw [List.range_succ, List.flatMap_append, List.flatMap_singleton, List.length_append, recurse,
        rowOf, List.length_map, Nat.succ_mul]

/-- **Merging planes of one length meets no fault.** -/
theorem merge_eq {planes : List Bytes} {elements : Nat}
    (same : ∀ plane ∈ planes, plane.length = elements) (nonempty : planes ≠ []) {tail : Bytes}
    (addressable : elements * planes.length + tail.length < 2 ^ 63) :
    merge planes tail = .ok (BytePlane.merge planes tail) := by
  obtain ⟨first, others, split⟩ := List.exists_cons_of_ne_nil nonempty
  have firstLength : first.length = elements :=
    same first (by rw [split]; exact List.mem_cons_self ..)
  obtain ⟨data, ran, merged⟩ := @forRange_ends AetherError Bytes (mergeRound planes)
    (fun i data => data = (List.range i).flatMap (rowOf planes) ++
      List.replicate (elements * planes.length + tail.length - i * planes.length) 0)
    0 elements (List.replicate (elements * planes.length + tail.length) 0) (by
      rintro i data - below rfl
      rw [Nat.zero_add] at below
      have rows := length_rows planes i
      have ends : (i + 1) * planes.length ≤ elements * planes.length :=
        Nat.mul_le_mul_right _ below
      rw [Nat.succ_mul] at ends
      refine ⟨_, ?_, rfl⟩
      rw [mergeRound, row_eq fun plane member => by rw [same plane member]; exact below,
        Result.ok_bind, mul_of_lt (by omega), Result.ok_bind, add_of_lt (by omega),
        Result.ok_bind, copyFrom_of_le (Nat.le_add_right _ _)
          (by rw [List.length_append, rows, List.length_replicate]; omega)
          (by rw [rowOf, List.length_map, Nat.add_sub_cancel_left])]
      congr 1
      rw [List.take_left' rows, List.drop_append, rows,
        List.drop_eq_nil_of_le (by rw [rows]; omega), List.nil_append, List.drop_replicate,
        List.range_succ, List.flatMap_append, List.flatMap_singleton, List.append_assoc]
      congr 3
      rw [Nat.succ_mul]
      omega)
    (by rw [Nat.zero_mul]; rfl)
  have rows := length_rows planes elements
  rw [Nat.zero_add, Nat.add_sub_cancel_left] at merged
  have whole : data.length = elements * planes.length + tail.length := by
    rw [merged, List.length_append, rows, List.length_replicate]
  rw [merge.eq_def, split]
  dsimp only
  rw [← split, firstLength, mul_of_lt (by omega), Result.ok_bind, add_of_lt (by omega),
    Result.ok_bind, ran, Result.ok_bind,
    copyFrom_of_le (by omega) le_rfl (by rw [whole, Nat.add_sub_cancel_left]), merged,
    List.take_left' rows, List.drop_length, List.append_nil, BytePlane.merge.eq_def,
    split]
  dsimp only
  rw [← split, firstLength]
  rfl

/-! ## Payloads -/

/-- **Decoding byte planes meets no fault.** -/
theorem byteplaneDecode_eq (addressable : payload.length < 2 ^ 63) {uncompressedSize : Nat}
    (claimed : uncompressedSize < 2 ^ 63) :
    byteplaneDecode payload uncompressedSize =
      ofResult (AetherArch.byteplaneDecode payload uncompressedSize) := by
  match payload, addressable with
  | [], _ => rfl
  | [_], _ => rfl
  | widthByte :: flagsByte :: rest, addressable =>
      have long : ¬(widthByte :: flagsByte :: rest).length < 2 := by
        rw [List.length_cons, List.length_cons]
        omega
      rw [byteplaneDecode, if_neg long, index_of_lt (by omega), Result.ok_bind,
        AetherArch.byteplaneDecode]
      dsimp only [List.getElem_cons_zero]
      cases BytePlaneWidth.fromU8 widthByte with
      | none => rfl
      | some width =>
          have few := planes_le width
          have positive := planes_pos width
          dsimp only
          rw [index_of_lt (by omega), Result.ok_bind, mul_of_lt (by omega), Result.ok_bind,
            add_of_lt (by omega), Result.ok_bind]
          dsimp only [List.getElem_cons_succ, List.getElem_cons_zero]
          generalize widthByte :: flagsByte :: rest = payload at addressable ⊢
          generalize flagsByte.toNat &&& 0x0F = rcFlags
          generalize flagsByte.toNat >>> 4 = deltaFlags
          by_cases short : payload.length < 2 + 4 * width.planes
          · rw [if_pos short, if_pos short, ofResult_error]
          · rw [if_neg short, if_neg short, mapM_eq fun i member => planeSize_eq
              (List.mem_range.mp member) few (not_lt.mp short)]
            cases read : (List.range width.planes).mapM (BytePlane.planeSize payload) with
            | error error => rfl
            | ok planeSizes =>
                have steps := Result.mapM_eq_ok.mp read
                have count : planeSizes.length = width.planes := by
                  rw [← steps.length_eq, List.length_range]
                have bounded : planeSizes.sum ≤ width.planes * MAX_DECOMPRESSED_BLOCK_SIZE := by
                  rw [← count]
                  apply List.sum_le_card_nsmul
                  intro size member
                  obtain ⟨i, -, stored⟩ := steps.exists_left member
                  exact planeSize_le stored
                have limit : MAX_DECOMPRESSED_BLOCK_SIZE = 64 * 1024 * 1024 := rfl
                have total : planeSizes.sum ≤ 4 * (64 * 1024 * 1024) :=
                  bounded.trans (Nat.mul_le_mul few limit.le)
                have tailLt : uncompressedSize % width.planes < width.planes :=
                  Nat.mod_lt _ positive
                rw [ofResult_ok, Result.ok_bind, Result.ok_bind, div_of_pos positive,
                  Result.ok_bind, rem_of_pos positive, Result.ok_bind,
                  foldlM_add_of_lt (by omega), Result.ok_bind, Nat.zero_add,
                  add_of_lt (by omega), Result.ok_bind, add_of_lt (by omega), Result.ok_bind]
                by_cases missing : payload.length <
                    2 + 4 * width.planes + planeSizes.sum + uncompressedSize % width.planes
                · rw [if_pos missing, if_pos missing, ofResult_error]
                · obtain ⟨cut, rest⟩ := planeViews_eq addressable
                    (show 2 + 4 * width.planes + planeSizes.sum ≤ payload.length by omega)
                  have views := length_planeViews planeSizes
                    (payload.drop (2 + 4 * width.planes))
                  have shorter (view : Bytes) (member : view ∈ (BytePlane.planeViews planeSizes
                      (payload.drop (2 + 4 * width.planes))).1) : view.length < 2 ^ 63 := by
                    have := length_of_mem_planeViews member
                    rw [List.length_drop] at this
                    omega
                  rw [if_neg missing, if_neg missing, cut, Result.ok_bind]
                  generalize BytePlane.planeViews planeSizes
                    (payload.drop (2 + 4 * width.planes)) = cuts at rest views shorter ⊢
                  obtain ⟨pieces, tail⟩ := cuts
                  dsimp only at rest views shorter ⊢
                  have small : uncompressedSize / width.planes < 2 ^ 63 :=
                    (Nat.div_le_self _ _).trans_lt claimed
                  rw [mapM_eq fun view member =>
                    decodePlane_eq (shorter view.1 (List.fst_mem_of_mem_zipIdx member)) small]
                  cases decoded : pieces.zipIdx.mapM (BytePlane.decodePlane rcFlags deltaFlags
                      (uncompressedSize / width.planes)) with
                  | error error => rfl
                  | ok planes =>
                      have steps := Result.mapM_eq_ok.mp decoded
                      have same (plane : Bytes) (member : plane ∈ planes) :
                          plane.length = uncompressedSize / width.planes := by
                        obtain ⟨view, -, found⟩ := steps.exists_left member
                        exact length_decodePlane found
                      have planeCount : planes.length = width.planes := by
                        rw [← steps.length_eq, List.length_zipIdx, views, count]
                      have nonempty : planes ≠ [] := by
                        rintro rfl
                        rw [List.length_nil] at planeCount
                        omega
                      have whole := Nat.div_add_mod' uncompressedSize width.planes
                      rw [ofResult_ok, Result.ok_bind, Result.ok_bind, add_of_lt (by omega),
                        Result.ok_bind, slice_of_le (Nat.le_add_right _ _) (by omega),
                        Result.ok_bind, Nat.add_sub_cancel_left, rest, merge_eq same nonempty (by
                          rw [planeCount, List.length_take, List.length_drop]
                          omega), Result.ok_bind]
                      split
                      · rfl
                      · rfl

end Machine

end AetherArch
