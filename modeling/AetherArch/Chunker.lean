import AetherArch.Analyzer

/-! # Chunks

A chunk of content with what is computed ahead of its compression.
-/

namespace AetherArch

/-- A view of a chunk with its hash and entropy. -/
structure ChunkRef (format : FloatFormat) where
  data : Bytes
  length : Nat
  length_eq : length = data.length
  blake3Hash : Digest
  entropy : format.Carrier

namespace Chunker

/-- Minimum chunk size. -/
def MIN_CHUNK_SIZE : Nat := 16 * 1024

/-- Average chunk size. -/
def AVG_CHUNK_SIZE : Nat := 512 * 1024

/-- Maximum chunk size. -/
def MAX_CHUNK_SIZE : Nat := 8 * 1024 * 1024

/-- A content-defined chunker: where it cuts data, as offsets and lengths, given the minimum, the
average and the maximum length of a chunk. -/
abbrev FastCdc := Bytes → Nat → Nat → Nat → List (Nat × Nat)

variable (hashing : Hashing) {format : FloatFormat}

/-- A chunk with what is computed ahead. -/
def chunkRef (format : FloatFormat) (data : Bytes) : ChunkRef format where
  data := data
  length := data.length
  length_eq := rfl
  blake3Hash := hashing.blake3 data
  entropy := shannonEntropy format data

/-- Break data into content-defined chunks. -/
def chunkDataRefs (format : FloatFormat) (fastCdc : FastCdc) (data : Bytes) :
    List (ChunkRef format) :=
  if data.isEmpty then []
  else
    (fastCdc data MIN_CHUNK_SIZE AVG_CHUNK_SIZE MAX_CHUNK_SIZE).map fun (offset, length) =>
      chunkRef hashing format ((data.drop offset).take length)

/-- Break data into chunks of a fixed size. -/
def chunkFixedRefs (format : FloatFormat) (blockSize : Nat) (positive : 0 < blockSize)
    (data : Bytes) : List (ChunkRef format) :=
  if data = [] then []
  else
    chunkRef hashing format (data.take blockSize) ::
      chunkFixedRefs format blockSize positive (data.drop blockSize)
termination_by data.length
decreasing_by
  rename_i present
  rw [List.length_drop]
  exact Nat.sub_lt (List.length_pos_iff.mpr present) positive

/-- The chunks of a file: content-defined, unless it is shorter than one chunk. -/
def fileChunks (format : FloatFormat) (fastCdc : FastCdc) (fileData : Bytes) :
    List (ChunkRef format) :=
  if fileData.length < MIN_CHUNK_SIZE then
    chunkFixedRefs hashing format AVG_CHUNK_SIZE (by decide) fileData
  else chunkDataRefs hashing format fastCdc fileData

/-! ## Chunks tile their file -/

/-- Cuts that follow each other from a position to another. -/
inductive Tiles (stop : Nat) : Nat → List (Nat × Nat) → Prop
  | nil : Tiles stop stop []
  | cons {start length : Nat} {cuts : List (Nat × Nat)} :
      Tiles stop (start + length) cuts → Tiles stop start ((start, length) :: cuts)

/-- The cuts of a chunker partition what it cuts. -/
def FastCdc.Partitions (fastCdc : FastCdc) : Prop :=
  ∀ data, Tiles data.length 0 (fastCdc data MIN_CHUNK_SIZE AVG_CHUNK_SIZE MAX_CHUNK_SIZE)

variable {hashing}

theorem Tiles.le {stop start : Nat} {cuts : List (Nat × Nat)} (tiles : Tiles stop start cuts) :
    start ≤ stop := by
  induction tiles with
  | nil => exact Nat.le_refl stop
  | cons _ recurse => exact le_of_add_le_left recurse

theorem Tiles.flatMap_eq {start : Nat} {data : Bytes} {cuts : List (Nat × Nat)}
    (tiles : Tiles data.length start cuts) :
    cuts.flatMap (fun cut => (data.drop cut.1).take cut.2) = data.drop start := by
  induction tiles with
  | nil => exact List.drop_length.symm
  | @cons start length cuts _ recurse =>
      rw [List.flatMap_cons, recurse, ← List.drop_drop, List.take_append_drop]

theorem chunkDataRefs_flatMap {fastCdc : FastCdc} (partitions : fastCdc.Partitions)
    (data : Bytes) : (chunkDataRefs hashing format fastCdc data).flatMap ChunkRef.data = data := by
  rw [chunkDataRefs]
  split
  · rename_i empty
    exact (List.isEmpty_iff.mp empty).symm
  · rw [List.flatMap_map]
    exact (partitions data).flatMap_eq

theorem chunkFixedRefs_flatMap (blockSize : Nat) (positive : 0 < blockSize) (data : Bytes) :
    (chunkFixedRefs hashing format blockSize positive data).flatMap ChunkRef.data = data := by
  induction data using chunkFixedRefs.induct blockSize positive with
  | case1 => rw [chunkFixedRefs, if_pos rfl]; rfl
  | case2 data present recurse =>
      rw [chunkFixedRefs, if_neg present, List.flatMap_cons, recurse]
      exact List.take_append_drop blockSize data

/-- **The chunks of a file are its content.** -/
theorem fileChunks_flatMap {fastCdc : FastCdc} (partitions : fastCdc.Partitions)
    (fileData : Bytes) :
    (fileChunks hashing format fastCdc fileData).flatMap ChunkRef.data = fileData := by
  rw [fileChunks]
  split
  · exact chunkFixedRefs_flatMap ..
  · exact chunkDataRefs_flatMap partitions fileData

end Chunker

end AetherArch
