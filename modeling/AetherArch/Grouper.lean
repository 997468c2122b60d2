import AetherArch.Analyzer

/-! # Semantic solid grouping

Files of one content type are put together, in groups of a limited size. Every file is in exactly
one group, and the groups are numbered in order.
-/

namespace AetherArch

/-- All content types, by ascending code. -/
def ContentType.ascending : List ContentType :=
  [.mixed, .text, .binaryStructured, .binaryRandom, .image, .executable, .numericData]

theorem ContentType.mem_ascending (type : ContentType) : type ∈ ascending := by
  cases type <;> decide

theorem ContentType.nodup_ascending : ascending.Nodup := by decide

/-- What the grouper knows about a file. -/
structure FileInfo (format : FloatFormat) where
  path : String
  size : UInt64
  contentType : ContentType
  meanEntropy : format.Carrier

/-- Files to be compressed together, by their positions among `n` files. -/
structure SolidGroup (n : Nat) where
  groupId : UInt32
  contentType : ContentType
  recommendedMethod : Analyzer.RecommendedMethod
  fileIndices : List (Fin n)
  totalSize : UInt64
  deriving DecidableEq

namespace Grouper

/-- Maximum total size of the files of a group. -/
def MAX_SOLID_GROUP_SIZE : UInt64 := 256 * 1024 * 1024

variable {format : FloatFormat} {n : Nat} (files : Fin n → FileInfo format)

/-- Whether a file sorts before another in its bucket: by extension, then by size. -/
def inOrder (first second : Fin n) : Bool :=
  let extFirst := Analyzer.extension (files first).path
  let extSecond := Analyzer.extension (files second).path
  extFirst < extSecond ∨ extFirst = extSecond ∧ (files first).size ≤ (files second).size

/-- The groups so far and the number of the next one. -/
structure Grouping (n : Nat) where
  groups : List (SolidGroup n)
  groupId : UInt32

/-- Close the current group. -/
def flush (contentType : ContentType) (method : Analyzer.RecommendedMethod)
    (grouping : Grouping n) (currentIndices : List (Fin n)) (currentSize : UInt64) :
    Grouping n where
  groups := grouping.groups ++
    [{ groupId := grouping.groupId, contentType, recommendedMethod := method
       fileIndices := currentIndices, totalSize := currentSize }]
  groupId := grouping.groupId + 1

/-- Split the files of a bucket into groups. -/
def splitBucket (contentType : ContentType) (method : Analyzer.RecommendedMethod) :
    List (Fin n) → Grouping n → (currentIndices : List (Fin n)) → (currentSize : UInt64) →
      Grouping n
  | [], grouping, currentIndices, currentSize =>
      if currentIndices.isEmpty then grouping
      else flush contentType method grouping currentIndices currentSize
  | idx :: bucket, grouping, currentIndices, currentSize =>
      if currentSize + (files idx).size > MAX_SOLID_GROUP_SIZE ∧ ¬currentIndices.isEmpty then
        splitBucket contentType method bucket
          (flush contentType method grouping currentIndices currentSize) [idx] (files idx).size
      else
        splitBucket contentType method bucket grouping (currentIndices ++ [idx])
          (currentSize + (files idx).size)

/-- The files of a content type, sorted. -/
def bucketOf (contentType : ContentType) : List (Fin n) :=
  ((List.finRange n).filter fun idx => (files idx).contentType = contentType).mergeSort
    (inOrder files)

/-- Group the files of a content type, if there are any. -/
def groupBucket (grouping : Grouping n) (contentType : ContentType) : Grouping n :=
  let bucket := bucketOf files contentType
  if bucket.isEmpty then grouping
  else
    let meanEntropy : format.Carrier :=
      bucket.foldl (fun sum idx => sum + (files idx).meanEntropy) 0.0 /
        (bucket.length : format.Carrier)
    splitBucket files contentType (Analyzer.recommendMethodFor meanEntropy contentType) bucket
      grouping [] 0

/-- Group files by content type for solid archiving. -/
def groupFiles : List (SolidGroup n) :=
  (ContentType.ascending.foldl (groupBucket files) { groups := [], groupId := 0 }).groups

/-! ## Every file is in one group -/

/-- The files of the groups, in order. -/
def Grouping.members (grouping : Grouping n) : List (Fin n) :=
  grouping.groups.flatMap SolidGroup.fileIndices

variable {files}

/-- Flushing adds the current files to the members. -/
theorem members_flush (contentType : ContentType) (method : Analyzer.RecommendedMethod)
    (grouping : Grouping n) (currentIndices : List (Fin n)) (currentSize : UInt64) :
    (flush contentType method grouping currentIndices currentSize).members =
      grouping.members ++ currentIndices := by
  rw [Grouping.members, flush, List.flatMap_append, List.flatMap_singleton]
  rfl

/-- Splitting a bucket adds its files to the members. -/
theorem members_splitBucket (contentType : ContentType) (method : Analyzer.RecommendedMethod)
    (bucket : List (Fin n)) (grouping : Grouping n)
    (currentIndices : List (Fin n)) (currentSize : UInt64) :
    (splitBucket files contentType method bucket grouping currentIndices currentSize).members =
      grouping.members ++ (currentIndices ++ bucket) := by
  induction bucket generalizing grouping currentIndices currentSize with
  | nil =>
      rw [splitBucket, List.append_nil]
      split
      · rename_i empty
        rw [List.isEmpty_iff.mp empty, List.append_nil]
      · exact members_flush ..
  | cons idx bucket recurse =>
      rw [splitBucket]
      split
      · rw [recurse, members_flush, List.append_assoc, List.singleton_append]
      · rw [recurse, List.append_assoc, List.singleton_append]

/-- Grouping a bucket adds its files to the members. -/
theorem members_groupBucket (grouping : Grouping n) (contentType : ContentType) :
    (groupBucket files grouping contentType).members =
      grouping.members ++ bucketOf files contentType := by
  rw [groupBucket]
  dsimp only
  split
  · rename_i empty
    rw [List.isEmpty_iff.mp empty, List.append_nil]
  · exact members_splitBucket ..

/-- Grouping several types adds their buckets in order. -/
theorem members_foldl (types : List ContentType) (grouping : Grouping n) :
    (types.foldl (groupBucket files) grouping).members =
      grouping.members ++ types.flatMap (bucketOf files) := by
  induction types generalizing grouping with
  | nil => rw [List.foldl_nil, List.flatMap_nil, List.append_nil]
  | cons type types recurse =>
      rw [List.foldl_cons, recurse, members_groupBucket, List.flatMap_cons, List.append_assoc]

/-- A bucket holds the files of its type. -/
theorem mem_bucketOf {contentType : ContentType} {idx : Fin n} :
    idx ∈ bucketOf files contentType ↔ (files idx).contentType = contentType := by
  rw [bucketOf, (List.mergeSort_perm _ _).mem_iff, List.mem_filter, decide_eq_true_eq]
  exact and_iff_right (List.mem_finRange idx)

theorem nodup_bucketOf (contentType : ContentType) : (bucketOf files contentType).Nodup :=
  (List.mergeSort_perm _ _).nodup_iff.mpr ((List.nodup_finRange _).filter _)

theorem members_groupFiles : (groupFiles files).flatMap SolidGroup.fileIndices =
    ContentType.ascending.flatMap (bucketOf files) := members_foldl _ _

/-- **Every file is in exactly one group.** -/
theorem groupFiles_perm :
    ((groupFiles files).flatMap SolidGroup.fileIndices).Perm (List.finRange n) := by
  rw [members_groupFiles]
  refine (List.perm_ext_iff_of_nodup ?_ (List.nodup_finRange _)).mpr fun idx => ?_
  · refine List.nodup_flatMap.mpr ⟨fun type _ => nodup_bucketOf type, ?_⟩
    refine ContentType.nodup_ascending.imp fun {first second} differ idx inFirst inSecond => ?_
    exact differ ((mem_bucketOf.mp inFirst).symm.trans (mem_bucketOf.mp inSecond))
  · refine iff_of_true ?_ (List.mem_finRange idx)
    exact List.mem_flatMap.mpr
      ⟨_, ContentType.mem_ascending (files idx).contentType, mem_bucketOf.mpr rfl⟩

/-! ## What holds of every group -/

/-- The groups are numbered from zero. -/
def Grouping.Numbered (grouping : Grouping n) : Prop :=
  grouping.groups.map SolidGroup.groupId =
      (List.range grouping.groups.length).map UInt32.ofNat ∧
    grouping.groupId = UInt32.ofNat grouping.groups.length

/-- Closing groups one after the other preserves what closing one preserves. -/
theorem splitBucket_induction {contentType : ContentType} {method : Analyzer.RecommendedMethod}
    (motive : Grouping n → Prop)
    (flushed : ∀ grouping currentIndices currentSize, motive grouping →
      motive (flush contentType method grouping currentIndices currentSize))
    (bucket : List (Fin n)) {grouping : Grouping n}
    (currentIndices : List (Fin n)) (currentSize : UInt64) (initial : motive grouping) :
    motive (splitBucket files contentType method bucket grouping currentIndices currentSize) := by
  induction bucket generalizing grouping currentIndices currentSize with
  | nil =>
      rw [splitBucket]
      split
      · exact initial
      · exact flushed _ _ _ initial
  | cons idx bucket recurse =>
      rw [splitBucket]
      split
      · exact recurse _ _ (flushed _ _ _ initial)
      · exact recurse _ _ initial

/-- A flush keeps the numbering. -/
theorem Grouping.Numbered.flush {grouping : Grouping n} (numbered : grouping.Numbered)
    (contentType : ContentType) (method : Analyzer.RecommendedMethod)
    (currentIndices : List (Fin n)) (currentSize : UInt64) :
    (Grouper.flush contentType method grouping currentIndices currentSize).Numbered := by
  obtain ⟨ids, next⟩ := numbered
  constructor
  · rw [Grouper.flush, List.map_append, List.length_append, ids, List.length_singleton,
      List.range_succ, List.map_append, List.map_singleton, List.map_singleton, next]
  · rw [Grouper.flush, List.length_append, List.length_singleton, UInt32.ofNat_add, ← next]
    rfl

/-- Grouping a bucket keeps the numbering. -/
theorem Grouping.Numbered.groupBucket {grouping : Grouping n}
    (numbered : grouping.Numbered) (contentType : ContentType) :
    (Grouper.groupBucket files grouping contentType).Numbered := by
  rw [Grouper.groupBucket]
  dsimp only
  split
  · exact numbered
  · exact splitBucket_induction Grouping.Numbered
      (fun _ indices size numbered => numbered.flush _ _ indices size) _ _ _ numbered

/-- **The groups are numbered from zero.** -/
theorem map_groupId_groupFiles : (groupFiles files).map SolidGroup.groupId =
    (List.range (groupFiles files).length).map UInt32.ofNat := by
  have numbered : ∀ (types : List ContentType) (grouping : Grouping n),
      grouping.Numbered → (types.foldl (groupBucket files) grouping).Numbered := by
    intro types
    induction types with
    | nil => exact fun _ numbered => numbered
    | cons type types recurse => exact fun _ numbered => recurse _ (numbered.groupBucket type)
  exact (numbered _ _ ⟨rfl, rfl⟩).1

/-! ## The number of groups -/

/-- The total size of some files. -/
def sizeOfAll (files : Fin n → FileInfo format) (indices : List (Fin n)) : Nat :=
  (indices.map fun idx => (files idx).size.toNat).sum

/-- A group is closed only when it and the next file together are too large, so twice the size of
the files pays for the groups but the last. -/
theorem length_splitBucket (contentType : ContentType) (method : Analyzer.RecommendedMethod)
    {bucket : List (Fin n)} {currentSize : UInt64}
    (fits : currentSize.toNat + sizeOfAll files bucket < 2 ^ 64) (grouping : Grouping n)
    (currentIndices : List (Fin n)) :
    (splitBucket files contentType method bucket grouping currentIndices
        currentSize).groups.length * MAX_SOLID_GROUP_SIZE.toNat ≤
      (grouping.groups.length + 1) * MAX_SOLID_GROUP_SIZE.toNat +
        (2 * sizeOfAll files bucket + currentSize.toNat) := by
  have flushed : ∀ indices size,
      (flush contentType method grouping indices size).groups.length =
        grouping.groups.length + 1 := fun indices size => by
    rw [flush, List.length_append, List.length_singleton]
  induction bucket generalizing grouping currentIndices currentSize with
  | nil =>
      rw [splitBucket]
      split
      · exact (Nat.mul_le_mul_right _ (Nat.le_succ _)).trans (Nat.le_add_right ..)
      · rw [flushed]
        exact Nat.le_add_right ..
  | cons idx bucket recurse =>
      have total : sizeOfAll files (idx :: bucket) =
          (files idx).size.toNat + sizeOfAll files bucket := rfl
      rw [total] at fits ⊢
      have sum : (currentSize + (files idx).size).toNat =
          currentSize.toNat + (files idx).size.toNat := by
        rw [UInt64.toNat_add]
        exact Nat.mod_eq_of_lt (by omega)
      rw [splitBucket]
      split
      · rename_i full
        have large := UInt64.lt_iff_toNat_lt.mp full.1
        rw [sum] at large
        have later : (files idx).size.toNat + sizeOfAll files bucket < 2 ^ 64 := by omega
        have bound := recurse later (flush contentType method grouping currentIndices currentSize)
          [idx] (fun indices size => by rw [flush, List.length_append, List.length_singleton])
        rw [flushed, Nat.succ_mul] at bound
        omega
      · have later : (currentSize + (files idx).size).toNat + sizeOfAll files bucket < 2 ^ 64 := by
          omega
        have bound := recurse later grouping (currentIndices ++ [idx]) flushed
        omega

/-- A bucket yields few groups for its size. -/
theorem length_groupBucket {contentType : ContentType}
    (fits : sizeOfAll files (bucketOf files contentType) < 2 ^ 64) (grouping : Grouping n) :
    (groupBucket files grouping contentType).groups.length * MAX_SOLID_GROUP_SIZE.toNat ≤
      (grouping.groups.length + 1) * MAX_SOLID_GROUP_SIZE.toNat +
        2 * sizeOfAll files (bucketOf files contentType) := by
  rw [groupBucket]
  dsimp only
  split
  · exact (Nat.mul_le_mul_right _ (Nat.le_succ _)).trans (Nat.le_add_right ..)
  · refine length_splitBucket _ _ ?_ _ _
    rw [UInt64.toNat_zero, Nat.zero_add]
    exact fits

/-- **There are few groups**: one for each content type, and two for each limit's worth of data. -/
theorem length_groupFiles_le
    (fits : sizeOfAll files (List.finRange n) < 2 ^ 64) :
    (groupFiles files).length * MAX_SOLID_GROUP_SIZE.toNat ≤
      ContentType.ascending.length * MAX_SOLID_GROUP_SIZE.toNat +
        2 * sizeOfAll files (List.finRange n) := by
  have each : ∀ (types : List ContentType) (grouping : Grouping n),
      sizeOfAll files (types.flatMap (bucketOf files)) < 2 ^ 64 →
      (types.foldl (groupBucket files) grouping).groups.length * MAX_SOLID_GROUP_SIZE.toNat ≤
        (grouping.groups.length + types.length) * MAX_SOLID_GROUP_SIZE.toNat +
          2 * sizeOfAll files (types.flatMap (bucketOf files)) := by
    intro types
    induction types with
    | nil => exact fun grouping _ => Nat.le_add_right ..
    | cons type types recurse =>
        intro grouping fits
        have total : sizeOfAll files ((type :: types).flatMap (bucketOf files)) =
            sizeOfAll files (bucketOf files type) +
              sizeOfAll files (types.flatMap (bucketOf files)) := by
          rw [sizeOfAll, List.flatMap_cons, List.map_append, List.sum_append]
          rfl
        rw [total] at fits ⊢
        have here : sizeOfAll files (bucketOf files type) < 2 ^ 64 := by omega
        have later : sizeOfAll files (types.flatMap (bucketOf files)) < 2 ^ 64 := by omega
        have first := length_groupBucket here grouping
        have rest := recurse (groupBucket files grouping type) later
        rw [Nat.add_mul] at first rest ⊢
        rw [List.foldl_cons, List.length_cons, Nat.succ_mul]
        omega
  have members : (ContentType.ascending.flatMap (bucketOf files)).Perm (List.finRange n) := by
    rw [← members_groupFiles]
    exact groupFiles_perm
  have total : sizeOfAll files (ContentType.ascending.flatMap (bucketOf files)) =
      sizeOfAll files (List.finRange n) := (members.map _).sum_eq
  rw [← total] at fits ⊢
  have bound := each ContentType.ascending { groups := [], groupId := 0 } fits
  rwa [List.length_nil, Nat.zero_add] at bound

end Grouper

end AetherArch
