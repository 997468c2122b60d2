import AetherArch.Grouper
import AetherArch.Library.GreedyCuts
import AetherArch.Library.StableSort

/-! # The groups are greedy runs of the sorted files

The files of each content type, sorted by extension and size, are cut greedily. The groups have
consecutive numbers as long as there are not too many for the counter, which depends on how few runs
the files can be cut into.
-/

namespace AetherArch.Grouper

variable {format : FloatFormat} {n : Nat} (files : Fin n → FileInfo format)

/-- The size of a file. -/
def sizeOf (idx : Fin n) : Nat := (files idx).size.toNat

/-- A file sorts before another: by extension, then by size, and then by position. -/
def Precedes (first second : Fin n) : Prop :=
  let extFirst := Analyzer.extension (files first).path
  let extSecond := Analyzer.extension (files second).path
  extFirst < extSecond ∨ extFirst = extSecond ∧
    ((files first).size < (files second).size ∨
      (files first).size = (files second).size ∧ first < second)

/-- The files of a content type, each once and in order. -/
def SortedFiles (contentType : ContentType) (indices : List (Fin n)) : Prop :=
  indices.Perm ((List.finRange n).filter fun idx => (files idx).contentType = contentType) ∧
    indices.Pairwise (Precedes files)

/-- The groups of a content type. -/
def groupsOf (groups : List (SolidGroup n)) (contentType : ContentType) : List (SolidGroup n) :=
  groups.filter fun group => group.contentType = contentType

/-- What grouping is for: nothing is lost, and groups are as large as the limit allows. -/
structure Grouped (groups : List (SolidGroup n)) : Prop where
  partition : (groups.flatMap SolidGroup.fileIndices).Perm (List.finRange n)
  numbered : ∀ k (inside : k < groups.length), groups[k].groupId.toNat = k
  typed : ∀ group ∈ groups, ∀ idx ∈ group.fileIndices,
    (files idx).contentType = group.contentType
  nonempty : ∀ group ∈ groups, group.fileIndices ≠ []
  total : ∀ group ∈ groups, group.totalSize.toNat = sizeOfAll files group.fileIndices
  limited : ∀ group ∈ groups,
    group.totalSize ≤ MAX_SOLID_GROUP_SIZE ∨ group.fileIndices.length = 1
  sorted : ∀ contentType, SortedFiles files contentType
    ((groupsOf groups contentType).flatMap SolidGroup.fileIndices)
  greedy : ∀ contentType, (groupsOf groups contentType).IsChain fun group next =>
    ∀ idx ∈ next.fileIndices.head?,
      MAX_SOLID_GROUP_SIZE.toNat < group.totalSize.toNat + (files idx).size.toNat

/-- The sorted files of each content type can be cut into runs that may be a group each, and the
counter can number all runs. -/
def FewRuns : Prop :=
  ∃ runs : ContentType → List (List (Fin n)),
    (∀ contentType, SortedFiles files contentType (runs contentType).flatten ∧
      ∀ run ∈ runs contentType,
        GreedyCuts.Admissible (sizeOf files) MAX_SOLID_GROUP_SIZE.toNat run) ∧
    (ContentType.ascending.map fun contentType => (runs contentType).length).sum ≤ 2 ^ 32

variable {files}

/-! ## The order of a bucket -/

/-- The order is by extension, then by path. -/
theorem inOrder_iff {first second : Fin n} : inOrder files first second = true ↔
    Analyzer.extension (files first).path < Analyzer.extension (files second).path ∨
      Analyzer.extension (files first).path = Analyzer.extension (files second).path ∧
        (files first).size ≤ (files second).size := by
  rw [inOrder, decide_eq_true_eq]

/-- The order is transitive. -/
theorem inOrder_trans (first second third : Fin n) (left : inOrder files first second)
    (right : inOrder files second third) : inOrder files first third := by
  rw [inOrder_iff] at left right ⊢
  rcases left with before | ⟨same, least⟩
  · rcases right with before' | ⟨same', -⟩
    · exact Or.inl (List.lt_trans before before')
    · exact Or.inl (same' ▸ before)
  · rcases right with before' | ⟨same', least'⟩
    · exact Or.inl (same ▸ before')
    · exact Or.inr ⟨same.trans same', UInt64.le_trans least least'⟩

/-- The order is total. -/
theorem inOrder_total (first second : Fin n) :
    (inOrder files first second || inOrder files second first) = true := by
  rw [Bool.or_eq_true, inOrder_iff, inOrder_iff]
  by_cases before : Analyzer.extension (files first).path < Analyzer.extension (files second).path
  · exact Or.inl (Or.inl before)
  · by_cases after :
        Analyzer.extension (files second).path < Analyzer.extension (files first).path
    · exact Or.inr (Or.inl after)
    · have same := Std.Trichotomous.trichotomous _ _ before after
      exact (UInt64.le_total (files first).size (files second).size).imp
        (fun least => Or.inr ⟨same, least⟩) fun least => Or.inr ⟨same.symm, least⟩

/-- No two files precede each other. -/
theorem not_precedes_of_precedes {first second : Fin n} (precedes : Precedes files first second) :
    ¬Precedes files second first := by
  rintro (after | ⟨same, later⟩)
  · rcases precedes with before | ⟨same, -⟩
    · exact List.lt_asymm before after
    · exact List.lt_irrefl _ (same ▸ after)
  · rcases precedes with before | ⟨-, earlier⟩
    · exact List.lt_irrefl _ (same ▸ before)
    · rcases later with after | ⟨equal, after⟩
      · rcases earlier with before | ⟨equal, -⟩
        · exact UInt64.lt_asymm before after
        · exact UInt64.lt_irrefl _ (equal ▸ after)
      · rcases earlier with before | ⟨-, before⟩
        · exact UInt64.lt_irrefl _ (equal ▸ before)
        · exact lt_asymm before after

/-- **A bucket is sorted by extension and size, stably.** -/
theorem sortedFiles_bucketOf (contentType : ContentType) :
    SortedFiles files contentType (bucketOf files contentType) := by
  refine ⟨List.mergeSort_perm _ _, ?_⟩
  have ascending : ((List.finRange n).filter fun idx =>
      (files idx).contentType = contentType).Pairwise (· < ·) :=
    (List.pairwise_lt_finRange n).filter _
  refine (StableSort.pairwise_mergeSort inOrder_trans inOrder_total
    ((List.nodup_finRange n).filter _)).imp fun {first second} ordered => ?_
  obtain ⟨before, tied⟩ := ordered
  rcases inOrder_iff.mp before with less | ⟨same, least⟩
  · exact Or.inl less
  · refine Or.inr ⟨same, ?_⟩
    rcases UInt64.lt_or_eq_of_le least with less | equal
    · exact Or.inl less
    · have pair := tied (inOrder_iff.mpr (Or.inr ⟨same.symm, UInt64.le_of_eq equal.symm⟩))
      exact Or.inr ⟨equal, List.pairwise_iff_forall_sublist.mp ascending pair⟩

/-- There is one way to sort. -/
theorem SortedFiles.eq_bucketOf {contentType : ContentType} {indices : List (Fin n)}
    (sorted : SortedFiles files contentType indices) :
    indices = bucketOf files contentType := by
  obtain ⟨same, ordered⟩ := sorted
  obtain ⟨same', ordered'⟩ := @sortedFiles_bucketOf format n files contentType
  exact List.Perm.eq_of_pairwise
    (fun _ _ _ _ before after => absurd after (not_precedes_of_precedes before))
    ordered ordered' (same.trans same'.symm)

/-! ## The runs of a content type -/

variable (files)

/-- The files of a content type, cut greedily. -/
def runsOf (contentType : ContentType) : List (List (Fin n)) :=
  GreedyCuts.cut (sizeOf files) MAX_SOLID_GROUP_SIZE.toNat [] (bucketOf files contentType)

/-- What a run looks like as a group. -/
def labelled (contentType : ContentType) (run : List (Fin n)) :
    ContentType × List (Fin n) × Nat :=
  (contentType, run, sizeOfAll files run)

/-- What a group has of a run. -/
def label (group : SolidGroup n) : ContentType × List (Fin n) × Nat :=
  (group.contentType, group.fileIndices, group.totalSize.toNat)

variable {files}

/-- A flush adds the label of its files. -/
theorem map_label_flush {files : Fin n → FileInfo format} {grouping : Grouping n}
    {currentIndices : List (Fin n)} {currentSize : UInt64}
    (measured : currentSize.toNat = sizeOfAll files currentIndices)
    (contentType : ContentType) (method : Analyzer.RecommendedMethod) :
    (flush contentType method grouping currentIndices currentSize).groups.map label =
      grouping.groups.map label ++ [labelled files contentType currentIndices] := by
  rw [flush, List.map_append, List.map_singleton, labelled, ← measured]
  rfl

/-- **Splitting a bucket is cutting it greedily**, and sizes are counted on the way. -/
theorem map_label_splitBucket (contentType : ContentType) (method : Analyzer.RecommendedMethod)
    {bucket currentIndices : List (Fin n)} {currentSize : UInt64}
    (measured : currentSize.toNat = sizeOfAll files currentIndices)
    (fits : currentSize.toNat + sizeOfAll files bucket < 2 ^ 64) (grouping : Grouping n) :
    (splitBucket files contentType method bucket grouping currentIndices
        currentSize).groups.map label =
      grouping.groups.map label ++
        (GreedyCuts.cut (sizeOf files) MAX_SOLID_GROUP_SIZE.toNat currentIndices bucket).map
          (labelled files contentType) := by
  induction bucket generalizing grouping currentIndices currentSize with
  | nil =>
      rw [splitBucket, GreedyCuts.cut]
      by_cases empty : currentIndices = []
      · rw [if_pos (List.isEmpty_iff.mpr empty), if_pos empty, List.map_nil, List.append_nil]
      · rw [if_neg (mt List.isEmpty_iff.mp empty), if_neg empty]
        exact map_label_flush measured contentType method
  | cons idx bucket recurse =>
      have total : sizeOfAll files (idx :: bucket) =
          (files idx).size.toNat + sizeOfAll files bucket := rfl
      rw [total] at fits
      have sum : (currentSize + (files idx).size).toNat =
          currentSize.toNat + (files idx).size.toNat := by
        rw [UInt64.toNat_add]
        exact Nat.mod_eq_of_lt (by omega)
      have same : (currentSize + (files idx).size > MAX_SOLID_GROUP_SIZE ∧
            ¬currentIndices.isEmpty) ↔
          (MAX_SOLID_GROUP_SIZE.toNat <
            GreedyCuts.total (sizeOf files) currentIndices + sizeOf files idx ∧
              currentIndices ≠ []) := by
        rw [gt_iff_lt, UInt64.lt_iff_toNat_lt, sum, measured, List.isEmpty_iff]
        rfl
      rw [splitBucket]
      by_cases full : currentSize + (files idx).size > MAX_SOLID_GROUP_SIZE ∧
        ¬currentIndices.isEmpty
      · have alone : (files idx).size.toNat = sizeOfAll files [idx] := (Nat.add_zero _).symm
        rw [if_pos full, GreedyCuts.cut_of_full (same.mp full),
          recurse alone (Nat.lt_of_le_of_lt (Nat.le_add_left ..) fits),
          map_label_flush measured, List.map_cons, List.append_assoc, List.singleton_append]
      · rw [if_neg full, GreedyCuts.cut_of_room (mt same.mpr full)]
        refine recurse ?_ ?_ grouping
        · rw [sum, measured]
          exact (GreedyCuts.total_append currentIndices [idx]).symm
        · rwa [sum, Nat.add_assoc]

/-- Grouping a bucket adds the labels of its runs. -/
theorem map_label_groupBucket {contentType : ContentType}
    (fits : sizeOfAll files (bucketOf files contentType) < 2 ^ 64) (grouping : Grouping n) :
    (groupBucket files grouping contentType).groups.map label =
      grouping.groups.map label ++ (runsOf files contentType).map (labelled files contentType) := by
  rw [groupBucket]
  dsimp only
  split
  · rename_i empty
    rw [runsOf, List.isEmpty_iff.mp empty, GreedyCuts.cut, if_pos rfl, List.map_nil,
      List.append_nil]
  · refine map_label_splitBucket _ _ rfl ?_ _
    rwa [UInt64.toNat_zero, Nat.zero_add]

/-- A bucket is no larger than all files. -/
theorem sizeOfAll_bucketOf_le (contentType : ContentType) :
    sizeOfAll files (bucketOf files contentType) ≤ sizeOfAll files (List.finRange n) := by
  have same := List.mergeSort_perm ((List.finRange n).filter fun idx =>
    (files idx).contentType = contentType) (inOrder files)
  rw [bucketOf, sizeOfAll, (same.map _).sum_eq]
  exact (List.filter_sublist.map _).sum_le_sum fun _ _ => Nat.zero_le _

/-- **The groups are the runs of the content types**, one type after the other. -/
theorem map_label_groupFiles (fits : sizeOfAll files (List.finRange n) < 2 ^ 64) :
    (groupFiles files).map label = ContentType.ascending.flatMap fun contentType =>
      (runsOf files contentType).map (labelled files contentType) := by
  have each : ∀ (types : List ContentType) (grouping : Grouping n),
      (types.foldl (groupBucket files) grouping).groups.map label =
        grouping.groups.map label ++ types.flatMap fun contentType =>
          (runsOf files contentType).map (labelled files contentType) := by
    intro types
    induction types with
    | nil => exact fun grouping => (List.append_nil _).symm
    | cons type types recurse =>
        intro grouping
        have here := Nat.lt_of_le_of_lt (sizeOfAll_bucketOf_le type) fits
        rw [List.foldl_cons, recurse, map_label_groupBucket here, List.flatMap_cons,
          List.append_assoc]
  exact each _ _

/-- There is one group for each run. -/
theorem length_groupFiles (fits : sizeOfAll files (List.finRange n) < 2 ^ 64) :
    (groupFiles files).length =
      (ContentType.ascending.map fun contentType => (runsOf files contentType).length).sum := by
  have whole := congrArg List.length (map_label_groupFiles fits)
  simp only [List.length_map, List.length_flatMap] at whole
  exact whole

/-- The groups of a content type are its runs. -/
theorem map_label_groupsOf (fits : sizeOfAll files (List.finRange n) < 2 ^ 64)
    (contentType : ContentType) : (groupsOf (groupFiles files) contentType).map label =
      (runsOf files contentType).map (labelled files contentType) := by
  have one : ∀ other : ContentType,
      ((runsOf files other).map (labelled files other)).filter
          (fun entry => entry.1 = contentType) =
        if other = contentType then (runsOf files other).map (labelled files other) else [] := by
    intro other
    split
    · rename_i same
      refine List.filter_eq_self.mpr fun entry member => ?_
      obtain ⟨run, -, rfl⟩ := List.mem_map.mp member
      exact decide_eq_true same
    · rename_i differ
      refine List.filter_eq_nil_iff.mpr fun entry member => ?_
      obtain ⟨run, -, rfl⟩ := List.mem_map.mp member
      exact fun same => differ (of_decide_eq_true same)
  have filtered := congrArg (List.filter fun entry => entry.1 = contentType)
    (map_label_groupFiles fits)
  rw [List.filter_map, List.filter_flatMap] at filtered
  simp only [one] at filtered
  rw [groupsOf]
  refine filtered.trans ?_
  cases contentType <;> simp [ContentType.ascending]

/-- A group is a run of its content type. -/
theorem mem_runsOf_of_mem_groupFiles (fits : sizeOfAll files (List.finRange n) < 2 ^ 64)
    {group : SolidGroup n} (member : group ∈ groupFiles files) :
    group.fileIndices ∈ runsOf files group.contentType ∧
      group.totalSize.toNat = sizeOfAll files group.fileIndices := by
  have ofType : group ∈ groupsOf (groupFiles files) group.contentType :=
    List.mem_filter.mpr ⟨member, decide_eq_true rfl⟩
  have entry := List.mem_map_of_mem (f := label) ofType
  rw [map_label_groupsOf fits] at entry
  obtain ⟨run, found, same⟩ := List.mem_map.mp entry
  obtain ⟨-, indices, total⟩ : _ ∧ run = group.fileIndices ∧
      sizeOfAll files run = group.totalSize.toNat := by
    rw [labelled, label, Prod.mk.injEq, Prod.mk.injEq] at same
    exact same
  subst indices
  exact ⟨found, total.symm⟩

/-! ## What grouping is for -/

/-- **The counter numbers what it can count to.** -/
theorem numbered_iff : (∀ k (inside : k < (groupFiles files).length),
    (groupFiles files)[k].groupId.toNat = k) ↔ (groupFiles files).length ≤ 2 ^ 32 := by
  have counted : ∀ k (inside : k < (groupFiles files).length),
      (groupFiles files)[k].groupId.toNat = k % 2 ^ 32 := by
    intro k inside
    have numbered := congrArg (fun ids => ids[k]?) (@map_groupId_groupFiles format n files)
    rw [List.getElem?_map, List.getElem?_map, List.getElem?_eq_getElem inside,
      List.getElem?_range inside, Option.map_some, Option.map_some, Option.some_inj] at numbered
    rw [numbered]
    exact UInt32.toNat_ofNat'
  constructor
  · intro numbered
    by_contra many
    have inside : 2 ^ 32 < (groupFiles files).length := not_le.mp many
    have wrapped := (numbered (2 ^ 32) inside).symm.trans (counted (2 ^ 32) inside)
    exact absurd wrapped (by decide)
  · intro few k inside
    rw [counted k inside]
    exact Nat.mod_eq_of_lt (inside.trans_le few)

/-- **The greedy runs are the fewest**, so any runs that can be numbered will do. -/
theorem fewRuns_iff : FewRuns files ↔
    (ContentType.ascending.map fun contentType =>
      (runsOf files contentType).length).sum ≤ 2 ^ 32 := by
  constructor
  · rintro ⟨runs, cutting, few⟩
    refine (List.sum_le_sum fun contentType _ => ?_).trans few
    obtain ⟨sorted, admissible⟩ := cutting contentType
    exact GreedyCuts.length_cut_le admissible sorted.eq_bucketOf
  · intro few
    refine ⟨runsOf files, fun contentType => ⟨?_, ?_⟩, few⟩
    · rw [runsOf, GreedyCuts.flatten_cut, List.nil_append]
      exact sortedFiles_bucketOf contentType
    · exact GreedyCuts.admissible_of_mem_cut (Or.inl rfl)

/-- **The identifiers are not exhausted exactly when there are few runs.** -/
theorem length_groupFiles_le_iff (fits : sizeOfAll files (List.finRange n) < 2 ^ 64) :
    (groupFiles files).length ≤ 2 ^ 32 ↔ FewRuns files := by
  rw [fewRuns_iff, length_groupFiles fits]

/-- The groups of a content type put together are its sorted files. -/
theorem sortedFiles_groupsOf (fits : sizeOfAll files (List.finRange n) < 2 ^ 64)
    (contentType : ContentType) : SortedFiles files contentType
      ((groupsOf (groupFiles files) contentType).flatMap SolidGroup.fileIndices) := by
  have indices := congrArg (List.map fun entry => entry.2.1) (map_label_groupsOf fits contentType)
  rw [List.map_map, List.map_map] at indices
  have runs : (groupsOf (groupFiles files) contentType).map SolidGroup.fileIndices =
      runsOf files contentType := indices.trans (List.map_id _)
  rw [List.flatMap_def, runs, runsOf, GreedyCuts.flatten_cut, List.nil_append]
  exact sortedFiles_bucketOf contentType

/-- No group is closed early. -/
theorem isChain_groupsOf (fits : sizeOfAll files (List.finRange n) < 2 ^ 64)
    (contentType : ContentType) :
    (groupsOf (groupFiles files) contentType).IsChain fun group next =>
      ∀ idx ∈ next.fileIndices.head?,
        MAX_SOLID_GROUP_SIZE.toNat < group.totalSize.toNat + (files idx).size.toNat := by
  have chain : ((runsOf files contentType).map (labelled files contentType)).IsChain
      fun entry next => ∀ idx ∈ next.2.1.head?,
        MAX_SOLID_GROUP_SIZE.toNat < entry.2.2 + (files idx).size.toNat :=
    List.isChain_map_of_isChain (labelled files contentType) (fun _ _ heavy => heavy)
      (@GreedyCuts.isChain_cut _ (sizeOf files) _ [] (bucketOf files contentType))
  rw [← map_label_groupsOf fits] at chain
  exact List.isChain_of_isChain_map label (fun _ _ heavy => heavy) chain

/-- **Few runs are grouped as they should be.** -/
theorem grouped_of_fewRuns (fits : sizeOfAll files (List.finRange n) < 2 ^ 64)
    (few : FewRuns files) : Grouped files (groupFiles files) where
  partition := groupFiles_perm
  numbered := numbered_iff.mpr ((length_groupFiles_le_iff fits).mpr few)
  typed := by
    intro group member idx inside
    have run := (mem_runsOf_of_mem_groupFiles fits member).1
    have together := List.mem_flatten_of_mem run inside
    rw [runsOf, GreedyCuts.flatten_cut, List.nil_append] at together
    exact mem_bucketOf.mp together
  nonempty := by
    intro group member
    have run := (mem_runsOf_of_mem_groupFiles fits member).1
    exact (GreedyCuts.admissible_of_mem_cut (Or.inl rfl) _ run).1
  total := fun group member => (mem_runsOf_of_mem_groupFiles fits member).2
  limited := by
    intro group member
    obtain ⟨run, total⟩ := mem_runsOf_of_mem_groupFiles fits member
    rcases (GreedyCuts.admissible_of_mem_cut (Or.inl rfl) _ run).2 with single | light
    · exact Or.inr single
    · refine Or.inl (UInt64.le_iff_toNat_le.mpr ?_)
      rw [total]
      exact light
  sorted := sortedFiles_groupsOf fits
  greedy := isChain_groupsOf fits

/-- More runs than the counter can number are not. -/
theorem fewRuns_of_grouped (fits : sizeOfAll files (List.finRange n) < 2 ^ 64)
    (grouped : Grouped files (groupFiles files)) : FewRuns files :=
  (length_groupFiles_le_iff fits).mp (numbered_iff.mp grouped.numbered)

/-- **Grouping loses nothing, and its groups are numbered, sorted and as large as the limit
allows**, exactly for files that few enough runs can take. -/
theorem groupFiles_grouped_iff {format : FloatFormat} {n : Nat} (files : Fin n → FileInfo format)
    (fits : sizeOfAll files (List.finRange n) < 2 ^ 64) :
    Grouped files (groupFiles files) ↔ FewRuns files :=
  ⟨fewRuns_of_grouped fits, grouped_of_fewRuns fits⟩

/-- Exact arithmetic, with any functions where it has none. -/
def rationals : FloatFormat := FloatFormat.exact id id id (fun _ => 0) fun _ => 0

/-- Text files of one size. -/
def alike (n : Nat) (size : UInt64) : Fin n → FileInfo rationals :=
  fun _ => { path := "a.txt", size, contentType := .text, meanEntropy := 0 }

/-- Two texts that do not fit one group, stored in the other order, and an image. -/
def threeFiles : Fin 3 → FileInfo rationals
  | 0 => { path := "b.txt", size := 200000000, contentType := .text, meanEntropy := 0 }
  | 1 => { path := "c.png", size := 100, contentType := .image, meanEntropy := 0 }
  | 2 => { path := "a.txt", size := 100000000, contentType := .text, meanEntropy := 0 }

/-- The three files are few, so they are grouped as they should be. -/
theorem groupFiles_grouped_iff_three :
    FewRuns threeFiles ∧ Grouped threeFiles (groupFiles threeFiles) := by
  have fits : sizeOfAll threeFiles (List.finRange 3) < 2 ^ 64 := by decide
  have bound := length_groupFiles_le fits
  have total : sizeOfAll threeFiles (List.finRange 3) = 300000100 := by decide
  have types : ContentType.ascending.length = 7 := rfl
  have limit : MAX_SOLID_GROUP_SIZE.toNat = 268435456 := rfl
  rw [total, types, limit] at bound
  have few : FewRuns threeFiles := by
    rw [← length_groupFiles_le_iff fits]
    generalize (groupFiles threeFiles).length = count at bound ⊢
    omega
  exact ⟨few, (groupFiles_grouped_iff threeFiles fits).mpr few⟩

/-- Files of one size add up to a multiple of it. -/
theorem sizeOfAll_alike (size : UInt64) (indices : List (Fin n)) :
    sizeOfAll (alike n size) indices = indices.length * size.toNat := by
  have constant : sizeOfAll (alike n size) indices =
      (indices.map fun _ => size.toNat).sum := rfl
  rw [constant, List.map_const', List.sum_replicate, smul_eq_mul]

/-- Files that fill a group each need as many runs as they are. -/
theorem not_fewRuns_of_full {n : Nat} (many : 2 ^ 32 < n) :
    ¬FewRuns (alike n MAX_SOLID_GROUP_SIZE) := by
  rintro ⟨runs, cutting, few⟩
  obtain ⟨⟨same, -⟩, admissible⟩ := cutting .text
  have whole : (runs .text).flatten.length = n := by
    rw [same.length_eq, List.filter_eq_self.mpr, List.length_finRange]
    exact fun idx _ => decide_eq_true rfl
  have single : ∀ run ∈ runs .text, run.length ≤ 1 := by
    intro run member
    rcases (admissible run member).2 with one | light
    · exact one.le
    · have size : sizeOfAll (alike n MAX_SOLID_GROUP_SIZE) run ≤ MAX_SOLID_GROUP_SIZE.toNat := light
      rw [sizeOfAll_alike] at size
      have positive : 0 < MAX_SOLID_GROUP_SIZE.toNat := by decide
      exact Nat.le_of_mul_le_mul_right (size.trans_eq (Nat.one_mul _).symm) positive
  have short : (runs .text).flatten.length ≤ (runs .text).length := by
    rw [List.length_flatten]
    refine (List.sum_le_card_nsmul _ 1 ?_).trans_eq ?_
    · intro length member
      obtain ⟨run, found, rfl⟩ := List.mem_map.mp member
      exact single run found
    · rw [List.length_map, smul_eq_mul, Nat.mul_one]
  have one : (runs .text).length ≤
      (ContentType.ascending.map fun contentType => (runs contentType).length).sum :=
    List.single_le_sum (fun _ _ => Nat.zero_le _) _
      (List.mem_map_of_mem (ContentType.mem_ascending .text))
  omega

/-- **More full groups than the counter can number.** -/
theorem groupFiles_not_grouped :
    sizeOfAll (alike (2 ^ 32 + 1) MAX_SOLID_GROUP_SIZE) (List.finRange (2 ^ 32 + 1)) < 2 ^ 64 ∧
      ¬Grouped (alike (2 ^ 32 + 1) MAX_SOLID_GROUP_SIZE)
        (groupFiles (alike (2 ^ 32 + 1) MAX_SOLID_GROUP_SIZE)) := by
  have fits : sizeOfAll (alike (2 ^ 32 + 1) MAX_SOLID_GROUP_SIZE)
      (List.finRange (2 ^ 32 + 1)) < 2 ^ 64 := by
    rw [sizeOfAll_alike, List.length_finRange]
    decide
  refine ⟨fits, fun grouped => ?_⟩
  exact not_fewRuns_of_full (Nat.lt_succ_self _) (fewRuns_of_grouped fits grouped)

end AetherArch.Grouper
