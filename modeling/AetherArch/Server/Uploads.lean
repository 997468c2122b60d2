import AetherArch.Library.Checked
import AetherArch.Library.FreshNames
import AetherArch.Server.Filenames

/-! # Storing uploads

The compression endpoint stores every uploaded field in one directory, under a sanitized name that
is numbered while it is taken. Sanitizing maps many names to one, and a numbered name may be what
a later upload asks for.
-/

namespace AetherArch

open Checked FreshNames

namespace Server

/-- An uploaded field: the name it asks for, and its data unless it cannot be read. -/
structure Field where
  fileName : Option String
  data : Except String Bytes

/-- The uploads stored so far. -/
structure Uploads where
  usedNames : List String
  nameCounters : String → Option Nat
  fileCount : Nat
  /-- The files of the directory. -/
  files : List (String × Bytes)

namespace Uploads

def empty : Uploads where
  usedNames := []
  nameCounters := fun _ => none
  fileCount := 0
  files := []

/-- Write a file, over one of the same name. -/
def writeFile (files : List (String × Bytes)) (name : String) (data : Bytes) :
    List (String × Bytes) :=
  files.filter (fun file => file.1 ≠ name) ++ [(name, data)]

end Uploads

/-- A numbered name. -/
def numberedName (counter : Nat) (base : String) : String := s!"{counter}_{base}"

/-- One round of the renaming loop: the counter of the name. -/
def renameRound (usedNames : List String) (base : String) (counter : Nat) :
    Run ApiError (Round Nat (String × Nat)) :=
  let safeFilename := numberedName counter base
  if counter + 1 < 2 ^ 32 then
    if safeFilename ∈ usedNames then .ok (.next (counter + 1))
    else .ok (.done (safeFilename, counter + 1))
  else refuse (.badRequest "Filename deduplication overflow")

/-- Find a name that is not taken, and record it. -/
def claimName (uploads : Uploads) (base : String) : Run ApiError (String × Uploads) :=
  if base ∈ uploads.usedNames then do
    let counter := (uploads.nameCounters base).getD 1
    let (safeFilename, counter) ←
      loop (renameRound uploads.usedNames base) (uploads.usedNames.length + 2) counter
    .ok (safeFilename,
      { uploads with
        usedNames := safeFilename :: uploads.usedNames
        nameCounters := Function.update uploads.nameCounters base (some counter) })
  else .ok (base, { uploads with usedNames := base :: uploads.usedNames })

/-- Store one field. -/
def storeField (uploads : Uploads) (field : Field) : Run ApiError Uploads :=
  if uploads.fileCount ≥ MAX_SERVER_FILE_COUNT.toNat then
    refuse (.badRequest s!"Upload exceeds maximum file count of {MAX_SERVER_FILE_COUNT}")
  else
    let filename := field.fileName.getD s!"file_{uploads.fileCount}"
    match field.data with
    | .error message => refuse (.badRequest message)
    | .ok data =>
        if data.length > MAX_FIELD_SIZE then
          refuse (.badRequest s!"Field exceeds maximum size of {MAX_FIELD_SIZE} bytes")
        else do
          let base := sanitizeFilename filename uploads.fileCount
          let (safeFilename, uploads) ← claimName uploads base
          let fileCount ← add 32 uploads.fileCount 1
          .ok { uploads with
            files := Uploads.writeFile uploads.files safeFilename data
            fileCount := fileCount }

/-- Store all fields, of which there must be one. -/
def storeUploads (fields : List Field) : Run ApiError Uploads := do
  let uploads ← fields.foldlM storeField Uploads.empty
  if uploads.fileCount = 0 then refuse (.badRequest "No files uploaded") else .ok uploads

/-! ## Naming -/

/-- A numbered name is its counter and the name. -/
theorem toList_numberedName (counter : Nat) (base : String) :
    (numberedName counter base).toList = (toString counter).toList ++ '_' :: base.toList := by
  have joined : numberedName counter base = toString counter ++ "_" ++ base := rfl
  rw [joined, String.toList_append, String.toList_append, List.append_assoc]
  rfl

/-- Counters number a name in different ways. -/
theorem numberedName_injective (base : String) :
    Function.Injective fun counter => numberedName counter base := by
  intro first second same
  have texts := congrArg String.toList same
  dsimp only at texts
  rw [toList_numberedName, toList_numberedName] at texts
  have digits := List.append_cancel_right texts
  rw [Nat.toString_eq_ofList_toDigits, Nat.toString_eq_ofList_toDigits, String.toList_ofList,
    String.toList_ofList] at digits
  rw [← @Nat.ofDigitChars_ten_toDigits first, digits, Nat.ofDigitChars_ten_toDigits]

/-- A number in front of a safe name leaves it safe. -/
theorem safeName_numberedName (counter : Nat) {base : String} (safe : SafeName base.toList) :
    SafeName (numberedName counter base).toList := by
  rw [toList_numberedName]
  exact safeName_join (plain_toString counter) (toString_ne_nil counter) safe.toCleanText
    safe.nonempty

/-- The names an upload has handed out. -/
def Uploads.registry (uploads : Uploads) : Registry String where
  used := uploads.usedNames
  next := fun base => (uploads.nameCounters base).getD 1

/-- **The renaming loop ends** at a number that is not taken, with no number between untried. -/
theorem renameLoop_ends {usedNames : List String} {base : String} {start : Nat}
    (small : usedNames.length < 2 ^ 31)
    (before : ∀ k, 1 ≤ k → k < start → numberedName k base ∈ usedNames) :
    ∃ k, loop (renameRound usedNames base) (usedNames.length + 2) start =
        .ok (numberedName k base, k + 1) ∧ start ≤ k ∧
      (∀ j, start ≤ j → j < k → numberedName j base ∈ usedNames) ∧
      numberedName k base ∉ usedNames := by
  obtain ⟨result, ran, k, rfl, found⟩ := @loop_ends ApiError (String × Nat) Nat
    (renameRound usedNames base)
    (fun counter => start ≤ counter ∧
      ∀ j, start ≤ j → j < counter → numberedName j base ∈ usedNames)
    (fun result => ∃ k, result = .ok (numberedName k base, k + 1) ∧ start ≤ k ∧
      (∀ j, start ≤ j → j < k → numberedName j base ∈ usedNames) ∧
      numberedName k base ∉ usedNames)
    (fun counter => usedNames.length + 1 - counter)
    (by
      rintro counter ⟨later, tried⟩
      have taken (k : Nat) (positive : 1 ≤ k) (below : k < counter) :
          numberedName k base ∈ usedNames := by
        rcases Nat.lt_or_ge k start with old | new
        · exact before k positive old
        · exact tried k new below
      have near := le_length_of_passed (numberedName_injective base) taken
      unfold renameRound
      dsimp only
      rw [if_pos (show counter + 1 < 2 ^ 32 by omega)]
      by_cases here : numberedName counter base ∈ usedNames
      · have further (k : Nat) (positive : 1 ≤ k) (below : k < counter + 1) :
            numberedName k base ∈ usedNames := by
          rcases Nat.lt_or_eq_of_le (Nat.le_of_lt_succ below) with earlier | rfl
          · exact taken k positive earlier
          · exact here
        have beyond := le_length_of_passed (numberedName_injective base) further
        rw [if_pos here]
        refine .inl ⟨counter + 1, rfl, ⟨later.trans (Nat.le_succ _), ?_⟩, by omega⟩
        intro j from_start below
        rcases Nat.lt_or_eq_of_le (Nat.le_of_lt_succ below) with earlier | rfl
        · exact tried j from_start earlier
        · exact here
      · rw [if_neg here]
        exact .inr (.inl ⟨_, rfl, counter, rfl, later, tried, here⟩))
    (usedNames.length + 2) start ⟨le_rfl, fun j above below => absurd above (not_le.mpr below)⟩
    (by omega)
  exact ⟨k, ran, found⟩

/-- **A name is always found**, and found as the registry hands out names. -/
theorem claimName_claims {uploads : Uploads} (small : uploads.usedNames.length < 2 ^ 31)
    (passed : Passed numberedName uploads.registry) {base : String}
    (safe : SafeName base.toList) :
    ∃ name later, claimName uploads base = .ok (name, later) ∧
      Claims numberedName uploads.registry base name later.registry ∧ SafeName name.toList ∧
      later.files = uploads.files ∧ later.fileCount = uploads.fileCount := by
  unfold claimName
  by_cases taken : base ∈ uploads.usedNames
  · rw [if_pos taken]
    dsimp only
    obtain ⟨k, ran, tried, between, free⟩ := renameLoop_ends small (passed base)
    change loop _ _ ((uploads.nameCounters base).getD 1) = _ at ran
    rw [ran, Result.ok_bind]
    refine ⟨_, _, rfl, ?_, safeName_numberedName k safe, rfl, rfl⟩
    have claims :=
      @Claims.numbered _ _ numberedName uploads.registry base k taken tried between free
    have counters : (fun other => (Function.update uploads.nameCounters base (some (k + 1))
        other).getD 1) = Function.update uploads.registry.next base (k + 1) := by
      funext other
      exact Function.apply_update (fun _ counter => Option.getD counter 1) uploads.nameCounters base
        (some (k + 1)) other
    unfold Uploads.registry
    rw [counters]
    exact claims
  · rw [if_neg taken]
    exact ⟨_, _, rfl, .plain taken, safe, rfl, rfl⟩

/-! ## Storing -/

/-- A field the handler stores. -/
def Acceptable (field : Field) : Prop :=
  ∃ data, field.data = .ok data ∧ data.length ≤ MAX_FIELD_SIZE

/-- What is stored when some fields have been: each has a file of its own, with its data, under a
safe name handed out for it. -/
structure Stored (fields : List Field) (uploads : Uploads) : Prop where
  count : uploads.fileCount = fields.length
  limited : fields.length ≤ MAX_SERVER_FILE_COUNT.toNat
  acceptable : ∀ field ∈ fields, Acceptable field
  claims : ∃ bases, ClaimsAll numberedName .empty bases (uploads.files.map Prod.fst)
    uploads.registry
  data : uploads.files.map (fun file => .ok file.2) = fields.map Field.data
  safe : ∀ file ∈ uploads.files, SafeName file.1.toList

theorem passed_empty : Passed numberedName .empty :=
  fun _ _ positive below => absurd positive (not_le.mpr below)

variable {fields : List Field} {uploads : Uploads}

theorem Stored.passed (stored : Stored fields uploads) : Passed numberedName uploads.registry := by
  obtain ⟨bases, claims⟩ := stored.claims
  exact (claims.invariant passed_empty).1

/-- The names in use are those of the files. -/
theorem Stored.usedNames_eq (stored : Stored fields uploads) :
    uploads.usedNames = (uploads.files.map Prod.fst).reverse := by
  obtain ⟨bases, claims⟩ := stored.claims
  exact (claims.invariant passed_empty).2.trans (List.append_nil _)

/-- **No two stored files share a name.** -/
theorem Stored.nodup (stored : Stored fields uploads) : (uploads.files.map Prod.fst).Nodup := by
  obtain ⟨bases, claims⟩ := stored.claims
  exact claims.nodup passed_empty

/-- There is one file for each field. -/
theorem Stored.length_files (stored : Stored fields uploads) :
    uploads.files.length = fields.length := by
  have lengths := congrArg List.length stored.data
  rwa [List.length_map, List.length_map] at lengths

/-- At the start nothing is stored. -/
theorem stored_empty : Stored [] .empty where
  count := rfl
  limited := Nat.zero_le _
  acceptable _ member := absurd member List.not_mem_nil
  claims := ⟨[], .nil⟩
  data := rfl
  safe _ member := absurd member List.not_mem_nil

/-- A new name overwrites nothing. -/
theorem writeFile_fresh {files : List (String × Bytes)} {name : String}
    (fresh : name ∉ files.map Prod.fst) (data : Bytes) :
    Uploads.writeFile files name data = files ++ [(name, data)] := by
  unfold Uploads.writeFile
  rw [List.filter_eq_self.mpr]
  intro file member
  exact decide_eq_true fun same => fresh (same ▸ List.mem_map_of_mem member)

/-- **One field** is stored beside the others, or refused because there are too many or its data
is not acceptable. -/
theorem storeField_stored (stored : Stored fields uploads) (field : Field) :
    (∃ later, storeField uploads field = .ok later ∧ Stored (fields ++ [field]) later) ∨
      (∃ error, storeField uploads field = refuse error ∧
        (MAX_SERVER_FILE_COUNT.toNat ≤ fields.length ∨ ¬Acceptable field)) := by
  have limit : MAX_SERVER_FILE_COUNT.toNat = 10000 := rfl
  unfold storeField
  by_cases full : uploads.fileCount ≥ MAX_SERVER_FILE_COUNT.toNat
  · rw [if_pos full]
    exact .inr ⟨_, rfl, .inl (stored.count ▸ full)⟩
  rw [if_neg full]
  dsimp only
  cases read : field.data with
  | error message =>
      refine .inr ⟨_, rfl, .inr ?_⟩
      rintro ⟨data, same, -⟩
      cases read.symm.trans same
  | ok data =>
      dsimp only
      by_cases large : data.length > MAX_FIELD_SIZE
      · rw [if_pos large]
        refine .inr ⟨_, rfl, .inr ?_⟩
        rintro ⟨other, same, small⟩
        cases read.symm.trans same
        exact absurd small (not_le.mpr large)
      · rw [if_neg large]
        have room : uploads.usedNames.length < 2 ^ 31 := by
          rw [stored.usedNames_eq, List.length_reverse, List.length_map, stored.length_files]
          exact stored.limited.trans_lt (by decide)
        obtain ⟨name, later, claimed, claims, safe, files, count⟩ := claimName_claims room
          stored.passed (safeName_sanitizeFilename
            (field.fileName.getD s!"file_{uploads.fileCount}") uploads.fileCount)
        have fits : later.fileCount + 1 < 2 ^ 32 := by
          rw [count, stored.count]
          have := stored.limited
          omega
        have fresh : name ∉ later.files.map Prod.fst := by
          rw [files]
          intro member
          apply claims.fresh
          change name ∈ uploads.usedNames
          rw [stored.usedNames_eq]
          exact List.mem_reverse.mpr member
        rw [claimed, Result.ok_bind, add_of_lt fits, Result.ok_bind]
        refine .inl ⟨_, rfl, ?_⟩
        rw [writeFile_fresh fresh, files, count]
        obtain ⟨bases, before⟩ := stored.claims
        have grown := before.snoc claims
        have names : (uploads.files ++ [(name, data)]).map Prod.fst =
            uploads.files.map Prod.fst ++ [name] := List.map_append
        rw [← names] at grown
        refine ⟨?_, ?_, ?_, ⟨_, grown⟩, ?_, ?_⟩
        · rw [List.length_append, stored.count]
          rfl
        · rw [List.length_append, ← stored.count]
          exact not_le.mp full
        · intro other member
          rcases List.mem_append.mp member with inside | last
          · exact stored.acceptable other inside
          · rw [List.mem_singleton.mp last]
            exact ⟨data, read, not_lt.mp large⟩
        · rw [List.map_append, List.map_append, stored.data]
          exact congrArg (fun last => fields.map Field.data ++ [last]) read.symm
        · intro file member
          rcases List.mem_append.mp member with inside | last
          · exact stored.safe file inside
          · rw [List.mem_singleton.mp last]
            exact safe

/-- **A run** stores all fields, or is refused at one that is too many or not acceptable. -/
theorem foldlM_storeField (stored : Stored fields uploads) (more : List Field) :
    (∃ later, more.foldlM storeField uploads = .ok later ∧ Stored (fields ++ more) later) ∨
      (∃ error, more.foldlM storeField uploads = refuse error ∧
        ¬((fields ++ more).length ≤ MAX_SERVER_FILE_COUNT.toNat ∧
          ∀ field ∈ fields ++ more, Acceptable field)) := by
  induction more generalizing fields uploads with
  | nil => exact .inl ⟨uploads, rfl, (List.append_nil fields).symm ▸ stored⟩
  | cons field more recurse =>
      have regrouped : fields ++ field :: more = fields ++ [field] ++ more :=
        (List.append_assoc fields [field] more).symm
      rw [List.foldlM_cons, regrouped]
      rcases storeField_stored stored field with ⟨middle, ran, between⟩ | ⟨error, ran, wrong⟩
      · rw [ran, Result.ok_bind]
        exact recurse between
      · rw [ran]
        refine .inr ⟨error, rfl, ?_⟩
        rintro ⟨short, acceptable⟩
        rcases wrong with full | spoiled
        · rw [List.length_append, List.length_append] at short
          change fields.length + 1 + more.length ≤ _ at short
          omega
        · apply spoiled
          apply acceptable
          exact List.mem_append_left _ (List.mem_append_right _ List.mem_cons_self)

/-- **The handler** stores what it is given when that is acceptable, and is refused otherwise. -/
theorem storeUploads_stored (fields : List Field) :
    (∃ uploads, storeUploads fields = .ok uploads ∧ Stored fields uploads ∧ fields ≠ []) ∨
      (∃ error, storeUploads fields = refuse error ∧
        ¬(fields ≠ [] ∧ fields.length ≤ MAX_SERVER_FILE_COUNT.toNat ∧
          ∀ field ∈ fields, Acceptable field)) := by
  unfold storeUploads
  rcases foldlM_storeField stored_empty fields with ⟨uploads, ran, stored⟩ | ⟨error, ran, wrong⟩
  · rw [ran, Result.ok_bind]
    rw [List.nil_append] at stored
    by_cases none : uploads.fileCount = 0
    · rw [if_pos none]
      refine .inr ⟨_, rfl, fun both => both.1 ?_⟩
      rw [stored.count] at none
      exact List.length_eq_zero_iff.mp none
    · rw [if_neg none]
      refine .inl ⟨uploads, rfl, stored, ?_⟩
      rintro rfl
      exact none stored.count
  · rw [ran]
    exact .inr ⟨error, rfl, fun all => wrong all.2⟩

/-- **Uploaded names never collide or escape.** Whatever names are asked for, the handler meets no
fault, and its renaming loops all end. It succeeds on every acceptable upload, and then each field
has a file of its own with its data, under a safe name that the validator accepts unless it is too
long. Sanitizing twice changes nothing more. -/
theorem uploadedNames_safe (fields : List Field) :
    (∀ reason, storeUploads fields ≠ fault reason) ∧
      ((∃ uploads, storeUploads fields = .ok uploads) ↔
        fields ≠ [] ∧ fields.length ≤ MAX_SERVER_FILE_COUNT.toNat ∧
          ∀ field ∈ fields, Acceptable field) ∧
      (∀ uploads, storeUploads fields = .ok uploads →
        (uploads.files.map Prod.fst).Nodup ∧
        uploads.files.map (fun file => .ok file.2) = fields.map Field.data ∧
        ∀ name ∈ uploads.files.map Prod.fst, SafeName name.toList ∧
          ((asBytes name).length ≤ MAX_PATH_LENGTH → validateExtractionPath name = .ok ())) ∧
      ∀ (filename : String) (first second : Nat),
        sanitizeFilename (sanitizeFilename filename first) second =
          sanitizeFilename filename first := by
  refine ⟨fun reason failed => ?_, ⟨?_, fun acceptable => ?_⟩, fun uploads success => ?_,
    fun filename first second => ?_⟩
  · rcases storeUploads_stored fields with ⟨uploads, ran, -⟩ | ⟨error, ran, -⟩
    · cases ran.symm.trans failed
    · cases ran.symm.trans failed
  · rintro ⟨uploads, success⟩
    rcases storeUploads_stored fields with ⟨same, ran, stored, some⟩ | ⟨error, ran, -⟩
    · exact ⟨some, stored.limited, stored.acceptable⟩
    · cases ran.symm.trans success
  · rcases storeUploads_stored fields with ⟨uploads, ran, -⟩ | ⟨error, ran, wrong⟩
    · exact ⟨uploads, ran⟩
    · exact absurd acceptable wrong
  · rcases storeUploads_stored fields with ⟨same, ran, stored, -⟩ | ⟨error, ran, -⟩
    · cases ran.symm.trans success
      refine ⟨stored.nodup, stored.data, fun name member => ?_⟩
      obtain ⟨file, inside, rfl⟩ := List.mem_map.mp member
      have safe := stored.safe file inside
      exact ⟨safe, validateExtractionPath_safe safe⟩
    · cases ran.symm.trans success
  · exact sanitizeFilename_eq (safeName_sanitizeFilename filename first) second

end Server

end AetherArch
