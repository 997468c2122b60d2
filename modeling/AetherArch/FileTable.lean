import AetherArch.RecordRoundTrip

/-! # File tables

Both encodings of a file table give the same entries back. The room of an entry depends on its
path and the one before it only, so a table that is written again in place with other blocks
changes nothing but the entries that changed.
-/

namespace AetherArch

namespace FileEntry

/-- Bytes an entry takes after the path of the entry before it. -/
def entrySize (isPrefixed : Bool) (entry : FileEntry) (previousPath : String) : Nat :=
  (if isPrefixed then entry.prefixedPathSize previousPath else 2 + (asBytes entry.path).length) +
    FIXED_FIELDS_SIZE

theorem sharedPrefixLen_le (entry : FileEntry) (previousPath : String) :
    entry.sharedPrefixLen previousPath ≤ (asBytes entry.path).length :=
  (entry.sharedPrefixLen_spec previousPath).1

/-- The length of a written entry. -/
theorem length_writeEntry {isPrefixed : Bool} {entry : FileEntry} {previousPath : String}
    {bytes : Bytes} (written : entry.writeEntry isPrefixed previousPath = .ok bytes) :
    bytes.length = entry.entrySize isPrefixed previousPath := by
  rw [writeEntry] at written
  cases isPrefixed with
  | false =>
      cases written
      simp only [writeTo, entrySize, List.length_append, length_writeU16, length_fixedFields,
        Bool.false_eq_true, ↓reduceIte]
  | true =>
      have inside := entry.sharedPrefixLen_le previousPath
      simp only [↓reduceIte, writePrefixed, Result.bind_eq_ok, Result.pure_eq_ok] at written
      obtain ⟨-, -, -, -, rfl⟩ := written
      simp only [entrySize, prefixedPathSize, List.length_append, length_writeU16,
        length_fixedFields, List.length_drop, ↓reduceIte]
      omega

/-- An entry with a short path can be written. -/
theorem writeEntry_exists (isPrefixed : Bool) {entry : FileEntry}
    (short : (asBytes entry.path).length ≤ MAX_PATH_LENGTH) (previousPath : String) :
    ∃ bytes, entry.writeEntry isPrefixed previousPath = .ok bytes := by
  have limit : MAX_PATH_LENGTH = 4096 := rfl
  rw [writeEntry]
  cases isPrefixed with
  | false => exact ⟨entry.writeTo, rfl⟩
  | true =>
      have inside := entry.sharedPrefixLen_le previousPath
      simp only [↓reduceIte, writePrefixed, Result.bind_eq_ok, Result.failIf_eq_ok,
        Result.pure_eq_ok, List.length_drop, not_le, ge_iff_le]
      exact ⟨_, (), by omega, (), by omega, rfl⟩

end FileEntry

/-- The bytes of each entry of a table that starts after a path. -/
inductive WrittenEntries (isPrefixed : Bool) : List FileEntry → String → List Bytes → Prop
  | nil {previousPath : String} : WrittenEntries isPrefixed [] previousPath []
  | cons {entry : FileEntry} {entries : List FileEntry} {previousPath : String} {bytes : Bytes}
      {pieces : List Bytes} (here : entry.writeEntry isPrefixed previousPath = .ok bytes)
      (later : WrittenEntries isPrefixed entries entry.path pieces) :
      WrittenEntries isPrefixed (entry :: entries) previousPath (bytes :: pieces)

/-- The room of each entry of a table that starts after a path. -/
def entrySizes (isPrefixed : Bool) : List FileEntry → (previousPath : String) → List Nat
  | [], _ => []
  | entry :: entries, previousPath =>
      entry.entrySize isPrefixed previousPath :: entrySizes isPrefixed entries entry.path

section

variable {isPrefixed : Bool} {entries others : List FileEntry} {previousPath : String}
  {pieces rewritten : List Bytes}

/-- The table is its written entries. -/
theorem WrittenEntries.table (written : WrittenEntries isPrefixed entries previousPath pieces) :
    writeFileTable isPrefixed entries previousPath = .ok pieces.flatten := by
  induction written with
  | nil => rfl
  | cons here _ recurse =>
      rw [writeFileTable, here, Result.ok_bind, recurse]
      rfl

/-- The written entries have the sizes of the entries. -/
theorem WrittenEntries.sizes (written : WrittenEntries isPrefixed entries previousPath pieces) :
    pieces.map List.length = entrySizes isPrefixed entries previousPath := by
  induction written with
  | nil => rfl
  | cons here _ recurse =>
      rw [List.map_cons, entrySizes, FileEntry.length_writeEntry here, recurse]

/-- Short paths can be written. -/
theorem writtenEntries_exist (isPrefixed : Bool)
    (short : ∀ entry ∈ entries, (asBytes entry.path).length ≤ MAX_PATH_LENGTH)
    (previousPath : String) :
    ∃ pieces, WrittenEntries isPrefixed entries previousPath pieces := by
  induction entries generalizing previousPath with
  | nil => exact ⟨[], .nil⟩
  | cons entry entries recurse =>
      obtain ⟨shortHere, shortLater⟩ := List.forall_mem_cons.mp short
      obtain ⟨bytes, here⟩ := FileEntry.writeEntry_exists isPrefixed shortHere previousPath
      obtain ⟨pieces, later⟩ := recurse shortLater entry.path
      exact ⟨bytes :: pieces, .cons here later⟩

/-- The room of an entry depends on the paths only. -/
theorem entrySizes_congr (samePaths : others.map FileEntry.path = entries.map FileEntry.path)
    (previousPath : String) :
    entrySizes isPrefixed others previousPath = entrySizes isPrefixed entries previousPath := by
  induction entries generalizing others previousPath with
  | nil =>
      rw [List.map_eq_nil_iff.mp samePaths]
  | cons entry entries recurse =>
      cases others with
      | nil => cases samePaths
      | cons other others =>
          obtain ⟨here, later⟩ := List.cons.inj samePaths
          have size : other.entrySize isPrefixed previousPath =
              entry.entrySize isPrefixed previousPath := by
            simp only [FileEntry.entrySize, FileEntry.prefixedPathSize, FileEntry.sharedPrefixLen,
              here]
          rw [entrySizes, entrySizes, size, here, recurse later]

/-- The length of the table. -/
theorem length_writeFileTable {bytes : Bytes}
    (written : writeFileTable isPrefixed entries previousPath = .ok bytes) :
    bytes.length = (entrySizes isPrefixed entries previousPath).sum := by
  induction entries generalizing previousPath bytes with
  | nil =>
      cases written
      rfl
  | cons entry entries recurse =>
      simp only [writeFileTable, Result.bind_eq_ok, Result.pure_eq_ok] at written
      obtain ⟨first, here, rest, later, rfl⟩ := written
      rw [List.length_append, entrySizes, List.sum_cons, FileEntry.length_writeEntry here,
        recurse later]

/-- **Entries that stay keep their bytes** when others of the table change. -/
theorem WrittenEntries.piece_eq (written : WrittenEntries isPrefixed entries previousPath pieces)
    (again : WrittenEntries isPrefixed others previousPath rewritten)
    (samePaths : others.map FileEntry.path = entries.map FileEntry.path) {j : Nat}
    (stays : others[j]? = entries[j]?) : rewritten[j]? = pieces[j]? := by
  induction written generalizing others rewritten j with
  | nil =>
      obtain rfl := List.map_eq_nil_iff.mp samePaths
      cases again
      rfl
  | cons here _ recurse =>
      cases again with
      | nil => cases samePaths
      | cons hereAgain laterAgain =>
          obtain ⟨samePath, sameRest⟩ := List.cons.inj samePaths
          cases j with
          | zero =>
              obtain rfl := Option.some.inj stays
              obtain rfl := Except.ok.inj (hereAgain.symm.trans here)
              rfl
          | succ j => exact recurse (samePath ▸ laterAgain) sameRest stays

end

/-- **File tables are read back from both encodings**, and are rewritten in place. -/
theorem fileTable_roundTrip (entries : List FileEntry)
    (accepted : ∀ entry ∈ entries, AcceptedPath entry.path) (isPrefixed : Bool) :
    ∃ pieces : List Bytes, writeFileTable isPrefixed entries "" = .ok pieces.flatten ∧
      ByteReader.Reads (readFileTable isPrefixed entries.length "") pieces.flatten
        (entries.map FileEntry.masked) ∧
      pieces.map List.length = entrySizes isPrefixed entries "" ∧
      ∀ others : List FileEntry, others.map FileEntry.path = entries.map FileEntry.path →
        ∃ rewritten : List Bytes, writeFileTable isPrefixed others "" = .ok rewritten.flatten ∧
          rewritten.map List.length = pieces.map List.length ∧
          ∀ j : Nat, others[j]? = entries[j]? → rewritten[j]? = pieces[j]? := by
  obtain ⟨pieces, written⟩ := writtenEntries_exist isPrefixed
    (fun entry member => (accepted entry member).short) ""
  refine ⟨pieces, written.table, reads_writeFileTable accepted written.table, written.sizes, ?_⟩
  intro others samePaths
  have short : ∀ other ∈ others, (asBytes other.path).length ≤ MAX_PATH_LENGTH := by
    intro other member
    have among : other.path ∈ entries.map FileEntry.path := by
      rw [← samePaths]
      exact List.mem_map_of_mem member
    obtain ⟨entry, entryMember, path⟩ := List.mem_map.mp among
    rw [← path]
    exact (accepted entry entryMember).short
  obtain ⟨rewritten, again⟩ := writtenEntries_exist isPrefixed short ""
  refine ⟨rewritten, again.table, ?_, fun j stays => written.piece_eq again samePaths stays⟩
  rw [again.sizes, written.sizes, entrySizes_congr samePaths]

/-- An entry of an empty file that its owner may execute with another's rights. -/
def setuidEntry (path : String) : FileEntry where
  path := path
  originalSize := 0
  blake3Hash := ⟨List.replicate 32 0, FixedBytes.length_zeros⟩
  solidGroupId := 0
  chunkStartIdx := 0
  chunkCount := 0
  permissions := 0o4755
  mtime := 0

/-- Two paths that share a part of a character. -/
theorem fileTable_roundTrip_accents :
    ∃ bytes, writeFileTable true [setuidEntry "caf\u00e9", setuidEntry "caf\u00e8"] "" =
        .ok bytes ∧
      ByteReader.Reads (readFileTable true 2 "") bytes
        [(setuidEntry "caf\u00e9").masked, (setuidEntry "caf\u00e8").masked] := by
  obtain ⟨pieces, written, reads, -⟩ :=
    fileTable_roundTrip [setuidEntry "caf\u00e9", setuidEntry "caf\u00e8"]
      (List.forall_mem_cons.mpr ⟨⟨by decide, by decide⟩,
        List.forall_mem_singleton.mpr ⟨by decide, by decide⟩⟩) true
  exact ⟨_, written, reads⟩

end AetherArch
