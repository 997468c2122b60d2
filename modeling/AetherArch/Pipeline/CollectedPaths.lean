import AetherArch.Pipeline.ExtractionPaths
import AetherArch.Pipeline.Migrate

/-! # Paths of collected files

A file that was extracted is collected under the names that lead to it, and stored under them with
single separators. Backslashes in them become separators on the way.
-/

namespace AetherArch

open FileTrees

/-! ## Names -/

/-- A name that an extracted file can have on the way to it. -/
structure NamedPart (name : List Char) : Prop where
  named : name ≠ []
  useful : name ≠ ['.']
  forward : name ≠ ['.', '.']
  whole : '/' ∉ name

theorem NamedPart.plain {name : List Char} (part : NamedPart name) :
    UnixPath.Plain (Utf8.encode name) where
  named := by
    refine decide_eq_false ?_
    rintro (empty | current)
    · exact part.named (Utf8.encode_injective empty)
    · exact part.useful (Utf8.encode_injective current)
  forward := fun parent => part.forward (Utf8.encode_injective parent)
  whole := by
    intro member
    obtain ⟨c, inside, encoded⟩ := List.mem_flatMap.mp member
    have code := (Utf8.mem_encodeChar (by decide)).mp encoded
    obtain rfl : c = '/' := Char.toNat_inj.mp (code.trans rfl)
    exact part.whole inside

/-- **An accepted path leads along names.** -/
theorem namedPart_of_valid {path : String} (valid : validateExtractionPath path = .ok ())
    {name : List Char} (member : name ∈ location path) : NamedPart name := by
  obtain ⟨inside, useful⟩ := List.mem_filter.mp member
  obtain ⟨named, current⟩ := of_decide_eq_true useful
  refine ⟨named, current, ?_, ?_⟩
  · rintro rfl
    refine forward_of_valid valid ['.', '.'] ?_ rfl
    have both : pathComponents path =
        path.toList.splitOnP fun c => (c == '/') || decide (c = '\\') := by
      rw [pathComponents]
      congr 1
      funext c
      rw [Bool.decide_or]
      rfl
    rw [both, UnixPath.splitOnP_or, List.mem_flatMap]
    exact ⟨['.', '.'], by rwa [← List.splitOn_eq_splitOnP], by decide⟩
  · intro slash
    rw [List.splitOn_eq_splitOnP] at inside
    exact absurd (UnixPath.of_mem_splitOnP inside '/' slash) (by decide)

/-! ## Names put together -/

/-- The path along names with single separators. -/
def joinedPath (place : List (List Char)) : String := String.ofList (['/'].intercalate place)

theorem encode_intercalate (place : List (List Char)) :
    Utf8.encode (['/'].intercalate place) = UnixPath.join (place.map Utf8.encode) := by
  induction place with
  | nil => rfl
  | cons name place recurse =>
      cases place with
      | nil => rw [List.intercalate_singleton, List.map_singleton, UnixPath.join_singleton]
      | cons next rest =>
          rw [List.intercalate_cons_cons, Utf8.encode_append, Utf8.encode_append, recurse]
          simp only [List.map_cons, UnixPath.join, List.intercalate_cons_cons]
          rfl

theorem asBytes_joinedPath (place : List (List Char)) :
    asBytes (joinedPath place) = UnixPath.join (place.map Utf8.encode) := by
  rw [asBytes_eq_encode, joinedPath, String.toList_ofList, encode_intercalate]

/-- **The joined path leads along the names.** -/
theorem location_joinedPath {place : List (List Char)} (parts : ∀ name ∈ place, NamedPart name)
    (some : place ≠ []) : location (joinedPath place) = place := by
  rw [location, joinedPath, String.toList_ofList,
    List.splitOn_intercalate '/' (fun name member => (parts name member).whole) some]
  refine List.filter_eq_self.mpr fun name member => ?_
  exact decide_eq_true ⟨(parts name member).named, (parts name member).useful⟩

/-! ## The path in the archive -/

/-- A letter as the writer stores it. -/
def storedLetter (letter : Char) : Char := if letter = '\\' then '/' else letter

/-- The path that collected names are stored under. -/
def storedPath (place : List (List Char)) : String :=
  String.ofList ((joinedPath place).toList.map storedLetter)

theorem storedPath_eq {place : List (List Char)}
    (unescaped : ∀ name ∈ place, '\\' ∉ name) : storedPath place = joinedPath place := by
  have same : (joinedPath place).toList.map storedLetter = (joinedPath place).toList := by
    refine (List.map_congr_left fun letter member => ?_).trans (List.map_id _)
    rw [joinedPath, String.toList_ofList] at member
    refine if_neg ?_
    rintro rfl
    obtain ⟨name, inside, found⟩ := UnixPath.mem_intercalate member (by decide)
    exact unescaped name inside found
  rw [storedPath, same, String.ofList_toList]

/-- Stored paths lead along names without backslashes. -/
theorem unescaped_location_storedPath {place : List (List Char)} {name : List Char}
    (member : name ∈ location (storedPath place)) : '\\' ∉ name := by
  intro escaped
  have inside := (List.mem_filter.mp member).1
  rw [List.splitOn_eq_splitOnP] at inside
  have found := UnixPath.subset_of_mem_splitOnP inside escaped
  rw [storedPath, String.toList_ofList] at found
  obtain ⟨letter, -, stored⟩ := List.mem_map.mp found
  rw [storedLetter] at stored
  split at stored
  · exact absurd stored (by decide)
  · exact absurd stored ‹_›

namespace TempDir

variable {tmp : TempDir} {place : List (List Char)}

theorem pathOf_eq (parts : ∀ name ∈ place, NamedPart name) (some : place ≠ []) :
    tmp.pathOf place = tmp.path ++ UnixPath.SEPARATOR :: UnixPath.join (place.map Utf8.encode) := by
  have plain : ∀ name ∈ place.map Utf8.encode, UnixPath.Plain name := by
    intro name member
    obtain ⟨part, inside, rfl⟩ := List.mem_map.mp member
    exact (parts part inside).plain
  have nonempty : tmp.path ≠ [] := by
    intro empty
    have rooted := tmp.base.rooted
    rw [empty] at rooted
    cases rooted
  have pushed : tmp.pathOf place = (place.map Utf8.encode).foldl UnixPath.push tmp.path := by
    rw [pathOf, List.foldl_map]
  rw [pushed, UnixPath.foldl_push plain nonempty tmp.base.unended,
    UnixPath.flatMap_separator fun none => some (List.map_eq_nil_iff.mp none)]

/-- **The path a collected file is stored under.** -/
theorem relativePath_pathOf (parts : ∀ name ∈ place, NamedPart name) (some : place ≠ []) :
    Compressor.relativePath tmp.path (tmp.pathOf place) = .ok (storedPath place) := by
  have plain : ∀ name ∈ place.map Utf8.encode, UnixPath.Plain name := by
    intro name member
    obtain ⟨part, inside, rfl⟩ := List.mem_map.mp member
    exact (parts part inside).plain
  rw [Compressor.relativePath, pathOf_eq parts some,
    UnixPath.stripPrefix_below tmp.base.rooted plain
      fun none => some (List.map_eq_nil_iff.mp none),
    Option.getD_some, ← asBytes_joinedPath, fromUtf8_asBytes]
  rfl

end TempDir

end AetherArch
