import AetherArch.Library.PathComponents
import AetherArch.Library.Utf8
import AetherArch.Pipeline.ExtractionTree
import AetherArch.Pipeline.PlainArchive

/-! # Where accepted paths lead

The checks on extraction paths speak of Unix and of Windows. Windows also separates names at
backslashes, drops the dots and spaces a name ends in, reads a colon as the end of a drive or the
start of a stream, and has more devices and forbidden characters than the validator lists. The
validator looks for device names and for dots and spaces in the last component only, and for a
drive at the start of the whole path only.
-/

namespace AetherArch

open UnixPath (Place Component resolve push)

/-- A path or a component starts with a drive. -/
def startsWithDrive : List Char → Bool
  | letter :: ':' :: _ => letter.isAlpha
  | _ => false

/-- The path of a text starts somewhere of its own: at a root or at a drive. -/
def Anchored (path : String) : Prop :=
  path.toList.head? = some '/' ∨ path.toList.head? = some '\\' ∨
    startsWithDrive path.toList = true

/-- What a component must not be on Windows, wherever it stands. -/
structure Ordinary (component : List Char) : Prop where
  unreserved : isReservedName (component.takeWhile (· ≠ '.')) = false
  kept : component ≠ ['.'] → component.getLast? ≠ some '.' ∧ component.getLast? ≠ some ' '

/-- A component that the rules of the validator take. -/
structure SafeComponent (component : List Char) : Prop extends Ordinary component where
  forward : component ≠ ['.', '.']

/-! ## The rules of Windows -/

/-- No name on Windows has the character: it is a control character, or has a meaning of its
own. -/
def isWindowsReserved (c : Char) : Bool := c.toNat < 32 ∨ c ∈ "<>:\"|?*".toList

/-- Windows opens a device under the name: one that the validator lists, a console, or a port
whose number is a superscript, with spaces after it and an extension or not. -/
def isWindowsDevice (component : List Char) : Bool :=
  let stem := (component.takeWhile (· ≠ '.')).rdropWhile (· = ' ')
  let upper := stem.map Char.toUpper
  isReservedName stem || upper == "CONIN$".toList || upper == "CONOUT$".toList ||
    (upper.length == 4 && ("COM".toList.isPrefixOf upper || "LPT".toList.isPrefixOf upper) &&
      "¹²³".toList.contains (upper.getLastD '0'))

/-- A component that is a name on Windows. -/
structure WindowsName (component : List Char) : Prop where
  allowed : ∀ c ∈ component, isWindowsReserved c = false
  unreserved : isWindowsDevice component = false

/-- The name of the file Windows takes for a component: up to a colon, behind which a stream is
named, and without the dots and spaces at its end. -/
def windowsName (component : List Char) : List Char :=
  if component = ['.', '.'] then component
  else (component.takeWhile (· ≠ ':')).rdropWhile fun c => c = '.' ∨ c = ' '

/-- The components of a path that Windows follows. -/
def windowsParts (path : String) : List (List Char) :=
  (pathComponents path).filter fun name => name ≠ [] ∧ name ≠ ['.']

/-- The names that lead from the output directory to the file of a path on Windows. -/
def windowsLocation (path : String) : List (List Char) := (windowsParts path).map windowsName

/-- Where a component leads on Windows. A drive leads away from what stands ahead of it. -/
def windowsComponent (component : List Char) : Component (List Char) :=
  if startsWithDrive component then .rootDir
  else if component = ['.', '.'] then .parentDir
  else .normal (windowsName component)

/-- A path is safe below any directory, under the rules of both systems. -/
structure SafePath (path : String) : Prop where
  relative : ¬Anchored path
  components : ∀ component ∈ pathComponents path, SafeComponent component
  inside : ∀ root, (resolve (push root (asBytes path))).Inside (resolve root)
  insideWindows : ∀ root : Place (List Char),
    (root.follow ((windowsParts path).map windowsComponent)).Inside root
  ordinary : ∀ name ∈ location path,
    name ≠ [] ∧ name ≠ ['.'] ∧ SafeComponent name ∧ WindowsName name
  same : location path = windowsLocation path

/-- What the validator leaves unchecked: the components ahead of the last one, the characters
and devices that it does not list, and backslashes, which are part of a name on Unix. -/
structure UncheckedSafe (path : String) : Prop where
  ahead : ∀ component ∈ (pathComponents path).dropLast, Ordinary component
  named : ∀ component ∈ pathComponents path, WindowsName component
  unescaped : '\\' ∉ path.toList

/-! ## What the validator checks -/

theorem pathComponents_ne_nil (path : String) : pathComponents path ≠ [] :=
  List.splitOnP_ne_nil _ _

/-- **What acceptance says** of a path. -/
theorem ordinary_of_valid {path : String} (valid : validateExtractionPath path = .ok ()) :
    Ordinary ((pathComponents path).getLast (pathComponents_ne_nil path)) := by
  simp only [validateExtractionPath, Result.bind_eq_ok, Result.failIf_eq_ok] at valid
  obtain ⟨_, -, _, -, _, unreserved, ending⟩ := valid
  rw [List.getLastD_eq_getLast?, List.getLast?_eq_some_getLast (pathComponents_ne_nil path)]
    at unreserved ending
  rw [not_or] at ending
  exact ⟨Bool.eq_false_iff.mpr unreserved, fun _ => ending⟩

/-- A drive is a letter and a colon. -/
theorem startsWithDrive_eq_true {text : List Char} (drive : startsWithDrive text = true) :
    ∃ letter rest, letter.isAlpha = true ∧ text = letter :: ':' :: rest := by
  unfold startsWithDrive at drive
  split at drive
  · rename_i letter rest
    exact ⟨letter, rest, drive, rfl⟩
  · cases drive

/-- An accepted path starts neither at a root nor at a drive. -/
theorem relative_of_valid {path : String} (valid : validateExtractionPath path = .ok ()) :
    ¬Anchored path := by
  have safe := (PlainArchive.acceptedPath_of_valid valid).safe
  simp only [FileEntry.isUnsafePath, Bool.or_eq_false_iff, beq_eq_false_iff_ne] at safe
  obtain ⟨⟨⟨⟨-, slash⟩, backslash⟩, drive⟩, -⟩ := safe
  rintro (start | start | start)
  · exact slash start
  · exact backslash start
  · obtain ⟨letter, rest, alpha, start⟩ := startsWithDrive_eq_true start
    apply drive
    have ascii : letter.toNat < 128 := by
      unfold Char.isAlpha Char.isUpper Char.isLower at alpha
      simp only [Bool.or_eq_true, decide_eq_true_eq, Bool.decide_and, Bool.and_eq_true, ge_iff_le,
        UInt32.le_iff_toNat_le] at alpha
      rcases alpha with ⟨-, upper⟩ | ⟨-, lower⟩
      · exact upper.trans_lt (by decide)
      · exact lower.trans_lt (by decide)
    rw [asBytes_eq_encode, start, Utf8.encode_cons, Utf8.encodeChar_ascii ascii,
      Utf8.encode_cons, Utf8.encodeChar_ascii (by decide)]
    rfl

theorem forward_of_valid {path : String} (valid : validateExtractionPath path = .ok ()) :
    ∀ component ∈ pathComponents path, component ≠ ['.', '.'] := by
  have safe := (PlainArchive.acceptedPath_of_valid valid).safe
  simp only [FileEntry.isUnsafePath, Bool.or_eq_false_iff] at safe
  rintro component member rfl
  exact absurd (List.contains_iff_mem.mpr member) (Bool.eq_false_iff.mp safe.2)

/-- The components of an accepted path are safe when those ahead of the last one are. -/
theorem safeComponents {path : String} (valid : validateExtractionPath path = .ok ())
    (ahead : ∀ component ∈ (pathComponents path).dropLast, Ordinary component) :
    ∀ component ∈ pathComponents path, SafeComponent component := by
  intro component member
  refine ⟨?_, forward_of_valid valid component member⟩
  rw [← List.dropLast_append_getLast (pathComponents_ne_nil path)] at member
  rcases List.mem_append.mp member with early | last
  · exact ahead component early
  · cases List.mem_singleton.mp last
    exact ordinary_of_valid valid

/-! ## The two readings of a path -/

/-- Without backslashes, both systems split a path alike. -/
theorem pathComponents_eq_splitOn {path : String} (unescaped : '\\' ∉ path.toList) :
    pathComponents path = path.toList.splitOn '/' := by
  rw [pathComponents, List.splitOn_eq_splitOnP]
  apply UnixPath.splitOnP_congr
  intro c member
  have other : c ≠ '\\' := fun same => unescaped (same ▸ member)
  exact decide_eq_decide.mpr (or_iff_left other)

/-- A name on Windows has no colon. -/
theorem WindowsName.ne_colon {component : List Char} (name : WindowsName component) :
    ∀ c ∈ component, c ≠ ':' := by
  rintro c member rfl
  exact absurd (name.allowed ':' member) (by decide)

/-- A name on Windows does not start with a drive. -/
theorem WindowsName.startsWithDrive_eq {component : List Char} (name : WindowsName component) :
    startsWithDrive component = false := by
  rw [Bool.eq_false_iff]
  intro drive
  obtain ⟨letter, rest, -, rfl⟩ := startsWithDrive_eq_true drive
  exact name.ne_colon ':' (by simp) rfl

/-- Windows keeps a safe name as it is. -/
theorem SafeComponent.windowsName_eq {component : List Char} (safe : SafeComponent component)
    (name : WindowsName component) (useful : component ≠ ['.']) :
    windowsName component = component := by
  have whole : component.takeWhile (· ≠ ':') = component :=
    List.takeWhile_eq_self_iff.mpr fun c member => decide_eq_true (name.ne_colon c member)
  rw [windowsName, if_neg safe.forward, whole, List.rdropWhile_eq_self_iff]
  intro some dropped
  have last := List.getLast?_eq_some_getLast some
  have kept := safe.kept useful
  rw [last] at kept
  rcases of_decide_eq_true dropped with dot | space
  · exact kept.1 (congrArg _ dot)
  · exact kept.2 (congrArg _ space)

/-- Without backslashes, safe names are the same under both systems. -/
theorem location_eq_windowsLocation {path : String} (unescaped : '\\' ∉ path.toList)
    (safe : ∀ component ∈ pathComponents path, SafeComponent component)
    (names : ∀ component ∈ pathComponents path, WindowsName component) :
    location path = windowsLocation path := by
  rw [windowsLocation, windowsParts, location, ← pathComponents_eq_splitOn unescaped, eq_comm]
  refine (List.map_congr_left fun name member => ?_).trans (List.map_id _)
  obtain ⟨inside, useful⟩ := List.mem_filter.mp member
  exact (safe name inside).windowsName_eq (names name inside) (of_decide_eq_true useful).2

/-- Where the systems agree on the names of a path, it has no backslash. -/
theorem unescaped_of_same {path : String} (same : location path = windowsLocation path) :
    '\\' ∉ path.toList := by
  intro escaped
  rw [← @List.intercalate_splitOn _ path.toList _ _ '/'] at escaped
  obtain ⟨name, member, inside⟩ := UnixPath.mem_intercalate escaped (by decide)
  have useful : name ∈ location path := by
    refine List.mem_filter.mpr ⟨member, decide_eq_true ⟨?_, ?_⟩⟩
    · rintro rfl
      cases inside
    · rintro rfl
      exact absurd inside (by decide)
  rw [same] at useful
  obtain ⟨component, found, rfl⟩ := List.mem_map.mp useful
  have whole := UnixPath.of_mem_splitOnP (List.mem_filter.mp found).1
  have back : '\\' ∈ component := by
    rw [windowsName] at inside
    split at inside
    · exact inside
    · exact (List.takeWhile_prefix _).subset ((List.rdropWhile_prefix _ _).subset inside)
  exact absurd (whole _ back) (by decide)

/-! ## Staying inside -/

theorem parentDir_not_mem {path : String}
    (forward : ∀ component ∈ path.toList.splitOn '/', component ≠ ['.', '.']) :
    .parentDir ∉ UnixPath.components (asBytes path) := by
  intro member
  rw [UnixPath.parentDir_mem_components, asBytes_eq_encode,
    show UnixPath.SEPARATOR = UInt8.ofNat '/'.toNat from rfl,
    Utf8.splitOn_encode (by decide)] at member
  obtain ⟨component, found, same⟩ := List.mem_map.mp member
  exact forward component found (Utf8.encode_injective same)

theorem relative_asBytes {path : String} (relative : ¬Anchored path) :
    ¬UnixPath.HasRoot (asBytes path) := by
  intro rooted
  apply relative
  left
  rw [asBytes_eq_encode] at rooted
  cases start : path.toList with
  | nil =>
      rw [start] at rooted
      cases rooted
  | cons first rest =>
      rw [start, Utf8.encode_cons, UnixPath.HasRoot,
        List.head?_append_of_ne_nil _ String.utf8EncodeChar_ne_nil] at rooted
      have code := (Utf8.mem_encodeChar (by decide)).mp (List.mem_of_head? rooted)
      rw [List.head?_cons, Char.toNat_inj.mp (code.trans (show _ = '/'.toNat from rfl))]

/-- Windows follows names only, where no component is a drive or leads up. -/
theorem insideWindows_of_names {path : String}
    (safe : ∀ component ∈ pathComponents path, SafeComponent component)
    (names : ∀ component ∈ pathComponents path, WindowsName component)
    (root : Place (List Char)) :
    (root.follow ((windowsParts path).map windowsComponent)).Inside root := by
  have normal {component : List Char} (member : component ∈ windowsParts path) :
      windowsComponent component = .normal (windowsName component) := by
    have inside := (List.mem_filter.mp member).1
    rw [windowsComponent, (names component inside).startsWithDrive_eq, if_neg Bool.false_ne_true,
      if_neg (safe component inside).forward]
  apply Place.inside_follow
  · intro member
    obtain ⟨component, inside, root⟩ := List.mem_map.mp member
    rw [normal inside] at root
    cases root
  · intro member
    obtain ⟨component, inside, parent⟩ := List.mem_map.mp member
    rw [normal inside] at parent
    cases parent

/-- **An accepted path is safe exactly when what the validator leaves unchecked is.** -/
theorem safePath_iff {path : String} (valid : validateExtractionPath path = .ok ()) :
    SafePath path ↔ UncheckedSafe path := by
  constructor
  · intro safe
    have unescaped := unescaped_of_same safe.same
    refine ⟨fun component member => (safe.components component
      (List.dropLast_subset _ member)).toOrdinary, fun component member => ?_, unescaped⟩
    by_cases useful : component ≠ [] ∧ component ≠ ['.']
    · rw [pathComponents_eq_splitOn unescaped] at member
      exact (safe.ordinary component
        (List.mem_filter.mpr ⟨member, decide_eq_true useful⟩)).2.2.2
    · rcases not_and_or.mp useful with empty | current
      · rw [not_not.mp empty]
        exact ⟨by simp, by decide⟩
      · rw [not_not.mp current]
        exact ⟨List.forall_mem_singleton.mpr (by decide), by decide⟩
  · intro unchecked
    have safe := safeComponents valid unchecked.ahead
    have relative := relative_of_valid valid
    refine ⟨relative, safe, ?_, insideWindows_of_names safe unchecked.named, ?_,
      location_eq_windowsLocation unchecked.unescaped safe unchecked.named⟩
    · intro root
      have rootless := relative_asBytes relative
      rw [UnixPath.resolve_push rootless]
      apply Place.inside_follow
      · exact UnixPath.rootDir_mem_components.not.mpr rootless
      · apply parentDir_not_mem
        rw [← pathComponents_eq_splitOn unchecked.unescaped]
        exact fun component member => (safe component member).forward
    · intro name member
      obtain ⟨inside, useful⟩ := List.mem_filter.mp member
      rw [← pathComponents_eq_splitOn unchecked.unescaped] at inside
      exact ⟨(of_decide_eq_true useful).1, (of_decide_eq_true useful).2, safe name inside,
        unchecked.named name inside⟩

/-- A path is refused or safe. -/
def Protected (path : String) : Prop := validateExtractionPath path = .ok () → SafePath path

/-- **When the validator protects**: it refuses the path, or what it leaves unchecked is safe. -/
theorem protected_iff (path : String) :
    Protected path ↔ validateExtractionPath path = .ok () → UncheckedSafe path :=
  forall_congr' safePath_iff

/-- A device name passes as a directory. -/
theorem device_directory_accepted : ¬Protected "CON/x" := by
  intro safe
  have accepted : validateExtractionPath "CON/x" = .ok () := by decide
  have device := ((safe accepted).components "CON".toList (by decide)).unreserved
  exact absurd device (by decide)

/-- A stream of another file passes as a file. -/
example : ¬Protected "notes.txt:hidden" := by
  intro safe
  have accepted : validateExtractionPath "notes.txt:hidden" = .ok () := by decide
  exact absurd (safe accepted).same (by decide)

/-- A drive passes inside a path. -/
example : ¬Protected "x/C:/d/f" := by
  intro safe
  have accepted : validateExtractionPath "x/C:/d/f" = .ok () := by decide
  exact absurd ((safe accepted).insideWindows ⟨true, 0, ["out".toList]⟩) (by decide)

end AetherArch
