import Mathlib.Data.List.DropRight
import Mathlib.Data.List.TakeWhile
import AetherArch.Library.Separator
import AetherArch.Pipeline.ExtractionPaths
import AetherArch.Server.Extract

/-! # Names of uploaded files

An uploaded name keeps the characters of a small set, loses repeated dots and what it starts and
ends with, and is replaced when nothing is left or a device has the name. Such a name is safe on
Unix and on Windows, and so is any number put in front of it.
-/

namespace AetherArch

namespace Server

/-- Windows reserved device names that must not be used as filenames. -/
def WINDOWS_RESERVED : List String :=
  ["CON", "PRN", "AUX", "NUL", "COM0", "COM1", "COM2", "COM3", "COM4", "COM5", "COM6", "COM7",
    "COM8", "COM9", "LPT0", "LPT1", "LPT2", "LPT3", "LPT4", "LPT5", "LPT6", "LPT7", "LPT8", "LPT9"]

/-- Whether a character may stand in a name. -/
def isSafe (c : Char) : Bool := c.isAlphanum || c == '.' || c == '-' || c == '_'

/-- A character that may stand in a name, or an underscore for it. -/
def keepSafe (c : Char) : Char := if isSafe c then c else '_'

/-- Skip every dot behind a dot. -/
def collapseDots : (prevDot : Bool) → List Char → List Char
  | _, [] => []
  | prevDot, c :: text =>
      if c = '.' then
        if prevDot then collapseDots true text else '.' :: collapseDots true text
      else c :: collapseDots false text

def isLeading (c : Char) : Bool := c == '_' || c == '.'

def isTrailing (c : Char) : Bool := c == '.' || c == ' ' || c == '_'

/-- What is left of an uploaded name. -/
def cleanName (filename : List Char) : List Char :=
  ((collapseDots false (filename.map keepSafe)).dropWhile isLeading).rdropWhile isTrailing

/-- The device a name would stand for. -/
def stem (text : List Char) : String :=
  String.ofList ((text.takeWhile (· ≠ '.')).map Char.toUpper)

/-- The name of a file without a usable one. -/
def fallbackName (fallbackIndex : Nat) : String := s!"file_{fallbackIndex}"

/-- Sanitize an uploaded filename. -/
def sanitizeFilename (filename : String) (fallbackIndex : Nat) : String :=
  let result := cleanName filename.toList
  if stem result ∈ WINDOWS_RESERVED then fallbackName fallbackIndex
  else if result = [] then fallbackName fallbackIndex
  else String.ofList result

/-! ## Clean texts -/

/-- A text of safe characters without repeated dots and without dots or underscores at its ends. -/
structure CleanText (text : List Char) : Prop where
  safe : ∀ c ∈ text, isSafe c = true
  apart : ¬['.', '.'] <:+: text
  first : ∀ c ∈ text.head?, isLeading c = false
  last : ∀ c ∈ text.getLast?, isTrailing c = false

/-- A name that is safe to write and to extract on Unix and on Windows. -/
structure SafeName (text : List Char) : Prop extends CleanText text where
  nonempty : text ≠ []
  unreserved : stem text ∉ WINDOWS_RESERVED

/-- What is kept is safe. -/
theorem keepSafe_safe (c : Char) : isSafe (keepSafe c) = true := by
  unfold keepSafe
  split
  · assumption
  · rfl

/-- Collapsing dots adds no character. -/
theorem mem_collapseDots {prevDot : Bool} {text : List Char} {c : Char}
    (member : c ∈ collapseDots prevDot text) : c ∈ text := by
  induction text generalizing prevDot with
  | nil => exact member
  | cons first text recurse =>
      unfold collapseDots at member
      split at member
      · rename_i dot
        split at member
        · exact List.mem_cons_of_mem _ (recurse member)
        · rcases List.mem_cons.mp member with rfl | later
          · exact dot ▸ List.mem_cons_self
          · exact List.mem_cons_of_mem _ (recurse later)
      · rcases List.mem_cons.mp member with rfl | later
        · exact List.mem_cons_self
        · exact List.mem_cons_of_mem _ (recurse later)

/-- Behind a dot no dot comes first. -/
theorem collapseDots_true {text : List Char} {c : Char}
    (member : c ∈ (collapseDots true text).head?) :
    c ≠ '.' := by
  induction text with
  | nil => cases member
  | cons first text recurse =>
      unfold collapseDots at member
      split at member
      · exact recurse member
      · rename_i other
        cases member
        exact other

/-- **No two dots are left in a row.** -/
theorem collapseDots_apart (prevDot : Bool) (text : List Char) :
    ¬['.', '.'] <:+: collapseDots prevDot text := by
  induction text generalizing prevDot with
  | nil =>
      intro inside
      cases List.infix_nil.mp inside
  | cons first text recurse =>
      unfold collapseDots
      split
      · split
        · exact recurse true
        · intro inside
          rcases List.infix_cons_iff.mp inside with starts | later
          · have second := (List.cons_prefix_cons.mp starts).2
            obtain ⟨rest, split⟩ := second
            have head : '.' ∈ (collapseDots true text).head? := by
              rw [← split]
              rfl
            exact collapseDots_true head rfl
          · exact recurse true later
      · rename_i other
        intro inside
        rcases List.infix_cons_iff.mp inside with starts | later
        · exact other (List.cons_prefix_cons.mp starts).1.symm
        · exact recurse false later

/-- A text without repeated dots stays what it is. -/
theorem collapseDots_eq {prevDot : Bool} {text : List Char} (apart : ¬['.', '.'] <:+: text)
    (behind : prevDot = true → text.head? ≠ some '.') : collapseDots prevDot text = text := by
  induction text generalizing prevDot with
  | nil => rfl
  | cons first text recurse =>
      have later : ¬['.', '.'] <:+: text := fun inside => apart (List.infix_cons inside)
      unfold collapseDots
      split
      · rename_i dot
        subst dot
        split
        · rename_i afterDot
          exact absurd rfl (behind afterDot)
        · rw [recurse later]
          intro _ head
          apply apart
          cases text with
          | nil => cases head
          | cons second text =>
              cases head
              exact (List.prefix_append ['.', '.'] text).isInfix
      · rw [recurse later]
        nofun

theorem cleanName_isInfix (filename : List Char) :
    cleanName filename <:+: collapseDots false (filename.map keepSafe) :=
  (List.rdropWhile_prefix _ _).isInfix.trans (List.dropWhile_suffix _).isInfix

/-- **What is left of a name is clean.** -/
theorem cleanName_clean (filename : List Char) : CleanText (cleanName filename) where
  safe c member := by
    have kept := mem_collapseDots ((cleanName_isInfix filename).subset member)
    obtain ⟨original, _, rfl⟩ := List.mem_map.mp kept
    exact keepSafe_safe original
  apart inside := collapseDots_apart _ _ (inside.trans (cleanName_isInfix filename))
  first c member := by
    have dropped := List.head?_dropWhile_not isLeading (collapseDots false (filename.map keepSafe))
    obtain ⟨rest, split⟩ := List.rdropWhile_prefix isTrailing
      ((collapseDots false (filename.map keepSafe)).dropWhile isLeading)
    rw [← split, List.head?_append] at dropped
    unfold cleanName at member
    rw [Option.mem_def.mp member] at dropped
    exact dropped
  last c member := by
    have nonempty : cleanName filename ≠ [] := by
      rintro empty
      rw [empty] at member
      cases member
    rw [List.getLast?_eq_some_getLast nonempty] at member
    cases member
    exact Bool.eq_false_iff.mpr (List.rdropWhile_last_not isTrailing _ nonempty)

/-- **Cleaning leaves a clean text as it is.** -/
theorem cleanName_eq {text : List Char} (clean : CleanText text) : cleanName text = text := by
  have kept : text.map keepSafe = text := by
    refine (List.map_congr_left ?_).trans (List.map_id text)
    intro c member
    exact if_pos (clean.safe c member)
  have collapsed : collapseDots false text = text := collapseDots_eq clean.apart nofun
  have dropped : text.dropWhile isLeading = text := by
    apply List.dropWhile_eq_self_iff.mpr
    intro nonempty
    exact Bool.eq_false_iff.mp (clean.first _ (List.head?_eq_getElem? ▸ List.getElem?_eq_getElem _))
  have trimmed : text.rdropWhile isTrailing = text := by
    apply List.rdropWhile_eq_self_iff.mpr
    intro nonempty
    exact Bool.eq_false_iff.mp (clean.last _ (List.getLast?_eq_some_getLast nonempty))
  unfold cleanName
  rw [kept, collapsed, dropped, trimmed]

/-- A safe name is not changed. -/
theorem sanitizeFilename_eq {name : String} (safe : SafeName name.toList) (fallbackIndex : Nat) :
    sanitizeFilename name fallbackIndex = name := by
  unfold sanitizeFilename
  rw [cleanName_eq safe.toCleanText]
  dsimp only
  rw [if_neg safe.unreserved, if_neg safe.nonempty, String.ofList_toList]

/-! ## Names made of parts -/

/-- A text of letters and digits. -/
def Plain (text : List Char) : Prop := ∀ c ∈ text, c.isAlphanum = true

/-- Every character of a plain text is safe. -/
theorem Plain.isSafe {text : List Char} (plain : Plain text) {c : Char} (member : c ∈ text) :
    isSafe c = true := by
  unfold Server.isSafe
  rw [plain c member]
  rfl

/-- No letter or digit is one of the other characters of a name. -/
theorem Plain.ne {text : List Char} (plain : Plain text) {c other : Char} (member : c ∈ text)
    (mark : other.isAlphanum = false) : c ≠ other := by
  rintro rfl
  exact Bool.false_ne_true (mark.symm.trans (plain c member))

theorem Plain.apart {text : List Char} (plain : Plain text) : ¬['.', '.'] <:+: text := by
  intro inside
  exact plain.ne (inside.subset List.mem_cons_self) (by decide) rfl

/-- A plain text is clean. -/
theorem Plain.clean {text : List Char} (plain : Plain text) : CleanText text where
  safe c member := plain.isSafe member
  apart := plain.apart
  first c member := by
    have inside := List.mem_of_mem_head? member
    unfold isLeading
    rw [beq_eq_false_iff_ne.mpr (plain.ne inside (by decide)),
      beq_eq_false_iff_ne.mpr (plain.ne inside (by decide))]
    rfl
  last c member := by
    have inside := List.mem_of_mem_getLast? member
    unfold isTrailing
    rw [beq_eq_false_iff_ne.mpr (plain.ne inside (by decide)),
      beq_eq_false_iff_ne.mpr (plain.ne inside (by decide)),
      beq_eq_false_iff_ne.mpr (plain.ne inside (by decide))]
    rfl

/-- No device has an underscore in its name. -/
theorem unreserved_of_mem {text : List Char} (member : '_' ∈ text.takeWhile (· ≠ '.')) :
    stem text ∉ WINDOWS_RESERVED := by
  intro reserved
  have absent : WINDOWS_RESERVED.all fun name => !name.toList.contains '_' := by decide
  have lacks := List.all_eq_true.mp absent _ reserved
  rw [stem, String.toList_ofList, Bool.not_eq_true', List.contains_eq_mem,
    decide_eq_false_iff_not] at lacks
  exact lacks (List.mem_map.mpr ⟨'_', member, by decide⟩)

/-- **Letters and digits in front of a clean text**, behind an underscore, make a safe name. -/
theorem safeName_join {front rest : List Char} (plain : Plain front) (some : front ≠ [])
    (clean : CleanText rest) (nonempty : rest ≠ []) : SafeName (front ++ '_' :: rest) where
  safe c member := by
    rcases List.mem_append.mp member with inside | inside
    · exact plain.isSafe inside
    · rcases List.mem_cons.mp inside with rfl | inside
      · rfl
      · exact clean.safe c inside
  apart inside := by
    rcases (Separator.isInfix_around (by decide) front rest).mp inside with before | behind
    · exact plain.apart before
    · exact clean.apart behind
  first c member := by
    apply plain.clean.first
    rwa [List.head?_append_of_ne_nil _ some] at member
  last c member := by
    apply clean.last
    rwa [List.getLast?_append_of_ne_nil _ (List.cons_ne_nil _ _),
      List.getLast?_cons_of_ne_nil nonempty] at member
  nonempty := List.append_ne_nil_of_left_ne_nil some _
  unreserved := by
    apply unreserved_of_mem
    rw [List.takeWhile_append_of_pos, List.takeWhile_cons_of_pos (by decide)]
    · exact List.mem_append_right _ List.mem_cons_self
    · intro c member
      exact decide_eq_true (plain.ne member (by decide))

/-- Decimal digits are plain. -/
theorem plain_toString (n : Nat) : Plain (toString n).toList := by
  intro c member
  rw [Nat.toString_eq_ofList_toDigits, String.toList_ofList] at member
  have digit := Nat.isDigit_of_mem_toDigits (by decide) (by decide) member
  unfold Char.isAlphanum
  rw [digit, Bool.or_true]

theorem toString_ne_nil (n : Nat) : (toString n).toList ≠ [] := by
  rw [Nat.toString_eq_ofList_toDigits, String.toList_ofList]
  exact Nat.toDigits_ne_nil

/-- The fallback name is `file_` and a numeral. -/
theorem toList_fallbackName (fallbackIndex : Nat) :
    (fallbackName fallbackIndex).toList =
      "file".toList ++ '_' :: (toString fallbackIndex).toList := by
  have joined : fallbackName fallbackIndex = "file_" ++ toString fallbackIndex := rfl
  rw [joined, String.toList_append]
  rfl

/-- The fallback name is safe. -/
theorem safeName_fallbackName (fallbackIndex : Nat) :
    SafeName (fallbackName fallbackIndex).toList := by
  rw [toList_fallbackName]
  exact safeName_join (List.all_eq_true.mp (by decide)) (by decide) (plain_toString _).clean
    (toString_ne_nil _)

/-- **Every sanitized name is safe.** -/
theorem safeName_sanitizeFilename (filename : String) (fallbackIndex : Nat) :
    SafeName (sanitizeFilename filename fallbackIndex).toList := by
  unfold sanitizeFilename
  dsimp only
  split
  · exact safeName_fallbackName fallbackIndex
  · rename_i unreserved
    split
    · exact safeName_fallbackName fallbackIndex
    · rename_i nonempty
      rw [String.toList_ofList]
      exact ⟨cleanName_clean filename.toList, nonempty, unreserved⟩

/-! ## The validator -/

/-- Safe characters are ASCII. -/
theorem ascii_of_isSafe {c : Char} (safe : isSafe c = true) : c.toNat < 128 := by
  unfold isSafe Char.isAlphanum Char.isAlpha Char.isUpper Char.isLower Char.isDigit at safe
  simp only [Bool.or_eq_true, Bool.and_eq_true, decide_eq_true_eq, beq_iff_eq, ge_iff_le,
    UInt32.le_iff_toNat_le] at safe
  change c.val.toNat < 128
  rcases safe with (((((upper | lower) | digit) | rfl) | rfl) | rfl)
  · exact upper.2.trans_lt (by decide)
  · exact lower.2.trans_lt (by decide)
  · exact digit.2.trans_lt (by decide)
  · decide
  · decide
  · decide

/-- A numbered device is reserved when all its numbers are listed. -/
theorem reserved_of_numbered {device upper : List Char} {digits : List Char}
    (listed : digits.all fun digit => String.ofList (device ++ [digit]) ∈ WINDOWS_RESERVED)
    (starts : device <+: upper) (long : upper.length = device.length + 1)
    (ends : upper.getLastD '0' ∈ digits) : String.ofList upper ∈ WINDOWS_RESERVED := by
  obtain ⟨rest, rfl⟩ := starts
  rw [List.length_append] at long
  obtain ⟨digit, rfl⟩ := List.length_eq_one_iff.mp (Nat.add_left_cancel long)
  rw [List.getLastD_concat] at ends
  exact decide_eq_true_eq.mp (List.all_eq_true.mp listed digit ends)

/-- The names the validator reserves are on the list of the server. -/
theorem reserved_of_isReservedName {text : List Char} (reserved : isReservedName text = true) :
    String.ofList (text.map Char.toUpper) ∈ WINDOWS_RESERVED := by
  unfold isReservedName at reserved
  dsimp only at reserved
  generalize text.map Char.toUpper = upper at reserved ⊢
  rw [decide_eq_true_eq] at reserved
  rcases reserved with device | ⟨four, starts, ends⟩
  · simp only [List.mem_cons, List.not_mem_nil, or_false] at device
    rcases device with rfl | rfl | rfl | rfl
    iterate 4 decide
  · rcases starts with com | lpt
    · exact reserved_of_numbered (by decide) com four ends
    · exact reserved_of_numbered (by decide) lpt four ends

section

variable {name : String} (safe : SafeName name.toList)

include safe

/-- No byte of a safe name is that of another character. -/
theorem not_mem_asBytes {c : Char} (ascii : c.toNat < 128) (other : isSafe c = false) :
    UInt8.ofNat c.toNat ∉ asBytes name := by
  intro member
  rw [asBytes_eq_encode] at member
  obtain ⟨found, inside, code⟩ :=
    Utf8.mem_encode (fun c inside => ascii_of_isSafe (safe.safe c inside)) member
  rw [Utf8.toNat_ofNat (by omega)] at code
  have same : c = found := Char.toNat_inj.mp code
  exact Bool.false_ne_true ((same ▸ other).symm.trans (safe.safe found inside))

theorem not_mem_of_unsafe {c : Char} (other : isSafe c = false) : c ∉ name.toList :=
  fun inside => Bool.false_ne_true (other.symm.trans (safe.safe c inside))

/-- A safe name is one component. -/
theorem pathComponents_safe : pathComponents name = [name.toList] := by
  apply List.splitOnP_eq_singleton
  intro c inside
  rw [decide_eq_false_iff_not]
  rintro (rfl | rfl)
  · exact not_mem_of_unsafe safe (by decide) inside
  · exact not_mem_of_unsafe safe (by decide) inside

/-- A safe name is a safe path. -/
theorem isUnsafePath_safe : FileEntry.isUnsafePath name = false := by
  have nul : (asBytes name).contains 0 = false := by
    rw [List.contains_eq_mem, decide_eq_false_iff_not]
    exact @not_mem_asBytes name safe (Char.ofNat 0) (by decide) (by decide)
  have slash : name.toList.head? ≠ some '/' := fun head =>
    not_mem_of_unsafe safe (by decide) (List.mem_of_mem_head? head)
  have backslash : name.toList.head? ≠ some '\\' := fun head =>
    not_mem_of_unsafe safe (by decide) (List.mem_of_mem_head? head)
  have drive : (asBytes name)[1]? ≠ some 58 := fun second =>
    @not_mem_asBytes name safe ':' (by decide) (by decide) (List.mem_of_getElem? second)
  have dots : (pathComponents name).contains ['.', '.'] = false := by
    rw [pathComponents_safe safe, List.contains_eq_mem, decide_eq_false_iff_not,
      List.mem_singleton]
    intro same
    exact safe.apart (same ▸ List.infix_rfl)
  unfold FileEntry.isUnsafePath
  rw [nul, dots, beq_eq_false_iff_ne.mpr slash, beq_eq_false_iff_ne.mpr backslash,
    beq_eq_false_iff_ne.mpr drive]
  rfl

/-- **The validator accepts every safe name** that is not too long. -/
theorem validateExtractionPath_safe (short : (asBytes name).length ≤ MAX_PATH_LENGTH) :
    validateExtractionPath name = .ok () := by
  have unreserved : ¬isReservedName (name.toList.takeWhile (· ≠ '.')) = true :=
    fun reserved => safe.unreserved (reserved_of_isReservedName reserved)
  have ending : ¬(name.toList.getLast? = some '.' ∨ name.toList.getLast? = some ' ') := by
    rintro (dot | space)
    · exact Bool.false_ne_true (safe.last '.' dot).symm
    · exact Bool.false_ne_true (safe.last ' ' space).symm
  simp only [validateExtractionPath, pathComponents_safe safe, isUnsafePath_safe safe,
    List.getLastD_cons, List.getLastD_nil, Result.failIf, Bool.false_eq_true, if_false,
    not_lt.mpr short, unreserved, ending]
  rfl

end

end Server

end AetherArch
