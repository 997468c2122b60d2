import AetherArch.Cloud.Path
import AetherArch.Library.Checked
import AetherArch.Library.FileCursor

/-! # Reading objects in the cloud

Reads and seeks become range requests, with a buffer that is read ahead. The buffer may hold more
than was asked for, less than is asked for next, or nothing; what a reader shows is what a file
with a cursor shows.
-/

namespace AetherArch

open Checked

namespace Cloud

/-- Maximum number of bytes to buffer in a single prefetch. -/
def DEFAULT_BUFFER_SIZE : Nat := 256 * 1024

/-- Maximum number of bytes to fetch in a single range request. -/
def MAX_FETCH_SIZE : Nat := 16 * 1024 * 1024

/-- The operations of a storage backend that a reader uses. -/
structure StorageBackend where
  /-- The bytes of an object from an offset on, as many as asked for. -/
  readRange : ValidatedPath → (offset length : Nat) → Result Bytes
  /-- The size of an object. -/
  size : ValidatedPath → Result UInt64

/-- A reader over a backend. -/
structure CloudReader where
  backend : StorageBackend
  path : ValidatedPath
  position : Nat
  totalSize : Nat
  buf : Bytes
  /-- Where in the object the buffer starts. -/
  bufStart : Nat

/-- An error of a read or a seek. -/
inductive IoError where
  | invalidInput (message : String)
  | other (message : String)

/-- Where a seek goes. -/
inductive SeekFrom where
  | start (offset : UInt64)
  | fromEnd (offset : Int64)
  | current (offset : Int64)

/-- What an operation returns, the reader it leaves, and the ranges it requested. -/
structure Effect (ε α : Type) where
  result : Except ε α
  reader : CloudReader
  requests : List (Nat × Nat)

namespace CloudReader

def new (backend : StorageBackend) (path : String) : Result CloudReader := do
  let validated ← ValidatedPath.new path
  let totalSize ← backend.size validated
  pure { backend := backend
         path := validated
         position := 0
         totalSize := totalSize.toNat
         buf := []
         bufStart := 0 }

/-- Re-query the remote object size. -/
def refreshSize (reader : CloudReader) : Effect AetherError Unit :=
  match reader.backend.size reader.path with
  | .error error => { result := .error error, reader := reader, requests := [] }
  | .ok totalSize =>
      { result := .ok ()
        reader := { reader with totalSize := totalSize.toNat, buf := [] }
        requests := [] }

/-- Whether the buffer covers some bytes from the position on. -/
def covers (reader : CloudReader) (wanted : Nat) : Run Empty Bool := do
  let bufEnd ← add 64 reader.bufStart reader.buf.length
  if reader.position ≥ reader.bufStart then do
    let wantedEnd ← add 64 reader.position wanted
    .ok (decide (wantedEnd ≤ bufEnd))
  else .ok false

/-- Read into a buffer of some length. -/
def read (reader : CloudReader) (len : Nat) : Run Empty (Effect IoError Bytes) :=
  if reader.position ≥ reader.totalSize then
    .ok { result := .ok [], reader := reader, requests := [] }
  else do
    let remaining ← sub reader.totalSize reader.position
    let wanted := min len remaining
    let covered ← reader.covers wanted
    if covered then do
      let offset ← sub reader.position reader.bufStart
      let stop ← add 64 offset wanted
      let bytes ← slice reader.buf offset stop
      let position ← add 64 reader.position wanted
      .ok { result := .ok bytes, reader := { reader with position := position }, requests := [] }
    else do
      let available ← sub reader.totalSize reader.position
      let fetchLen := min (min (max DEFAULT_BUFFER_SIZE wanted) available) MAX_FETCH_SIZE
      match reader.backend.readRange reader.path reader.position fetchLen with
      | .error error =>
          .ok { result := .error (.other error.display)
                reader := reader
                requests := [(reader.position, fetchLen)] }
      | .ok data => do
          let n := min data.length wanted
          let bytes ← slice data 0 n
          let position ← add 64 reader.position n
          .ok { result := .ok bytes
                reader :=
                  { reader with
                    bufStart := reader.position
                    buf := data
                    position := position }
                requests := [(reader.position, fetchLen)] }

/-- A number as a signed one, if it fits. -/
def tryFrom (value : Nat) : Option Int := if value < 2 ^ 63 then some value else none

/-- A sum of signed numbers, if it fits. -/
def checkedAdd (first second : Int) : Option Int :=
  if -2 ^ 63 ≤ first + second ∧ first + second < 2 ^ 63 then some (first + second) else none

/-- The position a seek asks for. -/
def target (reader : CloudReader) : SeekFrom → Except IoError Int
  | .start offset =>
      match tryFrom offset.toNat with
      | some position => .ok position
      | none => .error (.invalidInput "Seek offset overflow")
  | .fromEnd offset =>
      match (tryFrom reader.totalSize).bind fun size => checkedAdd size offset.toInt with
      | some position => .ok position
      | none => .error (.invalidInput "Seek from end overflow")
  | .current offset =>
      match (tryFrom reader.position).bind fun position => checkedAdd position offset.toInt with
      | some position => .ok position
      | none => .error (.invalidInput "Seek from current overflow")

def seek (reader : CloudReader) (pos : SeekFrom) : Run Empty (Effect IoError Nat) :=
  match reader.target pos with
  | .error error => .ok { result := .error error, reader := reader, requests := [] }
  | .ok newPos =>
      if newPos < 0 then
        .ok { result := .error (.invalidInput "Seek before start of file")
              reader := reader
              requests := [] }
      else do
        let position := min newPos.toNat reader.totalSize
        let bufEnd ← add 64 reader.bufStart reader.buf.length
        let buf := if position < reader.bufStart ∨ position ≥ bufEnd then [] else reader.buf
        .ok { result := .ok position
              reader := { reader with position := position, buf := buf }
              requests := [] }

end CloudReader

/-! ## Operations and what they show -/

/-- A call to a reader. -/
inductive Operation where
  | read (len : Nat)
  | seek (pos : SeekFrom)
  | refreshSize

/-- What a call returned. -/
inductive Answer where
  | read (result : Except IoError Bytes)
  | seek (result : Except IoError Nat)
  | refreshSize (result : Result Unit)

/-- A call with the reader before and after it, what it returned, and what it requested. -/
structure Entry where
  operation : Operation
  before : CloudReader
  answer : Answer
  after : CloudReader
  requests : List (Nat × Nat)

/-- Run one call. -/
def perform (reader : CloudReader) : Operation → Run Empty Entry
  | .read len => do
      let effect ← reader.read len
      .ok ⟨.read len, reader, .read effect.result, effect.reader, effect.requests⟩
  | .seek pos => do
      let effect ← reader.seek pos
      .ok ⟨.seek pos, reader, .seek effect.result, effect.reader, effect.requests⟩
  | .refreshSize =>
      let effect := reader.refreshSize
      .ok ⟨.refreshSize, reader, .refreshSize effect.result, effect.reader, effect.requests⟩

/-- Run calls one after the other. -/
def performAll : CloudReader → List Operation → Run Empty (List Entry × CloudReader)
  | reader, [] => .ok ([], reader)
  | reader, operation :: operations => do
      let entry ← perform reader operation
      let (entries, final) ← performAll entry.after operations
      .ok (entry :: entries, final)

/-! ## What a file shows -/

/-- A backend serves an object: it knows its size, and returns the ranges inside it. -/
structure StorageBackend.Serves (backend : StorageBackend) (path : ValidatedPath)
    (object : Bytes) : Prop where
  fits : object.length < 2 ^ 64
  size_eq : backend.size path = .ok (UInt64.ofNat object.length)
  readRange_eq {offset length : Nat} : offset + length ≤ object.length →
    backend.readRange path offset length = .ok ((object.drop offset).take length)

namespace SeekFrom

/-- What a seek counts from. -/
def base (length position : Nat) : SeekFrom → Nat
  | .start offset => offset.toNat
  | .fromEnd _ => length
  | .current _ => position

/-- The offset a seek asks for. -/
def offset (length position : Nat) : SeekFrom → Int
  | .start offset => offset.toNat
  | .fromEnd offset => length + offset.toInt
  | .current offset => position + offset.toInt

end SeekFrom

/-- A seek puts the position to the offset it asks for, or to the end if that is past it. It fails
when the offset is negative or signed numbers do not hold what it is computed from, and then
leaves everything as it was. -/
def Sought (object : Bytes) (before : CloudReader) (pos : SeekFrom) (result : Except IoError Nat)
    (after : CloudReader) : Prop :=
  let offset := pos.offset object.length before.position
  if pos.base object.length before.position < 2 ^ 63 ∧ 0 ≤ offset ∧ offset < 2 ^ 63 then
    result = .ok (min offset.toNat object.length) ∧
      after.position = min offset.toNat object.length
  else (∃ error, result = .error error) ∧ after = before

namespace Entry

/-- **What a call to a file shows.** -/
def Shows (object : Bytes) (entry : Entry) : Prop :=
  match entry.operation, entry.answer with
  | .read len, .read result => ∃ bytes, result = .ok bytes ∧
      bytes <+: object.drop entry.before.position ∧ bytes.length ≤ len ∧
      (0 < len → entry.before.position < object.length → bytes ≠ []) ∧
      entry.after.position = entry.before.position + bytes.length
  | .seek pos, .seek result => Sought object entry.before pos result entry.after
  | .refreshSize, .refreshSize result =>
      result = .ok () ∧ entry.after.position = entry.before.position
  | _, _ => False

/-- The ranges requested lie in the object and are not too long. -/
def Requests (object : Bytes) (entry : Entry) : Prop :=
  ∀ request ∈ entry.requests,
    request.1 + request.2 ≤ object.length ∧ request.2 ≤ MAX_FETCH_SIZE

/-- A call as a use of a file. -/
def event (entry : Entry) : FileCursor.Event UInt8 :=
  match entry.operation, entry.answer with
  | .read len, .read (.ok bytes) => .read len bytes
  | .seek _, .seek (.ok position) => .sought position
  | _, _ => .stayed

variable {object : Bytes} {entry : Entry}

/-- What a call shows is a step of the file. -/
theorem Shows.step (shows : entry.Shows object) :
    FileCursor.Step object entry.before.position entry.event entry.after.position := by
  obtain ⟨operation, before, answer, after, requests⟩ := entry
  cases operation with
  | read len =>
      cases answer with
      | read result =>
          obtain ⟨bytes, rfl, piece, limited, progress, moved⟩ := shows
          dsimp only at piece progress moved ⊢
          rw [moved]
          exact .read piece limited progress
      | seek result => exact shows.elim
      | refreshSize result => exact shows.elim
  | seek pos =>
      cases answer with
      | read result => exact shows.elim
      | seek result =>
          unfold Shows Sought at shows
          dsimp only at shows ⊢
          split at shows
          · obtain ⟨rfl, moved⟩ := shows
            have step := @FileCursor.Step.sought _ object before.position after.position
            rw [min_eq_left (moved ▸ min_le_right _ _)] at step
            unfold event
            dsimp only
            rw [← moved]
            exact step
          · obtain ⟨⟨error, rfl⟩, rfl⟩ := shows
            exact .stayed
      | refreshSize result => exact shows.elim
  | refreshSize =>
      cases answer with
      | read result => exact shows.elim
      | seek result => exact shows.elim
      | refreshSize result =>
          obtain ⟨rfl, moved⟩ := shows
          dsimp only at moved ⊢
          rw [moved]
          exact .stayed

end Entry

/-! ## The reader keeps to the file -/

/-- The state of a reader of an object: the buffer holds what the object has where the buffer
starts, however little that is. -/
structure CloudReader.Faithful (object : Bytes) (reader : CloudReader) : Prop where
  serves : reader.backend.Serves reader.path object
  total : reader.totalSize = object.length
  inside : reader.position ≤ object.length
  started : reader.bufStart ≤ object.length
  buffered : reader.buf <+: object.drop reader.bufStart

namespace CloudReader

variable {object : Bytes} {reader : CloudReader}

theorem Faithful.bufEnd_le (faithful : reader.Faithful object) :
    reader.bufStart + reader.buf.length ≤ object.length := by
  have length := faithful.buffered.length_le
  have started := faithful.started
  rw [List.length_drop] at length
  omega

/-- A new reader is faithful. -/
theorem Faithful.of_new {backend : StorageBackend} {path : String}
    (created : CloudReader.new backend path = .ok reader)
    (serves : backend.Serves reader.path object) :
    reader.Faithful object ∧ reader.position = 0 := by
  obtain ⟨validated, -, sized⟩ := Result.bind_eq_ok.mp created
  obtain ⟨totalSize, size, built⟩ := Result.bind_eq_ok.mp sized
  cases built
  cases size.symm.trans serves.size_eq
  refine ⟨⟨serves, ?_, Nat.zero_le _, Nat.zero_le _, List.nil_prefix⟩, rfl⟩
  exact UInt64.toNat_ofNat_of_lt' serves.fits

/-- A part of the buffer is the part of the object at its place. -/
theorem Faithful.slice_eq (faithful : reader.Faithful object) {wanted : Nat}
    (above : reader.bufStart ≤ reader.position)
    (below : reader.position + wanted ≤ reader.bufStart + reader.buf.length) :
    (reader.buf.drop (reader.position - reader.bufStart)).take wanted =
      (object.drop reader.position).take wanted := by
  obtain ⟨behind, split⟩ := faithful.buffered
  have place : object.drop reader.position =
      (reader.buf ++ behind).drop (reader.position - reader.bufStart) := by
    rw [split, List.drop_drop, Nat.add_sub_cancel' above]
  rw [place, List.drop_append_of_le_length (by omega), List.take_append_of_le_length]
  rw [List.length_drop]
  omega

theorem covers_eq (faithful : reader.Faithful object) {wanted : Nat}
    (room : reader.position + wanted ≤ object.length) :
    reader.covers wanted = .ok (decide (reader.bufStart ≤ reader.position ∧
      reader.position + wanted ≤ reader.bufStart + reader.buf.length)) := by
  have fits := faithful.serves.fits
  have ends := faithful.bufEnd_le
  unfold covers
  rw [add_of_lt (by omega), Result.ok_bind]
  by_cases above : reader.position ≥ reader.bufStart
  · rw [if_pos above, add_of_lt (by omega), Result.ok_bind]
    refine congrArg Except.ok (decide_eq_decide.mpr ?_)
    exact ⟨fun below => ⟨above, below⟩, fun both => both.2⟩
  · rw [if_neg above]
    exact congrArg Except.ok (decide_eq_false fun both => above both.1).symm

/-- Behind the end there is nothing to read. -/
theorem read_ended (faithful : reader.Faithful object) (len : Nat)
    (ended : object.length ≤ reader.position) :
    reader.read len = .ok { result := .ok [], reader := reader, requests := [] } := by
  unfold read
  rw [faithful.total, if_pos ended]

section

variable {len wanted : Nat} (before : reader.position < object.length)
  (least : min len (object.length - reader.position) = wanted)

include before least

/-- **A read from the buffer** yields the bytes of the object at the position. -/
theorem read_buffered (faithful : reader.Faithful object)
    (above : reader.bufStart ≤ reader.position)
    (below : reader.position + wanted ≤ reader.bufStart + reader.buf.length) :
    reader.read len =
      .ok { result := .ok ((object.drop reader.position).take wanted)
            reader := { reader with position := reader.position + wanted }
            requests := [] } := by
  have fits := faithful.serves.fits
  have ends := faithful.bufEnd_le
  unfold read
  rw [faithful.total, if_neg (not_le.mpr before), sub_of_le before.le, Result.ok_bind]
  dsimp only
  rw [least, covers_eq faithful (by omega), Result.ok_bind, if_pos (decide_eq_true ⟨above, below⟩),
    sub_of_le above, Result.ok_bind, add_of_lt (by omega), Result.ok_bind,
    slice_of_le (Nat.le_add_right _ _) (by omega), Result.ok_bind, add_of_lt (by omega),
    Result.ok_bind, Nat.add_sub_cancel_left, faithful.slice_eq above below, ← faithful.total]

/-- **A read past the buffer** requests bytes inside the object, yields the first of them and
keeps them all. -/
theorem read_fetched (faithful : reader.Faithful object)
    (missed : ¬(reader.bufStart ≤ reader.position ∧
      reader.position + wanted ≤ reader.bufStart + reader.buf.length)) {fetchLen : Nat}
    (request : min (min (max DEFAULT_BUFFER_SIZE wanted) (object.length - reader.position))
      MAX_FETCH_SIZE = fetchLen) :
    reader.read len =
      .ok { result := .ok ((object.drop reader.position).take (min fetchLen wanted))
            reader :=
              { reader with
                bufStart := reader.position
                buf := (object.drop reader.position).take fetchLen
                position := reader.position + min fetchLen wanted }
            requests := [(reader.position, fetchLen)] } := by
  have fits := faithful.serves.fits
  have inside : reader.position + fetchLen ≤ object.length := by omega
  have length : ((object.drop reader.position).take fetchLen).length = fetchLen := by
    rw [List.length_take, List.length_drop]
    omega
  have first : min fetchLen wanted ≤ ((object.drop reader.position).take fetchLen).length := by
    rw [length]
    exact min_le_left _ _
  unfold read
  rw [faithful.total, if_neg (not_le.mpr before), sub_of_le before.le, Result.ok_bind]
  dsimp only
  rw [least, covers_eq faithful (by omega), Result.ok_bind, decide_eq_false missed,
    if_neg Bool.false_ne_true, Result.ok_bind, request, faithful.serves.readRange_eq inside]
  dsimp only
  rw [length, slice_of_le (Nat.zero_le _) first, Result.ok_bind, add_of_lt (by omega),
    Result.ok_bind, List.drop_zero, Nat.sub_zero, List.take_take,
    min_eq_left (min_le_left fetchLen wanted), ← faithful.total]

end

/-- What some bytes from the position on are to a read. -/
theorem piece_shows {position len count : Nat} (le : count ≤ min len (object.length - position))
    (progress : 0 < len → position < object.length → 0 < count) :
    (object.drop position).take count <+: object.drop position ∧
      ((object.drop position).take count).length = count ∧ count ≤ len ∧
      (0 < len → position < object.length → (object.drop position).take count ≠ []) := by
  have length : ((object.drop position).take count).length = count := by
    rw [List.length_take, List.length_drop]
    omega
  refine ⟨List.take_prefix _ _, length, le.trans (min_le_left _ _), ?_⟩
  intro positive before
  apply List.ne_nil_of_length_pos
  rw [length]
  exact progress positive before

/-- **A read** shows some of what follows the position, from the buffer or from a request. -/
theorem read_shows (faithful : reader.Faithful object) (len : Nat) :
    ∃ bytes later requests,
      reader.read len = .ok { result := .ok bytes, reader := later, requests := requests } ∧
        bytes <+: object.drop reader.position ∧ bytes.length ≤ len ∧
        (0 < len → reader.position < object.length → bytes ≠ []) ∧
        later.position = reader.position + bytes.length ∧ later.Faithful object ∧
        ∀ request ∈ requests,
          request.1 + request.2 ≤ object.length ∧ request.2 ≤ MAX_FETCH_SIZE := by
  rcases Nat.lt_or_ge reader.position object.length with before | ended
  · generalize least : min len (object.length - reader.position) = wanted
    by_cases covered : reader.bufStart ≤ reader.position ∧
        reader.position + wanted ≤ reader.bufStart + reader.buf.length
    · obtain ⟨piece, length, limited, progress⟩ := @piece_shows object reader.position len wanted
        least.ge (by omega)
      refine ⟨_, _, _, read_buffered before least faithful covered.1 covered.2, piece,
        length.trans_le limited, progress, congrArg _ length.symm, ?_,
        fun request member => absurd member List.not_mem_nil⟩
      refine ⟨faithful.serves, faithful.total, ?_, faithful.started, faithful.buffered⟩
      dsimp only
      omega
    · have small : 0 < DEFAULT_BUFFER_SIZE ∧ 0 < MAX_FETCH_SIZE := by decide
      generalize request : min (min (max DEFAULT_BUFFER_SIZE wanted)
        (object.length - reader.position)) MAX_FETCH_SIZE = fetchLen
      obtain ⟨piece, length, limited, progress⟩ := @piece_shows object reader.position len
        (min fetchLen wanted) (by omega) (by omega)
      refine ⟨_, _, _, read_fetched before least faithful covered request, piece,
        length.trans_le limited, progress, congrArg _ length.symm, ?_, ?_⟩
      · refine ⟨faithful.serves, faithful.total, ?_, before.le, List.take_prefix _ _⟩
        dsimp only
        omega
      · intro range member
        cases List.mem_singleton.mp member
        dsimp only
        omega
  · exact ⟨[], reader, [], read_ended faithful len ended, List.nil_prefix, Nat.zero_le _,
      fun _ before => absurd before (not_lt.mpr ended), rfl, faithful,
      fun request member => absurd member List.not_mem_nil⟩

/-! ## Seeks -/

/-- What a seek asks for, when it can be computed. -/
theorem target_eq (faithful : reader.Faithful object) (pos : SeekFrom) :
    if pos.base object.length reader.position < 2 ^ 63 ∧
        -2 ^ 63 ≤ pos.offset object.length reader.position ∧
        pos.offset object.length reader.position < 2 ^ 63 then
      reader.target pos = .ok (pos.offset object.length reader.position)
    else ∃ error, reader.target pos = .error error := by
  cases pos with
  | start offset =>
      unfold target tryFrom SeekFrom.base SeekFrom.offset
      dsimp only
      by_cases small : offset.toNat < 2 ^ 63
      · rw [if_pos ⟨small, by omega, by omega⟩, if_pos small]
      · rw [if_neg fun all => small all.1, if_neg small]
        exact ⟨_, rfl⟩
  | fromEnd offset =>
      unfold target tryFrom checkedAdd SeekFrom.base SeekFrom.offset
      rw [faithful.total]
      dsimp only
      by_cases small : object.length < 2 ^ 63
      · rw [if_pos small, Option.bind_some]
        by_cases fits : -2 ^ 63 ≤ (object.length : Int) + offset.toInt ∧
            (object.length : Int) + offset.toInt < 2 ^ 63
        · rw [if_pos ⟨small, fits⟩, if_pos fits]
        · rw [if_neg fun all => fits all.2, if_neg fits]
          exact ⟨_, rfl⟩
      · rw [if_neg fun all => small all.1, if_neg small]
        exact ⟨_, rfl⟩
  | current offset =>
      unfold target tryFrom checkedAdd SeekFrom.base SeekFrom.offset
      dsimp only
      by_cases small : reader.position < 2 ^ 63
      · rw [if_pos small, Option.bind_some]
        by_cases fits : -2 ^ 63 ≤ (reader.position : Int) + offset.toInt ∧
            (reader.position : Int) + offset.toInt < 2 ^ 63
        · rw [if_pos ⟨small, fits⟩, if_pos fits]
        · rw [if_neg fun all => fits all.2, if_neg fits]
          exact ⟨_, rfl⟩
      · rw [if_neg fun all => small all.1, if_neg small]
        exact ⟨_, rfl⟩

/-- **A seek** goes where it asks for, or fails without a trace. -/
theorem seek_sought (faithful : reader.Faithful object) (pos : SeekFrom) :
    ∃ result later,
      reader.seek pos = .ok { result := result, reader := later, requests := [] } ∧
        Sought object reader pos result later ∧ later.Faithful object := by
  have fits := faithful.serves.fits
  have ends := faithful.bufEnd_le
  have aim := target_eq faithful pos
  unfold seek Sought
  dsimp only
  generalize pos.offset object.length reader.position = offset at aim ⊢
  generalize pos.base object.length reader.position = base at aim ⊢
  split at aim
  · rename_i held
    rw [aim]
    dsimp only
    by_cases negative : offset < 0
    · rw [if_pos negative]
      refine ⟨_, _, rfl, ?_, faithful⟩
      rw [if_neg fun all => absurd negative (not_lt.mpr all.2.1)]
      exact ⟨⟨_, rfl⟩, rfl⟩
    · rw [if_neg negative, add_of_lt (by omega), Result.ok_bind, faithful.total]
      refine ⟨_, _, rfl, ?_, ?_⟩
      · rw [if_pos ⟨held.1, not_lt.mp negative, held.2.2⟩]
        exact ⟨rfl, rfl⟩
      · refine ⟨faithful.serves, rfl, min_le_right _ _, faithful.started, ?_⟩
        dsimp only
        split
        · exact List.nil_prefix
        · exact faithful.buffered
  · rename_i lost
    obtain ⟨error, failed⟩ := aim
    rw [failed]
    refine ⟨_, _, rfl, ?_, faithful⟩
    rw [if_neg fun all => lost ⟨all.1, by omega, all.2.2⟩]
    exact ⟨⟨error, rfl⟩, rfl⟩

/-- Asking for the size again forgets the buffer only. -/
theorem refreshSize_eq (faithful : reader.Faithful object) :
    reader.refreshSize =
      { result := .ok (), reader := { reader with buf := [] }, requests := [] } := by
  unfold refreshSize
  rw [faithful.serves.size_eq]
  dsimp only
  rw [UInt64.toNat_ofNat_of_lt' faithful.serves.fits, ← faithful.total]

end CloudReader

open CloudReader

variable {object : Bytes} {reader : CloudReader}

/-- **One call** meets no fault, shows what a file shows, and leaves a faithful reader. -/
theorem perform_shows (faithful : reader.Faithful object) (operation : Operation) :
    ∃ entry, perform reader operation = .ok entry ∧ entry.operation = operation ∧
      entry.before = reader ∧ entry.Shows object ∧ entry.Requests object ∧
      entry.after.Faithful object := by
  cases operation with
  | read len =>
      obtain ⟨bytes, later, requests, ran, piece, limited, progress, moved, kept, ranges⟩ :=
        read_shows faithful len
      unfold perform
      dsimp only
      rw [ran, Result.ok_bind]
      exact ⟨_, rfl, rfl, rfl, ⟨bytes, rfl, piece, limited, progress, moved⟩, ranges, kept⟩
  | seek pos =>
      obtain ⟨result, later, ran, sought, kept⟩ := seek_sought faithful pos
      unfold perform
      dsimp only
      rw [ran, Result.ok_bind]
      exact ⟨_, rfl, rfl, rfl, sought, fun request member => absurd member List.not_mem_nil, kept⟩
  | refreshSize =>
      unfold perform
      rw [refreshSize_eq faithful]
      refine ⟨_, rfl, rfl, rfl, ⟨rfl, rfl⟩,
        fun request member => absurd member List.not_mem_nil, ?_⟩
      exact ⟨faithful.serves, faithful.total, faithful.inside, faithful.started, List.nil_prefix⟩

/-- **A history of calls** is a run of the file. -/
theorem performAll_shows (faithful : reader.Faithful object) (operations : List Operation) :
    ∃ entries final, performAll reader operations = .ok (entries, final) ∧
      entries.map Entry.operation = operations ∧
      (∀ entry ∈ entries, entry.Shows object ∧ entry.Requests object) ∧
      FileCursor.Runs object reader.position (entries.map Entry.event) final.position ∧
      final.Faithful object := by
  induction operations generalizing reader with
  | nil =>
      exact ⟨[], reader, rfl, rfl,
        fun entry member => absurd member List.not_mem_nil, .nil, faithful⟩
  | cons operation operations recurse =>
      obtain ⟨entry, ran, called, before, shows, requests, kept⟩ := perform_shows faithful operation
      obtain ⟨entries, final, rest, calls, all, runs, ends⟩ := recurse kept
      unfold performAll
      rw [ran, Result.ok_bind, rest, Result.ok_bind]
      refine ⟨_, _, rfl, List.cons_eq_cons.mpr ⟨called, calls⟩, ?_, ?_, ends⟩
      · intro other member
        rcases List.mem_cons.mp member with rfl | later
        · exact ⟨shows, requests⟩
        · exact all other later
      · exact .cons (before ▸ shows.step) runs

/-- The use a read is asks for as much as the read. -/
theorem asks_of_shows {entry : Entry} (shows : entry.Shows object) {len : Nat}
    (reads : entry.operation = .read len) (positive : 0 < len) : entry.event.Asks := by
  obtain ⟨operation, before, answer, after, requests⟩ := entry
  dsimp only at reads
  subst reads
  cases answer with
  | read result =>
      obtain ⟨bytes, rfl, -⟩ := shows
      exact positive
  | seek result => exact shows.elim
  | refreshSize result => exact shows.elim

/-- **A reader simulates a file.** Over a backend that serves an object, no history of calls meets
a fault. Every call shows what a file shows, requests nothing outside the object and nothing too
long. After any history, reads that ask for something yield what remains of the object, once one
of them yields nothing or there are as many as bytes remain. -/
theorem cloudReader_simulates {backend : StorageBackend} {path : String}
    (created : CloudReader.new backend path = .ok reader)
    (serves : backend.Serves reader.path object) (operations : List Operation) :
    ∃ entries final, performAll reader operations = .ok (entries, final) ∧
      entries.map Entry.operation = operations ∧
      (∀ entry ∈ entries, entry.Shows object ∧ entry.Requests object) ∧
      FileCursor.Runs object 0 (entries.map Entry.event) final.position ∧
      ∀ sizes : List Nat, (∀ size ∈ sizes, 0 < size) →
        ∃ reads last, performAll final (sizes.map .read) = .ok (reads, last) ∧
          (∀ entry ∈ reads, entry.Shows object ∧ entry.Requests object) ∧
          ((∃ entry ∈ reads, entry.event.Dry) ∨
              object.length - final.position ≤ sizes.length →
            FileCursor.yielded (reads.map Entry.event) = object.drop final.position) := by
  obtain ⟨faithful, start⟩ := Faithful.of_new created serves
  obtain ⟨entries, final, ran, calls, all, runs, kept⟩ := performAll_shows faithful operations
  refine ⟨entries, final, ran, calls, all, start ▸ runs, fun sizes positive => ?_⟩
  obtain ⟨reads, last, read, asked, shown, yields, -⟩ :=
    performAll_shows kept (sizes.map Operation.read)
  refine ⟨reads, last, read, shown, fun enough => ?_⟩
  have count : reads.length = sizes.length := by
    have lengths := congrArg List.length asked
    rwa [List.length_map, List.length_map] at lengths
  apply yields.yielded_eq _ kept.inside
  · rcases enough with ⟨entry, member, dry⟩ | many
    · exact .inl ⟨entry.event, List.mem_map_of_mem member, dry⟩
    · rw [List.length_map, count]
      exact .inr many
  · intro event member
    obtain ⟨entry, inside, rfl⟩ := List.mem_map.mp member
    have operation : entry.operation ∈ sizes.map Operation.read :=
      asked ▸ List.mem_map_of_mem inside
    obtain ⟨size, sized, same⟩ := List.mem_map.mp operation
    exact asks_of_shows (shown entry inside).1 same.symm (positive size sized)

/-! ## A backend in memory -/

theorem validatedPath_new {path : String} (valid : validateCloudPath path = .ok ()) :
    ValidatedPath.new path = .ok ⟨path, valid⟩ := by
  unfold ValidatedPath.new
  split
  · rfl
  · rename_i failed
    cases failed.symm.trans valid

/-- A backend that holds one object. -/
def mockBackend (data : Bytes) : StorageBackend where
  readRange _ offset length :=
    if offset > data.length then .error (.cloudStorage "offset past end of object")
    else .ok ((data.drop offset).take length)
  size _ := .ok (UInt64.ofNat data.length)

theorem mockBackend_serves {data : Bytes} (fits : data.length < 2 ^ 64) (path : ValidatedPath) :
    (mockBackend data).Serves path data where
  fits := fits
  size_eq := rfl
  readRange_eq inside := if_neg (not_lt.mpr ((Nat.le_add_right _ _).trans inside))

/-- After a read, a seek and a query for the size, two reads yield the rest of three bytes. -/
theorem cloudReader_simulates_mock :
    ∃ reader entries final reads last,
      CloudReader.new (mockBackend [7, 8, 9]) "test/path.aet" = .ok reader ∧
        performAll reader [.read 1, .seek (.fromEnd (-2)), .refreshSize] = .ok (entries, final) ∧
        performAll final [.read 1, .read 1, .read 5] = .ok (reads, last) ∧
        FileCursor.yielded (reads.map Entry.event) = [7, 8, 9].drop final.position := by
  have valid : validateCloudPath "test/path.aet" = .ok () := by decide +kernel
  have created : CloudReader.new (mockBackend [7, 8, 9]) "test/path.aet" =
      .ok ⟨mockBackend [7, 8, 9], ⟨"test/path.aet", valid⟩, 0, 3, [], 0⟩ := by
    unfold CloudReader.new
    rw [validatedPath_new valid]
    rfl
  obtain ⟨entries, final, ran, -, -, -, later⟩ := cloudReader_simulates created
    (mockBackend_serves (by decide) _) [.read 1, .seek (.fromEnd (-2)), .refreshSize]
  obtain ⟨reads, last, read, -, rest⟩ := later [1, 1, 5] (by decide)
  exact ⟨_, entries, final, reads, last, created, ran, read, rest (.inr (Nat.sub_le _ _))⟩

end Cloud

end AetherArch
