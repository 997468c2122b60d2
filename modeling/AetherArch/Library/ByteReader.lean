import Mathlib.Tactic
import AetherArch.Library.Numeral

/-! # Readers of byte streams

A reader takes bytes off the front of a stream. `Reads` says that a reader undoes a
particular encoding in front of any stream, and composes along sequencing.
-/

/-- A sequence of bytes of a fixed length. -/
abbrev FixedBytes (length : ℕ) := { bytes : List UInt8 // bytes.length = length }

theorem FixedBytes.length_zeros : (List.replicate 32 (0 : UInt8)).length = 32 := rfl

/-- A reader takes bytes off the front of a stream, or fails. -/
abbrev ByteReader (ε α : Type) := StateT (List UInt8) (Except ε) α

namespace ByteReader

variable {ε α β : Type}

/-- A sequence of two readers succeeds when both do. -/
theorem bind_eq_ok {first : ByteReader ε α} {next : α → ByteReader ε β} {input : List UInt8}
    {result : β × List UInt8} :
    (first >>= next) input = .ok result ↔
      ∃ value rest, first input = .ok (value, rest) ∧ next value rest = .ok result := by
  change (first input >>= fun pair => next pair.1 pair.2) = .ok result ↔ _
  cases first input with
  | error error =>
      constructor
      · intro success
        cases success
      · rintro ⟨_, _, success, -⟩
        cases success
  | ok pair =>
      constructor
      · intro success
        exact ⟨pair.1, pair.2, rfl, success⟩
      · rintro ⟨value, rest, same, success⟩
        cases same
        exact success

/-- What follows may differ where the first reader fails. -/
theorem bind_congr {first : ByteReader ε α} {left right : α → ByteReader ε β}
    {input : List UInt8}
    (same : ∀ value rest, first input = .ok (value, rest) → left value rest = right value rest) :
    (first >>= left) input = (first >>= right) input := by
  change (first input >>= fun pair => left pair.1 pair.2) =
    (first input >>= fun pair => right pair.1 pair.2)
  cases read : first input with
  | error error => rfl
  | ok pair => exact same pair.1 pair.2 read

/-- A value is read from no input. -/
theorem pure_eq_ok {value : α} {input : List UInt8} {result : α × List UInt8} :
    (pure value : ByteReader ε α) input = .ok result ↔ (value, input) = result := by
  constructor
  · intro success
    cases success
    rfl
  · rintro rfl
    rfl

/-- A result that reads nothing. -/
def lift (result : Except ε α) : ByteReader ε α := fun input => result.map (·, input)

/-- Neither is a lifted result. -/
theorem lift_eq_ok {result : Except ε α} {input : List UInt8} {value : α} {rest : List UInt8} :
    lift result input = .ok (value, rest) ↔ result = .ok value ∧ input = rest := by
  cases result with
  | error error =>
      constructor
      · intro success
        cases success
      · rintro ⟨success, -⟩
        cases success
  | ok found =>
      constructor
      · intro success
        cases success
        exact ⟨rfl, rfl⟩
      · rintro ⟨same, rfl⟩
        cases same
        rfl

theorem bind_apply (first : ByteReader ε α) (next : α → ByteReader ε β) (input : List UInt8) :
    (first >>= next) input = first input >>= fun pair => next pair.1 pair.2 := rfl

theorem pure_apply (value : α) (input : List UInt8) :
    (pure value : ByteReader ε α) input = .ok (value, input) := rfl

/-- A lifted result leaves the input as it is. -/
theorem lift_apply (result : Except ε α) (input : List UInt8) :
    lift result input = result >>= fun value => .ok (value, input) := by
  cases result with
  | error error => rfl
  | ok value => rfl

/-- Read an exact number of bytes. -/
def readExact (eof : ε) (count : ℕ) : ByteReader ε (FixedBytes count) := fun input =>
  if inside : count ≤ input.length then
    .ok (⟨input.take count, List.length_take_of_le inside⟩, input.drop count)
  else .error eof

/-- Read a little-endian number of a byte width. -/
def readLittleEndian (eof : ε) (width : ℕ) : ByteReader ε ℕ := do
  let bytes ← readExact eof width
  pure (Numeral.littleEndian bytes.1)

/-- Read a sequence of a given length. -/
def readMany (reader : ByteReader ε α) : (count : ℕ) → ByteReader ε (List α)
  | 0 => pure []
  | count + 1 => do
      let value ← reader
      let values ← readMany reader count
      pure (value :: values)

/-! ## Undoing an encoding -/

/-- In front of any stream, the reader takes exactly these bytes and gives this value. -/
def Reads (reader : ByteReader ε α) (bytes : List UInt8) (value : α) : Prop :=
  ∀ rest, reader (bytes ++ rest) = .ok (value, rest)

theorem reads_pure (value : α) : Reads (pure value : ByteReader ε α) [] value := fun _ => rfl

/-- The value of a lifted result is read from the empty encoding. -/
theorem reads_lift {result : Except ε α} {value : α} (success : result = .ok value) :
    Reads (lift result) [] value := by
  intro rest
  rw [success]
  rfl

/-- Encodings in sequence are undone in sequence. -/
theorem Reads.bind {first : ByteReader ε α} {next : α → ByteReader ε β} {bytes more : List UInt8}
    {value : α} {result : β} (reads : Reads first bytes value)
    (readsNext : Reads (next value) more result) :
    Reads (first >>= next) (bytes ++ more) result := by
  intro rest
  rw [List.append_assoc, bind_eq_ok]
  exact ⟨value, more ++ rest, reads _, readsNext rest⟩

/-- A last step that reads nothing. -/
theorem Reads.bind_nil {first : ByteReader ε α} {next : α → ByteReader ε β} {bytes : List UInt8}
    {value : α} {result : β} (reads : Reads first bytes value)
    (readsNext : Reads (next value) [] result) : Reads (first >>= next) bytes result := by
  have both := reads.bind readsNext
  rwa [List.append_nil] at both

/-- A first step that reads nothing. -/
theorem Reads.nil_bind {first : ByteReader ε α} {next : α → ByteReader ε β} {bytes : List UInt8}
    {value : α} {result : β} (reads : Reads first [] value)
    (readsNext : Reads (next value) bytes result) : Reads (first >>= next) bytes result :=
  reads.bind readsNext

/-- As many bytes as asked for are read back. -/
theorem reads_readExact (eof : ε) {count : ℕ} (bytes : FixedBytes count) :
    Reads (readExact eof count) bytes.1 bytes := by
  intro rest
  obtain ⟨bytes, rfl⟩ := bytes
  rw [readExact, dif_pos (by rw [List.length_append]; exact Nat.le_add_right _ _)]
  simp only [List.take_left, List.drop_left]

/-- A number that fits its width is read back. -/
theorem reads_readLittleEndian (eof : ε) {width value : ℕ} (fits : value < 256 ^ width) :
    Reads (readLittleEndian eof width) (Numeral.toLittleEndian width value) value := by
  have reads := reads_readExact eof
    ⟨Numeral.toLittleEndian width value, Numeral.length_toLittleEndian width value⟩
  refine reads.bind_nil ?_
  intro rest
  rw [pure_eq_ok, Numeral.littleEndian_toLittleEndian, Nat.mod_eq_of_lt fits]
  rfl

/-- Values that are read back one by one are read back in a row. -/
theorem reads_readMany {reader : ByteReader ε α} {encode : α → List UInt8} {values : List α}
    (reads : ∀ value ∈ values, Reads reader (encode value) value) :
    Reads (readMany reader values.length) (values.flatMap encode) values := by
  induction values with
  | nil => exact reads_pure []
  | cons value values recurse =>
      refine (reads value (List.mem_cons_self ..)).bind ?_
      exact (recurse fun other member => reads other (List.mem_cons_of_mem _ member)).bind_nil
        (reads_pure _)

/-! ## What a reader accepts -/

/-- Reading bytes cuts the stream after them. -/
theorem readExact_eq_ok {eof : ε} {count : ℕ} {input : List UInt8} {bytes : FixedBytes count}
    {rest : List UInt8} :
    readExact eof count input = .ok (bytes, rest) ↔
      count ≤ input.length ∧ bytes.1 = input.take count ∧ rest = input.drop count := by
  rw [readExact]
  split
  · rename_i inside
    constructor
    · rintro ⟨⟩
      exact ⟨inside, rfl, rfl⟩
    · rintro ⟨-, same, rfl⟩
      rw [show bytes = ⟨input.take count, List.length_take_of_le inside⟩ from Subtype.ext same]
  · rename_i outside
    constructor
    · rintro ⟨⟩
    · rintro ⟨inside, -⟩
      exact absurd inside outside

/-- Exact reading takes the bytes in front. -/
theorem readExact_eq_ok_append {eof : ε} {count : ℕ} {input : List UInt8}
    {bytes : FixedBytes count} {rest : List UInt8} :
    readExact eof count input = .ok (bytes, rest) ↔ input = bytes.1 ++ rest := by
  constructor
  · intro success
    obtain ⟨-, same, rfl⟩ := readExact_eq_ok.mp success
    rw [same, List.take_append_drop]
  · rintro rfl
    exact reads_readExact eof bytes rest

/-- A number is read from the bytes in front. -/
theorem readLittleEndian_eq_ok {eof : ε} {width value : ℕ} {input rest : List UInt8} :
    readLittleEndian eof width input = .ok (value, rest) ↔
      width ≤ input.length ∧ value = Numeral.littleEndian (input.take width) ∧
        rest = input.drop width := by
  rw [readLittleEndian, bind_eq_ok]
  constructor
  · rintro ⟨bytes, between, success, same⟩
    obtain ⟨inside, taken, rfl⟩ := readExact_eq_ok.mp success
    cases same
    exact ⟨inside, by rw [taken], rfl⟩
  · rintro ⟨inside, rfl, rfl⟩
    exact ⟨⟨input.take width, List.length_take_of_le inside⟩, input.drop width,
      readExact_eq_ok.mpr ⟨inside, rfl, rfl⟩, rfl⟩

/-- A number is read from no bytes but those it is written to. -/
theorem readLittleEndian_eq_ok_append {eof : ε} {width value : ℕ} {input rest : List UInt8} :
    readLittleEndian eof width input = .ok (value, rest) ↔
      value < 256 ^ width ∧ input = Numeral.toLittleEndian width value ++ rest := by
  constructor
  · intro success
    obtain ⟨inside, rfl, rfl⟩ := readLittleEndian_eq_ok.mp success
    have length : (input.take width).length = width := List.length_take_of_le inside
    have below := Numeral.littleEndian_lt (input.take width)
    have bytes := Numeral.toLittleEndian_littleEndian (input.take width)
    rw [length] at below bytes
    exact ⟨below, by rw [bytes, List.take_append_drop]⟩
  · rintro ⟨fits, rfl⟩
    exact reads_readLittleEndian eof fits rest

end ByteReader

/-! ## Writing in place -/

/-- Overwrite the bytes from a position on. -/
def overwrite (bytes : List UInt8) (position : ℕ) (patch : List UInt8) : List UInt8 :=
  bytes.take position ++ patch ++ bytes.drop (position + patch.length)

/-- A patch of the size of what it replaces leaves its neighbours alone. -/
theorem overwrite_append (before old after patch : List UInt8) (same : patch.length = old.length) :
    overwrite (before ++ old ++ after) before.length patch = before ++ patch ++ after := by
  have total : before.length + patch.length = (before ++ old).length := by
    rw [List.length_append, same]
  rw [overwrite, total, List.drop_left, List.append_assoc before old after, List.take_left]
