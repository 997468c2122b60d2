import Mathlib.Tactic

/-! # Checked computations

A machine step has a value or is a fault: an index past the end, a number outside its word,
a division by zero, or a loop that still runs when its rounds are spent. A run of steps may
also be refused with an error of its own. A run that meets no fault is the plain result it
computes, and that a loop has enough rounds follows from a measure its rounds decrease.
-/

namespace Checked

/-- Why a machine step has no value. -/
inductive Fault where
  | outOfBounds
  | underflow
  | overflow
  | divisionByZero
  | unfinished
  deriving DecidableEq, Repr

/-- Why a run stops before its value. -/
inductive Stop (ε : Type) where
  | error (error : ε)
  | fault (fault : Fault)

/-- A run of machine steps. -/
abbrev Run (ε α : Type) := Except (Stop ε) α

variable {ε α β σ : Type}

/-- A run that stops at a fault. -/
def fault (fault : Fault) : Run ε α := .error (.fault fault)

/-- A run refused with an error. -/
def refuse (error : ε) : Run ε α := .error (.error error)

/-- The run that meets no fault and has this result. -/
def ofResult (result : Except ε α) : Run ε α := result.mapError .error

@[simp] theorem ofResult_ok (value : α) : (ofResult (.ok value) : Run ε α) = .ok value := rfl

@[simp] theorem ofResult_error (error : ε) : (ofResult (.error error) : Run ε α) = refuse error :=
  rfl

/-- Sequencing results is sequencing their runs. -/
theorem ofResult_bind (first : Except ε α) (next : α → Except ε β) :
    (ofResult (first >>= next) : Run ε β) =
      ofResult first >>= fun value => ofResult (next value) := by
  cases first with
  | ok value => rfl
  | error error => rfl

/-- A traversal whose steps meet no fault is the traversal of their results. -/
theorem mapM_eq {run : α → Run ε β} {step : α → Except ε β} {xs : List α}
    (steps : ∀ x ∈ xs, run x = ofResult (step x)) : xs.mapM run = ofResult (xs.mapM step) := by
  induction xs with
  | nil => rfl
  | cons x xs recurse =>
      rw [List.mapM_cons, List.mapM_cons, ofResult_bind, steps x (List.mem_cons_self ..),
        recurse fun y member => steps y (List.mem_cons_of_mem _ member)]
      congr 1
      funext y
      rw [ofResult_bind]
      rfl

/-- Only a value yields a value. -/
theorem ofResult_eq_ok {result : Except ε α} {value : α} :
    ofResult result = .ok value ↔ result = .ok value := by
  cases result with
  | ok found =>
      constructor
      · intro same
        cases same
        rfl
      · intro same
        cases same
        rfl
  | error error => exact iff_of_false nofun nofun

/-- A run with a result meets no fault. -/
theorem ofResult_ne_fault (result : Except ε α) (reason : Fault) :
    ofResult result ≠ fault reason := by
  cases result with
  | ok value => nofun
  | error error => nofun

/-- The refusals of a run under other names; its faults stay what they are. -/
def renameErrors {δ : Type} (rename : ε → δ) : Run ε α → Run δ α
  | .ok value => .ok value
  | .error (.error error) => refuse (rename error)
  | .error (.fault reason) => fault reason

/-- Renaming the errors of a result renames them before or after. -/
theorem renameErrors_ofResult {δ : Type} (rename : ε → δ) (result : Except ε α) :
    renameErrors rename (ofResult result) = ofResult (result.mapError rename) := by
  cases result with
  | ok value => rfl
  | error error => rfl

/-! ## Steps -/

/-- The entry at a position. -/
def index (xs : List α) (i : ℕ) : Run ε α :=
  match xs[i]? with
  | some x => .ok x
  | none => fault .outOfBounds

theorem index_of_lt {xs : List α} {i : ℕ} (inside : i < xs.length) :
    (index xs i : Run ε α) = .ok xs[i] := by
  rw [index, List.getElem?_eq_getElem inside]

/-- The entries from a position up to another. -/
def slice (xs : List α) (start stop : ℕ) : Run ε (List α) :=
  if start ≤ stop ∧ stop ≤ xs.length then .ok ((xs.drop start).take (stop - start))
  else fault .outOfBounds

/-- Bounds in order and inside the list read a slice. -/
theorem slice_of_le {xs : List α} {start stop : ℕ} (ordered : start ≤ stop)
    (inside : stop ≤ xs.length) :
    (slice xs start stop : Run ε (List α)) = .ok ((xs.drop start).take (stop - start)) :=
  if_pos ⟨ordered, inside⟩

/-- The list with another entry at a position. -/
def put (xs : List α) (i : ℕ) (value : α) : Run ε (List α) :=
  if i < xs.length then .ok (xs.set i value) else fault .outOfBounds

theorem put_of_lt {xs : List α} {i : ℕ} {value : α} (inside : i < xs.length) :
    (put xs i value : Run ε (List α)) = .ok (xs.set i value) :=
  if_pos inside

/-- Copy a piece over the entries from a position up to another. -/
def copyFrom (xs : List α) (start stop : ℕ) (piece : List α) : Run ε (List α) :=
  if start ≤ stop ∧ stop ≤ xs.length ∧ piece.length = stop - start then
    .ok (xs.take start ++ (piece ++ xs.drop stop))
  else fault .outOfBounds

/-- A piece as long as its place is copied there. -/
theorem copyFrom_of_le {xs piece : List α} {start stop : ℕ} (ordered : start ≤ stop)
    (inside : stop ≤ xs.length) (fits : piece.length = stop - start) :
    (copyFrom xs start stop piece : Run ε (List α)) =
      .ok (xs.take start ++ (piece ++ xs.drop stop)) :=
  if_pos ⟨ordered, inside, fits⟩

/-- The sum of two numbers of a word. -/
def add (bits first second : ℕ) : Run ε ℕ :=
  if first + second < 2 ^ bits then .ok (first + second) else fault .overflow

theorem add_of_lt {bits first second : ℕ} (fits : first + second < 2 ^ bits) :
    (add bits first second : Run ε ℕ) = .ok (first + second) :=
  if_pos fits

/-- The product of two numbers of a word. -/
def mul (bits first second : ℕ) : Run ε ℕ :=
  if first * second < 2 ^ bits then .ok (first * second) else fault .overflow

theorem mul_of_lt {bits first second : ℕ} (fits : first * second < 2 ^ bits) :
    (mul bits first second : Run ε ℕ) = .ok (first * second) :=
  if_pos fits

/-- The difference of two numbers. -/
def sub (first second : ℕ) : Run ε ℕ :=
  if second ≤ first then .ok (first - second) else fault .underflow

theorem sub_of_le {first second : ℕ} (le : second ≤ first) :
    (sub first second : Run ε ℕ) = .ok (first - second) :=
  if_pos le

/-- The quotient of two numbers. -/
def div (first second : ℕ) : Run ε ℕ :=
  if second = 0 then fault .divisionByZero else .ok (first / second)

theorem div_of_pos {first second : ℕ} (positive : 0 < second) :
    (div first second : Run ε ℕ) = .ok (first / second) :=
  if_neg positive.ne'

/-- The remainder of two numbers. -/
def rem (first second : ℕ) : Run ε ℕ :=
  if second = 0 then fault .divisionByZero else .ok (first % second)

theorem rem_of_pos {first second : ℕ} (positive : 0 < second) :
    (rem first second : Run ε ℕ) = .ok (first % second) :=
  if_neg positive.ne'

/-- A sum that stays in its word is added up without a fault. -/
theorem foldlM_add_of_lt {bits start : ℕ} {xs : List ℕ} (fits : start + xs.sum < 2 ^ bits) :
    (xs.foldlM (add bits) start : Run ε ℕ) = .ok (start + xs.sum) := by
  induction xs generalizing start with
  | nil => rfl
  | cons x xs recurse =>
      rw [List.sum_cons, ← Nat.add_assoc] at fits ⊢
      rw [List.foldlM_cons, add_of_lt (by omega)]
      exact recurse fits

/-! ## Tables -/

/-- An array of a fixed size. -/
structure Table (α : Type) where
  size : ℕ
  entry : ℕ → α

namespace Table

/-- The array that repeats one value. -/
def filled (size : ℕ) (value : α) : Table α where
  size := size
  entry := fun _ => value

/-- The entry at a position. -/
def get (table : Table α) (i : ℕ) : Run ε α :=
  if i < table.size then .ok (table.entry i) else fault .outOfBounds

theorem get_of_lt {table : Table α} {i : ℕ} (inside : i < table.size) :
    (table.get i : Run ε α) = .ok (table.entry i) :=
  if_pos inside

/-- The array with another entry at a position. -/
def set (table : Table α) (i : ℕ) (value : α) : Run ε (Table α) :=
  if i < table.size then .ok { table with entry := Function.update table.entry i value }
  else fault .outOfBounds

/-- An index inside the table is written. -/
theorem set_of_lt {table : Table α} {i : ℕ} {value : α} (inside : i < table.size) :
    (table.set i value : Run ε (Table α)) =
      .ok { table with entry := Function.update table.entry i value } :=
  if_pos inside

/-- Copy the entries from a position up to another to where a third position stands. -/
def copyWithin (table : Table α) (start stop dest : ℕ) : Run ε (Table α) :=
  if start ≤ stop ∧ stop ≤ table.size ∧ dest + (stop - start) ≤ table.size then
    .ok { table with
      entry := fun i =>
        if dest ≤ i ∧ i < dest + (stop - start) then table.entry (start + (i - dest))
        else table.entry i }
  else fault .outOfBounds

/-- A range with room at its destination is moved there. -/
theorem copyWithin_of_le {table : Table α} {start stop dest : ℕ} (ordered : start ≤ stop)
    (inside : stop ≤ table.size) (room : dest + (stop - start) ≤ table.size) :
    (table.copyWithin start stop dest : Run ε (Table α)) =
      .ok { table with
        entry := fun i =>
          if dest ≤ i ∧ i < dest + (stop - start) then table.entry (start + (i - dest))
          else table.entry i } :=
  if_pos ⟨ordered, inside, room⟩

/-- The entries of an array in order. -/
def toList (table : Table α) : List α := (List.range table.size).map table.entry

end Table

/-! ## Loops -/

/-- What a round of a loop leaves: another round to run, or the value of the loop. -/
inductive Round (σ α : Type) where
  | next (state : σ)
  | done (value : α)

/-- Run the rounds of a loop. -/
def loop (body : σ → Run ε (Round σ α)) : (fuel : ℕ) → σ → Run ε α
  | 0, _ => fault .unfinished
  | fuel + 1, state =>
      body state >>= fun round =>
        match round with
        | .next state => loop body fuel state
        | .done value => .ok value

/-- **The rule of loops.** A loop ends when its rounds keep an invariant and decrease a
measure, and what its last round establishes holds of its result. -/
theorem loop_ends {body : σ → Run ε (Round σ α)} {invariant : σ → Prop}
    {post : Except ε α → Prop} (measure : σ → ℕ)
    (rounds : ∀ state, invariant state →
      (∃ later, body state = .ok (.next later) ∧ invariant later ∧ measure later < measure state) ∨
      (∃ value, body state = .ok (.done value) ∧ post (.ok value)) ∨
      ∃ error, body state = refuse error ∧ post (.error error))
    {fuel : ℕ} {state : σ} (holds : invariant state) (enough : measure state < fuel) :
    ∃ result, loop body fuel state = ofResult result ∧ post result := by
  induction fuel generalizing state with
  | zero => exact absurd enough (Nat.not_lt_zero _)
  | succ fuel recurse =>
      rcases rounds state holds with ⟨later, runs, kept, less⟩ | ⟨value, runs, ends⟩ |
        ⟨error, runs, ends⟩
      · obtain ⟨result, ran, ends⟩ := recurse kept (less.trans_le (Nat.le_of_lt_succ enough))
        refine ⟨result, ?_, ends⟩
        rw [loop, runs]
        exact ran
      · refine ⟨.ok value, ?_, ends⟩
        rw [loop, runs]
        rfl
      · refine ⟨.error error, ?_, ends⟩
        rw [loop, runs]
        rfl

/-- A loop computes what each of its rounds preserves. -/
theorem loop_eq {body : σ → Run ε (Round σ α)} {invariant : σ → Prop}
    (spec : σ → Except ε α) (measure : σ → ℕ)
    (rounds : ∀ state, invariant state →
      (∃ later, body state = .ok (.next later) ∧ invariant later ∧
        measure later < measure state ∧ spec later = spec state) ∨
      (∃ value, body state = .ok (.done value) ∧ spec state = .ok value) ∨
      ∃ error, body state = refuse error ∧ spec state = .error error)
    {fuel : ℕ} {state : σ} (holds : invariant state) (enough : measure state < fuel) :
    loop body fuel state = ofResult (spec state) := by
  obtain ⟨result, ran, same⟩ := @loop_ends ε α σ body
    (fun later => invariant later ∧ spec later = spec state) (fun result => spec state = result)
    measure (by
      rintro later ⟨kept, same⟩
      rcases rounds later kept with ⟨next, runs, still, less, equal⟩ | ⟨value, runs, equal⟩ |
        ⟨error, runs, equal⟩
      · exact .inl ⟨next, runs, ⟨still, equal.trans same⟩, less⟩
      · exact .inr (.inl ⟨value, runs, same.symm.trans equal⟩)
      · exact .inr (.inr ⟨error, runs, same.symm.trans equal⟩))
    fuel state ⟨holds, rfl⟩ enough
  rw [ran, same]

/-- Run a body for a number of consecutive positions. -/
def forRange (body : ℕ → σ → Run ε σ) : (first count : ℕ) → σ → Run ε σ
  | _, 0, state => .ok state
  | first, count + 1, state => body first state >>= forRange body (first + 1) count

/-- **The rule of counted loops.** -/
theorem forRange_ends {body : ℕ → σ → Run ε σ} {invariant : ℕ → σ → Prop} {first count : ℕ}
    {state : σ}
    (rounds : ∀ position state, first ≤ position → position < first + count →
      invariant position state →
      ∃ later, body position state = .ok later ∧ invariant (position + 1) later)
    (holds : invariant first state) :
    ∃ later, forRange body first count state = .ok later ∧ invariant (first + count) later := by
  induction count generalizing first state with
  | zero => exact ⟨state, rfl, holds⟩
  | succ count recurse =>
      obtain ⟨between, ran, kept⟩ := rounds first state le_rfl (by omega) holds
      obtain ⟨later, rest, ends⟩ := @recurse (first + 1) between
        (fun position state above below => rounds position state (by omega) (by omega)) kept
      refine ⟨later, ?_, ?_⟩
      · rw [forRange, ran]
        exact rest
      · rw [Nat.add_comm count, ← Nat.add_assoc]
        exact ends

end Checked
