import Mathlib.Data.List.Basic
import Mathlib.Order.MinMax

/-! # Files with a cursor

What a file shows to whoever reads it and moves in it: a read yields some of what follows the
cursor, a seek puts the cursor somewhere inside, and anything else leaves it where it is.
-/

namespace FileCursor

variable {α : Type*}

/-- One use of a file. -/
inductive Event (α : Type*) where
  | read (count : ℕ) (items : List α)
  | sought (target : ℕ)
  | stayed

/-- What a use may show, and where it leaves the cursor. -/
inductive Step (object : List α) : ℕ → Event α → ℕ → Prop where
  | read {position count : ℕ} {items : List α} (piece : items <+: object.drop position)
      (limited : items.length ≤ count)
      (progress : 0 < count → position < object.length → items ≠ []) :
      Step object position (.read count items) (position + items.length)
  | sought {position : ℕ} (target : ℕ) :
      Step object position (.sought target) (min target object.length)
  | stayed {position : ℕ} : Step object position .stayed position

/-- Uses one after the other. -/
inductive Runs (object : List α) : ℕ → List (Event α) → ℕ → Prop where
  | nil {position : ℕ} : Runs object position [] position
  | cons {position middle later : ℕ} {event : Event α} {events : List (Event α)}
      (first : Step object position event middle) (rest : Runs object middle events later) :
      Runs object position (event :: events) later

variable {object : List α} {position later : ℕ} {event : Event α} {events : List (Event α)}

/-- The cursor stays inside the file. -/
theorem Step.inside (step : Step object position event later) (start : position ≤ object.length) :
    later ≤ object.length := by
  cases step with
  | read piece limited progress =>
      have length := piece.length_le
      rw [List.length_drop] at length
      omega
  | sought target => exact min_le_right _ _
  | stayed => exact start

theorem Runs.inside (runs : Runs object position events later) (start : position ≤ object.length) :
    later ≤ object.length := by
  induction runs with
  | nil => exact start
  | cons first rest recurse => exact recurse (first.inside start)

/-! ## Reading to the end -/

/-- All that was read. -/
def yielded : List (Event α) → List α
  | .read _ items :: events => items ++ yielded events
  | _ :: events => yielded events
  | [] => []

/-- A use that asks for some items. -/
def Event.Asks : Event α → Prop
  | .read count _ => 0 < count
  | _ => False

/-- A read that yielded nothing. -/
def Event.Dry : Event α → Prop
  | .read _ items => items = []
  | _ => False

/-- **Reads in a row** yield what lies between where the cursor was and where it is. -/
theorem Runs.yielded_prefix (runs : Runs object position events later)
    (reads : ∀ event ∈ events, event.Asks) :
    yielded events <+: object.drop position ∧ later = position + (yielded events).length := by
  induction runs with
  | nil => exact ⟨List.nil_prefix, rfl⟩
  | @cons position middle later event events first rest recurse =>
      obtain ⟨prefixed, length⟩ := recurse fun event member =>
        reads event (List.mem_cons_of_mem _ member)
      have asks := reads event List.mem_cons_self
      cases first with
      | @read count items piece limited progress =>
          obtain ⟨behind, split⟩ := piece
          have dropped : object.drop (position + items.length) = behind := by
            rw [← List.drop_drop, ← split, List.drop_left]
          rw [dropped] at prefixed
          refine ⟨?_, ?_⟩
          · rw [← split]
            exact (List.prefix_append_right_inj items).mpr prefixed
          · rw [length]
            change _ = position + (items ++ yielded events).length
            rw [List.length_append, Nat.add_assoc]
      | sought target => exact asks.elim
      | stayed => exact asks.elim

/-- Reads make progress, up to the end. -/
theorem Runs.progress (runs : Runs object position events later)
    (reads : ∀ event ∈ events, event.Asks) (start : position ≤ object.length) :
    object.length ≤ later ∨ position + events.length ≤ later := by
  induction runs with
  | nil => exact .inr le_rfl
  | @cons position middle later event events first rest recurse =>
      have asks := reads event List.mem_cons_self
      have onward := recurse (fun event member => reads event (List.mem_cons_of_mem _ member))
        (first.inside start)
      cases first with
      | @read count items piece limited progress =>
          rcases onward with done | onward
          · exact .inl done
          · rcases Nat.lt_or_ge position object.length with before | ended
            · have some := List.length_pos_iff.mpr (progress asks before)
              rw [List.length_cons]
              exact .inr (by omega)
            · exact .inl (by omega)
      | sought target => exact asks.elim
      | stayed => exact asks.elim

/-- A read that asks for items and yields none stands at the end. -/
theorem Runs.ended (runs : Runs object position events later)
    (reads : ∀ event ∈ events, event.Asks) (dry : ∃ event ∈ events, event.Dry) :
    object.length ≤ later := by
  induction runs with
  | nil =>
      obtain ⟨event, member, -⟩ := dry
      cases member
  | @cons position middle later event events first rest recurse =>
      have asks := reads event List.mem_cons_self
      have onward := fun event member => reads event (List.mem_cons_of_mem _ member)
      obtain ⟨found, member, empty⟩ := dry
      rcases List.mem_cons.mp member with rfl | inside
      · have grown := (rest.yielded_prefix onward).2
        cases first with
        | @read count items piece limited progress =>
            have none : items = [] := empty
            have reached : ¬position < object.length := fun before => progress asks before none
            omega
        | sought target => exact asks.elim
        | stayed => exact asks.elim
      · exact recurse onward ⟨found, inside, empty⟩

/-- **Reading to the end** yields all that was left, once a read yields nothing or there were as
many reads as items left. -/
theorem Runs.yielded_eq (runs : Runs object position events later)
    (reads : ∀ event ∈ events, event.Asks) (start : position ≤ object.length)
    (enough : (∃ event ∈ events, event.Dry) ∨ object.length - position ≤ events.length) :
    yielded events = object.drop position := by
  obtain ⟨prefixed, length⟩ := runs.yielded_prefix reads
  have reached : object.length ≤ later := by
    rcases enough with dry | many
    · exact runs.ended reads dry
    · rcases runs.progress reads start with done | onward
      · exact done
      · omega
  apply prefixed.eq_of_length_le
  rw [List.length_drop]
  omega

end FileCursor
