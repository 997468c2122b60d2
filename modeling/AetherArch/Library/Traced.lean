/-! # Computations that leave a trace

A fallible computation notes what can be observed while it runs. The notes do not change its
outcome, and a property of all notes composes along sequencing.
-/

/-- A fallible computation with the notes it leaves. -/
structure Traced (ν ε α : Type) where
  notes : List ν
  outcome : Except ε α

namespace Traced

variable {ν ε α β : Type}

instance : Monad (Traced ν ε) where
  pure value := { notes := [], outcome := .ok value }
  bind first next :=
    match first.outcome with
    | .error error => { notes := first.notes, outcome := .error error }
    | .ok value =>
        { notes := first.notes ++ (next value).notes, outcome := (next value).outcome }

/-- Leave one note. -/
def note (observation : ν) : Traced ν ε Unit where
  notes := [observation]
  outcome := .ok ()

/-- Leave several notes. -/
def noteAll (observations : List ν) : Traced ν ε Unit where
  notes := observations
  outcome := .ok ()

/-- A computation that leaves no note. -/
def lift (result : Except ε α) : Traced ν ε α where
  notes := []
  outcome := result

/-- A computation whose failure is a value. -/
def attempt (first : Traced ν ε α) : Traced ν ε (Except ε α) where
  notes := first.notes
  outcome := .ok first.outcome

/-! ## Outcomes -/

@[simp] theorem outcome_pure (value : α) : (pure value : Traced ν ε α).outcome = .ok value := rfl

@[simp] theorem outcome_bind (first : Traced ν ε α) (next : α → Traced ν ε β) :
    (first >>= next).outcome = first.outcome >>= fun value => (next value).outcome := by
  change (match first.outcome with
    | .error error => { notes := first.notes, outcome := .error error }
    | .ok value => { notes := first.notes ++ (next value).notes
                     outcome := (next value).outcome } : Traced ν ε β).outcome = _
  cases first.outcome with
  | error error => rfl
  | ok value => rfl

@[simp] theorem outcome_note (observation : ν) :
    (note observation : Traced ν ε Unit).outcome = .ok () := rfl

@[simp] theorem outcome_noteAll (observations : List ν) :
    (noteAll observations : Traced ν ε Unit).outcome = .ok () := rfl

@[simp] theorem outcome_lift (result : Except ε α) :
    (lift result : Traced ν ε α).outcome = result := rfl

@[simp] theorem outcome_attempt (first : Traced ν ε α) :
    first.attempt.outcome = .ok first.outcome := rfl

/-- The notes of a sequence whose first part succeeds. -/
theorem notes_bind {first : Traced ν ε α} {value : α} (success : first.outcome = .ok value)
    (next : α → Traced ν ε β) :
    (first >>= next).notes = first.notes ++ (next value).notes := by
  change (match first.outcome with
    | .error error => { notes := first.notes, outcome := .error error }
    | .ok value => { notes := first.notes ++ (next value).notes
                     outcome := (next value).outcome } : Traced ν ε β).notes = _
  rw [success]

/-- A lifted value leaves no note. -/
theorem notes_lift_bind {result : Except ε α} {value : α} (success : result = .ok value)
    (next : α → Traced ν ε β) : (lift result >>= next).notes = (next value).notes := by
  subst success
  exact List.nil_append _

/-! ## What all notes satisfy -/

/-- A property of every note. -/
def Always (first : Traced ν ε α) (property : ν → Prop) : Prop :=
  ∀ observation ∈ first.notes, property observation

variable {property : ν → Prop}

theorem always_pure (value : α) : (pure value : Traced ν ε α).Always property :=
  fun _ member => absurd member List.not_mem_nil

theorem always_lift (result : Except ε α) : (lift result : Traced ν ε α).Always property :=
  fun _ member => absurd member List.not_mem_nil

/-- One note has the property of its observation. -/
theorem always_note {observation : ν} (holds : property observation) :
    (note observation : Traced ν ε Unit).Always property := by
  intro found member
  rw [List.mem_singleton.mp member]
  exact holds

theorem always_noteAll {observations : List ν}
    (holds : ∀ observation ∈ observations, property observation) :
    (noteAll observations : Traced ν ε Unit).Always property := holds

theorem Always.attempt {first : Traced ν ε α} (always : first.Always property) :
    first.attempt.Always property := always

/-- **Notes in sequence**: the second part matters only where the first one succeeds. -/
theorem Always.bind {first : Traced ν ε α} {next : α → Traced ν ε β}
    (always : first.Always property)
    (later : ∀ value, first.outcome = .ok value → (next value).Always property) :
    (first >>= next).Always property := by
  intro observation member
  change observation ∈ (match first.outcome with
    | .error error => { notes := first.notes, outcome := .error error }
    | .ok value => { notes := first.notes ++ (next value).notes
                     outcome := (next value).outcome } : Traced ν ε β).notes at member
  cases outcome : first.outcome with
  | error error =>
      rw [outcome] at member
      exact always observation member
  | ok value =>
      rw [outcome] at member
      rcases List.mem_append.mp member with here | there
      · exact always observation here
      · exact later value outcome observation there

/-- A note before a run adds its observation. -/
theorem always_note_bind {observation : ν} {next : Unit → Traced ν ε β}
    (holds : property observation) (later : (next ()).Always property) :
    (note observation >>= next).Always property :=
  (always_note holds).bind fun _ _ => later

/-- A result before a run adds nothing. -/
theorem always_lift_bind {result : Except ε α} {next : α → Traced ν ε β}
    (later : ∀ value, result = .ok value → (next value).Always property) :
    (lift result >>= next).Always property :=
  (always_lift result).bind later

/-- A property that follows holds as well. -/
theorem Always.mono {first : Traced ν ε α} {weaker : ν → Prop} (always : first.Always property)
    (implies : ∀ observation, property observation → weaker observation) :
    first.Always weaker :=
  fun observation member => implies observation (always observation member)

end Traced
