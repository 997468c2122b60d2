import Mathlib.Data.List.Basic

/-! # Words that an automaton labels

Each letter of a word carries a label, and an automaton that reads the word shows that label in
the state it is in before the letter. Such readings compose, so a parser that calls other parsers
is compared with an automaton part by part.
-/

namespace Labelled

variable {σ τ α ρ : Type}

/-- Reading a word leads from one state to another, and shows the label of each letter in front
of it. -/
def Reads (step : σ → α → σ) (view : σ → ρ) : σ → List (ρ × α) → σ → Prop
  | start, [], final => start = final
  | start, (label, letter) :: word, final =>
      view start = label ∧ Reads step view (step start letter) word final

variable {step : σ → α → σ} {view : σ → ρ} {start middle final : σ} {word later : List (ρ × α)}

theorem Reads.nil (start : σ) : Reads step view start [] start := rfl

/-- Reading one letter. -/
theorem Reads.single {label : ρ} (letter : α) (shown : view start = label) :
    Reads step view start [(label, letter)] (step start letter) :=
  ⟨shown, rfl⟩

/-- **Readings compose.** -/
theorem Reads.append (first : Reads step view start word middle)
    (second : Reads step view middle later final) :
    Reads step view start (word ++ later) final := by
  induction word generalizing start with
  | nil =>
      cases first
      exact second
  | cons entry word recurse =>
      obtain ⟨shown, rest⟩ := first
      exact ⟨shown, recurse rest⟩

theorem Reads.cons {label : ρ} {letter : α} (shown : view start = label)
    (rest : Reads step view (step start letter) word final) :
    Reads step view start ((label, letter) :: word) final :=
  ⟨shown, rest⟩

/-- **What is shown in front of each letter** is its label. -/
theorem Reads.view_foldl (reads : Reads step view start word final) {k : Nat}
    (inside : k < word.length) :
    view (((word.map Prod.snd).take k).foldl step start) = (word.get ⟨k, inside⟩).1 := by
  induction word generalizing start k with
  | nil => exact absurd inside (Nat.not_lt_zero _)
  | cons entry word recurse =>
      obtain ⟨shown, rest⟩ := reads
      cases k with
      | zero => exact shown
      | succ k => exact recurse rest (Nat.lt_of_succ_lt_succ inside)

/-- An automaton whose state is part of a larger one runs along with it. -/
theorem foldl_project {project : σ → τ} {small : τ → α → τ}
    (commutes : ∀ state letter, project (step state letter) = small (project state) letter)
    (letters : List α) (start : σ) :
    project (letters.foldl step start) = letters.foldl small (project start) := by
  induction letters generalizing start with
  | nil => rfl
  | cons letter letters recurse =>
      rw [List.foldl_cons, List.foldl_cons, recurse, commutes]

end Labelled
