import Mathlib.Data.List.Forall2

/-! # Lists related element by element -/

namespace List.Forall₂

variable {α β γ δ : Type} {relation : α → β → Prop} {firsts : List α} {seconds : List β}

/-- A value of the first list has a related value in the second. -/
theorem exists_right (related : Forall₂ relation firsts seconds) {first : α}
    (member : first ∈ firsts) : ∃ second ∈ seconds, relation first second := by
  induction related with
  | nil => cases member
  | cons here later recurse =>
      rcases mem_cons.mp member with rfl | inside
      · exact ⟨_, mem_cons_self .., here⟩
      · obtain ⟨second, secondMember, found⟩ := recurse inside
        exact ⟨second, mem_cons_of_mem _ secondMember, found⟩

/-- A value of the second list has a related value in the first. -/
theorem exists_left (related : Forall₂ relation firsts seconds) {second : β}
    (member : second ∈ seconds) : ∃ first ∈ firsts, relation first second :=
  related.flip.exists_right member

/-- Related values with one image make one list of images. -/
theorem map_eq_map (related : Forall₂ relation firsts seconds) {left : α → γ} {right : β → γ}
    (same : ∀ first second, relation first second → left first = right second) :
    firsts.map left = seconds.map right := by
  rw [← forall₂_eq_eq_eq, forall₂_map_left_iff, forall₂_map_right_iff]
  exact related.imp same

/-- Related lists related to a third. -/
theorem comp (related : Forall₂ relation firsts seconds) {next : β → δ → Prop} {thirds : List δ}
    (further : Forall₂ next seconds thirds) :
    Forall₂ (fun first third => ∃ second, relation first second ∧ next second third) firsts
      thirds := by
  induction related generalizing thirds with
  | nil =>
      cases further
      exact .nil
  | cons here _ recurse =>
      obtain _ | ⟨there, others⟩ := further
      exact .cons ⟨_, here, there⟩ (recurse others)

end List.Forall₂
