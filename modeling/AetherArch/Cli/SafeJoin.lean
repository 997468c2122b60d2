import AetherArch.Fields
import AetherArch.Library.PathComponents

/-! # Joining entries to the output directory

The command line tool normalizes the joined path and the output directory, each with a loop of its
own, and compares what they come to. The first loop gives up on a `..` that has no name before it,
so an output directory that leads up is refused with every entry.
-/

namespace AetherArch

open UnixPath

namespace Cli

/-- Why a join is refused: "Path traversal detected: …". -/
inductive SafeJoinError where
  /-- "… contains an absolute path component". -/
  | absoluteComponent (filePath : String)
  /-- "… escapes output directory". -/
  | escapes (filePath : String)
  /-- "… escapes output directory …", which it names. -/
  | escapesDirectory (filePath : String) (outputDir : Path)
  deriving DecidableEq

/-- Normalize a joined path, without requiring it to exist. -/
def normalizeJoined (filePath : String) :
    List (Component (List UInt8)) → Path → Except SafeJoinError Path
  | [], normalized => .ok normalized
  | component :: rest, normalized =>
      match component with
      | .parentDir =>
          let (popped, shorter) := pop normalized
          if popped then normalizeJoined filePath rest shorter else .error (.escapes filePath)
      | .normal name => normalizeJoined filePath rest (push normalized name)
      | .rootDir => normalizeJoined filePath rest (push normalized [SEPARATOR])
      | .curDir => normalizeJoined filePath rest normalized

/-- Normalize the output directory for comparison. -/
def normalizeOutput : List (Component (List UInt8)) → Path → Path
  | [], normOutput => normOutput
  | component :: rest, normOutput =>
      match component with
      | .parentDir => normalizeOutput rest (pop normOutput).2
      | .normal name => normalizeOutput rest (push normOutput name)
      | .rootDir => normalizeOutput rest (push normOutput [SEPARATOR])
      | .curDir => normalizeOutput rest normOutput

/-- Join an entry to the output directory unless it escapes. -/
def safeJoin (outputDir : Path) (filePath : String) : Except SafeJoinError Path :=
  let entry := asBytes filePath
  if .rootDir ∈ components entry then .error (.absoluteComponent filePath)
  else
    match normalizeJoined filePath (components (push outputDir entry)) [] with
    | .error error => .error error
    | .ok normalized =>
        let normOutput := normalizeOutput (components outputDir) []
        if startsWith normalized normOutput then .ok normalized
        else .error (.escapesDirectory filePath outputDir)

/-! ## The loops -/

theorem push_separator (buffer : Path) : push buffer [SEPARATOR] = Place.path ⟨true, 0, []⟩ :=
  if_pos rfl

theorem pop_path {place : Place (List UInt8)} (straight : place.Straight) :
    pop place.path = (decide (place.names ≠ []), route place.rooted place.names.dropLast) := by
  rw [straight.path_eq, pop_route straight.plain]

/-- Pushing a plain name enters it. -/
theorem push_path {place : Place (List UInt8)} (straight : place.Straight) {name : List UInt8}
    (plain : Plain name) : push place.path name = (place.enter (.normal name)).path := by
  have further : (place.enter (.normal name)).Straight :=
    straight.enter (fun _ same => by cases same; exact plain) (by rintro ⟨⟨⟩, _⟩)
  rw [straight.path_eq, push_route straight.plain plain, further.path_eq]
  rfl

/-- Entering the parent leaves the last name off. -/
theorem enter_parentDir {place : Place (List UInt8)} (straight : place.Straight)
    (some : place.names ≠ []) :
    (place.enter .parentDir).path = route place.rooted place.names.dropLast := by
  have further : (place.enter .parentDir).Straight :=
    straight.enter (fun _ same => by cases same) (fun none => some none.2)
  rw [further.path_eq, Place.enter, if_pos some]

/-- **The loop over the joined path** ends where the components lead, unless they lead up. -/
theorem normalizeJoined_spec {filePath : String} {remaining : List (Component (List UInt8))}
    {place : Place (List UInt8)}
    (straight : place.Straight) (plain : ∀ component ∈ remaining, component.Plain) :
    (¬place.Climbs remaining → normalizeJoined filePath remaining place.path =
      .ok (place.follow remaining).path) ∧
    (place.Climbs remaining → normalizeJoined filePath remaining place.path =
      .error (.escapes filePath)) := by
  induction remaining generalizing place with
  | nil => exact ⟨fun _ => rfl, fun climbs => absurd climbs Place.climbs_nil⟩
  | cons component remaining recurse =>
      obtain ⟨first, others⟩ := List.forall_mem_cons.mp plain
      rw [Place.climbs_cons]
      by_cases up : component = .parentDir ∧ place.names = []
      · obtain ⟨rfl, none⟩ := up
        refine ⟨fun level => absurd (.inl ⟨rfl, none⟩) level, fun _ => ?_⟩
        rw [normalizeJoined, pop_path straight, none]
        rfl
      · rw [or_iff_right up]
        have later := recurse (straight.enter first up) others
        cases component with
        | rootDir =>
            rw [normalizeJoined, push_separator]
            exact later
        | curDir => exact later
        | normal name =>
            rw [normalizeJoined, push_path straight (first name rfl)]
            exact later
        | parentDir =>
            have some : place.names ≠ [] := fun none => up ⟨rfl, none⟩
            rw [enter_parentDir straight some] at later
            rw [normalizeJoined, pop_path straight, decide_eq_true some]
            exact later

/-- The loop over the output directory agrees with it on components that never lead up. -/
theorem normalizeOutput_eq {remaining : List (Component (List UInt8))} {place : Place (List UInt8)}
    (straight : place.Straight) (plain : ∀ component ∈ remaining, component.Plain)
    (level : ¬place.Climbs remaining) :
    normalizeOutput remaining place.path = (place.follow remaining).path := by
  induction remaining generalizing place with
  | nil => rfl
  | cons component remaining recurse =>
      obtain ⟨first, others⟩ := List.forall_mem_cons.mp plain
      rw [Place.climbs_cons, not_or] at level
      have later := recurse (straight.enter first level.1) others level.2
      cases component with
      | rootDir =>
          rw [normalizeOutput, push_separator]
          exact later
      | curDir => exact later
      | normal name =>
          rw [normalizeOutput, push_path straight (first name rfl)]
          exact later
      | parentDir =>
          have some : place.names ≠ [] := fun none => level.1 ⟨rfl, none⟩
          rw [enter_parentDir straight some] at later
          rw [normalizeOutput, pop_path straight]
          exact later

/-! ## Containment -/

/-- Where an entry below the output directory leads. -/
def target (outputDir : Path) (filePath : String) : Place (List UInt8) :=
  resolve (push outputDir (asBytes filePath))

/-- The join of an entry decides whether it stays inside, and gives the path of its place. -/
def DecidesContainment (outputDir : Path) (filePath : String) : Prop :=
  ∀ result, safeJoin outputDir filePath = .ok result ↔
    ¬HasRoot (asBytes filePath) ∧ (target outputDir filePath).Inside (resolve outputDir) ∧
      result = (target outputDir filePath).path

/-- The joined path leads up somewhere. -/
def LeadsUp (outputDir : Path) (filePath : String) : Prop :=
  Place.here.Climbs (components (push outputDir (asBytes filePath)))

/-- A rooted path is rejected. -/
theorem safeJoin_hasRoot {outputDir : Path} {filePath : String}
    (rooted : HasRoot (asBytes filePath)) :
    safeJoin outputDir filePath = .error (.absoluteComponent filePath) := by
  exact if_pos (rootDir_mem_components.mpr rooted)

/-- A path that leads above the directory is rejected. -/
theorem safeJoin_leadsUp {outputDir : Path} {filePath : String}
    (relative : ¬HasRoot (asBytes filePath)) (up : LeadsUp outputDir filePath) :
    safeJoin outputDir filePath = .error (.escapes filePath) := by
  have refused : normalizeJoined filePath (components (push outputDir (asBytes filePath))) [] =
      .error (.escapes filePath) :=
    (normalizeJoined_spec Place.straight_here plain_components).2 up
  rw [safeJoin, if_neg (rootDir_mem_components.not.mpr relative), refused]

/-- An output directory leads up only if everything joined to it does. -/
theorem LeadsUp.of_outputDir {outputDir : Path} {filePath : String}
    (relative : ¬HasRoot (asBytes filePath)) (up : Place.here.Climbs (components outputDir)) :
    LeadsUp outputDir filePath := by
  rw [LeadsUp, ← Place.climbs_filter, filter_components, steps_push relative]
  rw [← Place.climbs_filter, filter_components] at up
  exact up.append _

/-- **A join that never leads up decides containment.** -/
theorem safeJoin_level {outputDir : Path} {filePath : String}
    (relative : ¬HasRoot (asBytes filePath)) (level : ¬LeadsUp outputDir filePath) :
    safeJoin outputDir filePath =
      if (target outputDir filePath).Inside (resolve outputDir) then
        .ok (target outputDir filePath).path
      else .error (.escapesDirectory filePath outputDir) := by
  have levelOutput : ¬Place.here.Climbs (components outputDir) :=
    mt (LeadsUp.of_outputDir relative) level
  have normalized : normalizeJoined filePath (components (push outputDir (asBytes filePath))) [] =
      .ok (target outputDir filePath).path :=
    (normalizeJoined_spec Place.straight_here plain_components).1 level
  have normOutput : normalizeOutput (components outputDir) [] = (resolve outputDir).path :=
    normalizeOutput_eq Place.straight_here plain_components levelOutput
  have straight : (target outputDir filePath).Straight :=
    Place.straight_here.follow plain_components level
  have straightOutput : (resolve outputDir).Straight :=
    Place.straight_here.follow plain_components levelOutput
  have rooted : (target outputDir filePath).rooted = (resolve outputDir).rooted := by
    rw [target, resolve_push relative]
    exact Place.rooted_follow (rootDir_mem_components.not.mpr relative)
  rw [safeJoin, if_neg (rootDir_mem_components.not.mpr relative), normalized, normOutput]
  by_cases inside : (target outputDir filePath).Inside (resolve outputDir)
  · rw [if_pos inside]
    exact if_pos ((Place.startsWith_path straight straightOutput rooted).mpr inside)
  · rw [if_neg inside]
    exact if_neg ((Place.startsWith_path straight straightOutput rooted).not.mpr inside)

/-- **When a join decides containment.** It does for an entry with a root, for one that ends up
outside, and when no `..` of the joined path comes where no name is left to cancel. -/
theorem decidesContainment_iff (outputDir : Path) (filePath : String) :
    DecidesContainment outputDir filePath ↔
      HasRoot (asBytes filePath) ∨
        ¬(target outputDir filePath).Inside (resolve outputDir) ∨
        ¬LeadsUp outputDir filePath := by
  by_cases rooted : HasRoot (asBytes filePath)
  · refine iff_of_true ?_ (.inl rooted)
    intro result
    rw [safeJoin_hasRoot rooted]
    exact iff_of_false (by rintro ⟨⟩) fun accepted => accepted.1 rooted
  · rw [or_iff_right rooted]
    by_cases up : LeadsUp outputDir filePath
    · rw [or_iff_left (not_not.mpr up)]
      constructor
      · intro decides inside
        have accepted := (decides _).mpr ⟨rooted, inside, rfl⟩
        rw [safeJoin_leadsUp rooted up] at accepted
        cases accepted
      · intro outside result
        rw [safeJoin_leadsUp rooted up]
        exact iff_of_false (by rintro ⟨⟩) fun accepted => outside accepted.2.1
    · refine iff_of_true ?_ (.inr up)
      intro result
      rw [safeJoin_level rooted up]
      split
      · rename_i inside
        constructor
        · rintro ⟨⟩
          exact ⟨rooted, inside, rfl⟩
        · rintro ⟨-, -, rfl⟩
          rfl
      · rename_i outside
        exact iff_of_false (by rintro ⟨⟩) fun accepted => outside accepted.2.1

/-- An output directory of `..` refuses an entry that stays inside it. -/
theorem parent_refuses : ¬DecidesContainment (asBytes "..") "x" := by
  intro decides
  have refused : safeJoin (asBytes "..") "x" = .error (.escapes "x") := by decide
  have accepted := (decides (asBytes "../x")).mpr (by decide)
  rw [refused] at accepted
  cases accepted

/-- An entry without `..` stays inside. -/
theorem inside_of_forward {outputDir : Path} {filePath : String}
    (relative : ¬HasRoot (asBytes filePath))
    (forward : .parentDir ∉ components (asBytes filePath)) :
    (target outputDir filePath).Inside (resolve outputDir) := by
  rw [target, resolve_push relative]
  exact Place.inside_follow (rootDir_mem_components.not.mpr relative) forward

/-- Only the directory itself can lead above it, when the path does not step back. -/
theorem LeadsUp.outputDir {outputDir : Path} {filePath : String}
    (relative : ¬HasRoot (asBytes filePath)) (forward : .parentDir ∉ components (asBytes filePath))
    (up : LeadsUp outputDir filePath) : Place.here.Climbs (components outputDir) := by
  rw [← Place.climbs_filter, filter_components]
  rw [LeadsUp, ← Place.climbs_filter, filter_components, steps_push relative] at up
  obtain ⟨before, after, split, none⟩ := up
  rcases List.append_eq_append_iff.mp split with ⟨rest, rfl, entry⟩ | ⟨rest, output, later⟩
  · have member : Component.parentDir ∈ steps (asBytes filePath) := by
      rw [entry]
      exact List.mem_append_right _ List.mem_cons_self
    rw [← filter_components] at member
    exact absurd (List.mem_filter.mp member).1 forward
  · cases rest with
    | nil =>
        have member : Component.parentDir ∈ steps (asBytes filePath) := by
          rw [← List.nil_append (steps _), ← later]
          exact List.mem_cons_self
        rw [← filter_components] at member
        exact absurd (List.mem_filter.mp member).1 forward
    | cons first rest =>
        cases later
        exact ⟨before, rest, output, none⟩

/-- **An entry without `..` is accepted** exactly when the output directory never leads up. -/
theorem accepts_forward_iff {outputDir : Path} {filePath : String}
    (relative : ¬HasRoot (asBytes filePath))
    (forward : .parentDir ∉ components (asBytes filePath)) :
    safeJoin outputDir filePath = .ok (target outputDir filePath).path ↔
      ¬Place.here.Climbs (components outputDir) := by
  constructor
  · intro accepted up
    rw [safeJoin_leadsUp relative (LeadsUp.of_outputDir relative up)] at accepted
    cases accepted
  · intro level
    rw [safeJoin_level relative (mt (LeadsUp.outputDir relative forward) level),
      if_pos (inside_of_forward relative forward)]

end Cli

end AetherArch
