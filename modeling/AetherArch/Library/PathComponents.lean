import AetherArch.Library.UnixPath

/-! # Components of Unix paths

What the parts of a path stand for, path buffers that names are pushed onto and popped off, and
the place that a path leads to when every `..` cancels the name before it.
-/

namespace UnixPath

variable {Name : Type}

/-- A component of a path. -/
inductive Component (Name : Type) where
  | rootDir
  | curDir
  | parentDir
  | normal (name : Name)
  deriving DecidableEq, Repr

/-- The component that stands ahead of the names. -/
def Lead.components : Lead → List (Component Name)
  | .root => [.rootDir]
  | .curDir => [.curDir]
  | .nothing => []

/-- What a name stands for. -/
def Component.ofName (name : List UInt8) : Component (List UInt8) :=
  if name = [46, 46] then .parentDir else .normal name

/-- The components of a path, from its start. -/
def components (path : Path) : List (Component (List UInt8)) :=
  (parts path).1.components ++
    ((parts path).2.filter fun name => ¬isJunk name).map Component.ofName

/-- A path starts from the root. -/
def HasRoot (path : Path) : Prop := path.head? = some SEPARATOR

instance (path : Path) : Decidable (HasRoot path) := decEq _ _

/-- Whether a path starts with the components of another. -/
def startsWith (path base : Path) : Bool := components base <+: components path

/-! ## Path buffers -/

/-- Names behind what is ahead of them. -/
def Lead.render : Lead → List (List UInt8) → Path
  | .root, names => SEPARATOR :: join names
  | .curDir, names => join ([46] :: names)
  | .nothing, names => join names

/-- A path without its last component, unless that is the root. -/
def parent (path : Path) : Option Path :=
  let (lead, names) := parts path
  match trimRight names with
  | [] => if lead = .curDir then some [] else none
  | name :: names => some (lead.render (trimRight (name :: names).dropLast))

/-- Cut a buffer back to its parent, and say whether it has one. -/
def pop (buffer : Path) : Bool × Path :=
  match parent buffer with
  | some shorter => (true, shorter)
  | none => (false, buffer)

/-- Extend a buffer by a path, which replaces it when it starts from the root. -/
def push (buffer path : Path) : Path :=
  if HasRoot path then path
  else if buffer = [] ∨ buffer.getLast? = some SEPARATOR then buffer ++ path
  else buffer ++ SEPARATOR :: path

/-! ## Where a path leads -/

/-- A place: from the root or not, that many directories up, and along some names. -/
structure Place (Name : Type) where
  rooted : Bool
  ups : Nat
  names : List Name
  deriving DecidableEq

namespace Place

/-- The directory that a path without a root starts from. -/
def here : Place Name := ⟨false, 0, []⟩

/-- Follow a component: `..` cancels the name before it, has no effect at the root, and leads up
where there is no name. -/
def enter (place : Place Name) : Component Name → Place Name
  | .rootDir => ⟨true, 0, []⟩
  | .curDir => place
  | .normal name => { place with names := place.names ++ [name] }
  | .parentDir =>
      if place.names ≠ [] then { place with names := place.names.dropLast }
      else if place.rooted then place
      else { place with ups := place.ups + 1 }

/-- Follow components one after the other. -/
def follow (place : Place Name) (components : List (Component Name)) : Place Name :=
  components.foldl enter place

/-- The path that leads straight to a place. -/
def path (place : Place (List UInt8)) : Path :=
  (if place.rooted then [SEPARATOR] else []) ++
    join (List.replicate place.ups [46, 46] ++ place.names)

/-- A place is another one or below it. -/
structure Inside (place outer : Place Name) : Prop where
  rooted : place.rooted = outer.rooted
  ups : place.ups = outer.ups
  names : outer.names <+: place.names

instance [DecidableEq Name] (place outer : Place Name) : Decidable (place.Inside outer) :=
  decidable_of_iff
    (place.rooted = outer.rooted ∧ place.ups = outer.ups ∧ outer.names <+: place.names)
    ⟨fun same => ⟨same.1, same.2.1, same.2.2⟩, fun inside => ⟨inside.1, inside.2, inside.3⟩⟩

/-- A `..` comes where no name is left to cancel. -/
def Climbs (place : Place Name) (components : List (Component Name)) : Prop :=
  ∃ before after, components = before ++ .parentDir :: after ∧ (place.follow before).names = []

end Place

/-- The lexical resolution of a path. -/
def resolve (path : Path) : Place (List UInt8) := Place.here.follow (components path)

/-! ## Parts and names -/

/-- The names a path leads along. -/
def body (path : Path) : List (List UInt8) :=
  (path.splitOn SEPARATOR).filter fun name => ¬isJunk name

/-- The components of a path that lead anywhere. -/
def steps (path : Path) : List (Component (List UInt8)) :=
  (if HasRoot path then [.rootDir] else []) ++ (body path).map Component.ofName

theorem Component.ofName_ne_curDir (name : List UInt8) : ofName name ≠ .curDir := by
  rw [ofName]
  split <;> rintro ⟨⟩

theorem parts_root (rest : Path) :
    parts (SEPARATOR :: rest) = (.root, rest.splitOn SEPARATOR) := rfl

theorem body_root (rest : Path) : body (SEPARATOR :: rest) = body rest := by
  rw [body, List.splitOn_cons_eq_if_modifyHead, if_pos (beq_self_eq_true _)]
  rfl

/-- Without the current directories, the components are the steps. -/
theorem filter_components (path : Path) :
    (components path).filter (· ≠ .curDir) = steps path := by
  have named (names : List (List UInt8)) :
      (names.map Component.ofName).filter (· ≠ .curDir) = names.map Component.ofName := by
    apply List.filter_eq_self.mpr
    intro component member
    obtain ⟨name, -, rfl⟩ := List.mem_map.mp member
    exact decide_eq_true (Component.ofName_ne_curDir name)
  rw [components, steps, List.filter_append, named]
  by_cases rooted : HasRoot path
  · rw [if_pos rooted]
    cases path with
    | nil => cases rooted
    | cons first rest =>
        cases rooted
        rw [parts_root, body_root]
        rfl
  · have relative : ¬path.head? = some SEPARATOR := rooted
    rw [if_neg rooted, parts, if_neg relative, body]
    split
    · rename_i names split
      rw [split]
      rfl
    · rfl

/-- Staying where one is leads nowhere. -/
theorem Place.follow_filter [DecidableEq Name] (place : Place Name)
    (components : List (Component Name)) :
    place.follow (components.filter (· ≠ .curDir)) = place.follow components := by
  induction components generalizing place with
  | nil => rfl
  | cons component components recurse =>
      by_cases current : component = .curDir
      · subst current
        exact recurse place
      · rw [List.filter_cons_of_pos (by simpa using current)]
        exact recurse (place.enter component)

theorem Place.follow_components (place : Place (List UInt8)) (path : Path) :
    place.follow (components path) = place.follow (steps path) := by
  rw [← filter_components, follow_filter]

/-- Only a path that starts from the root has the root among its components. -/
theorem rootDir_mem_components {path : Path} : .rootDir ∈ components path ↔ HasRoot path := by
  constructor
  · intro member
    have step : Component.rootDir ∈ steps path := by
      rw [← filter_components]
      exact List.mem_filter.mpr ⟨member, decide_eq_true (by rintro ⟨⟩)⟩
    rcases List.mem_append.mp step with ahead | named
    · by_contra relative
      rw [if_neg relative] at ahead
      cases ahead
    · obtain ⟨name, -, same⟩ := List.mem_map.mp named
      rw [Component.ofName] at same
      split at same <;> cases same
  · intro rooted
    have step : Component.rootDir ∈ steps path := by
      rw [steps, if_pos rooted]
      exact List.mem_cons_self
    rw [← filter_components] at step
    exact (List.mem_filter.mp step).1

/-- A path leads up where one of its names is `..`. -/
theorem parentDir_mem_components {path : Path} :
    .parentDir ∈ components path ↔ [46, 46] ∈ path.splitOn SEPARATOR := by
  constructor
  · intro member
    have step : Component.parentDir ∈ steps path := by
      rw [← filter_components]
      exact List.mem_filter.mpr ⟨member, decide_eq_true (by rintro ⟨⟩)⟩
    rcases List.mem_append.mp step with ahead | named
    · split at ahead
      · cases List.mem_singleton.mp ahead
      · cases ahead
    · obtain ⟨name, inside, parent⟩ := List.mem_map.mp named
      by_cases dots : name = [46, 46]
      · subst dots
        exact (List.mem_filter.mp inside).1
      · rw [Component.ofName, if_neg dots] at parent
        cases parent
  · intro member
    have step : Component.parentDir ∈ steps path := List.mem_append_right _
      (List.mem_map.mpr ⟨[46, 46], List.mem_filter.mpr ⟨member, rfl⟩, rfl⟩)
    rw [← filter_components] at step
    exact (List.mem_filter.mp step).1

/-! ## A path behind another one -/

/-- The names of a path follow those of the path ahead of it. -/
theorem body_separator (path rest : Path) :
    body (path ++ SEPARATOR :: rest) = body path ++ body rest := by
  rw [body, List.splitOn_append_cons_self, List.filter_append]
  rfl

/-- Pushing a relative path adds its names. -/
theorem body_push {buffer path : Path} (relative : ¬HasRoot path) :
    body (push buffer path) = body buffer ++ body path := by
  rw [push, if_neg relative]
  split
  · rename_i ended
    rcases ended with rfl | ended
    · rfl
    · obtain ⟨front, rfl⟩ := List.getLast?_eq_some_iff.mp ended
      rw [List.append_assoc, List.singleton_append, body_separator, body_separator]
      exact congrArg (· ++ body path) (List.append_nil _).symm
  · exact body_separator buffer path

/-- A relative path does not change whether a buffer starts from the root. -/
theorem hasRoot_push {buffer path : Path} (relative : ¬HasRoot path) :
    HasRoot (push buffer path) ↔ HasRoot buffer := by
  rw [push, if_neg relative]
  cases buffer with
  | nil => exact iff_of_false relative (by rintro ⟨⟩)
  | cons first rest => split <;> exact Iff.rfl

/-- **The steps along a joined path** are those along its parts. -/
theorem steps_push {buffer path : Path} (relative : ¬HasRoot path) :
    steps (push buffer path) = steps buffer ++ steps path := by
  simp only [steps, hasRoot_push relative, body_push relative, if_neg relative, List.map_append,
    List.nil_append, List.append_assoc]

/-! ## Plain names -/

/-- A name that is one component, and no `..`. -/
structure Plain (name : List UInt8) : Prop where
  named : isJunk name = false
  forward : name ≠ [46, 46]
  whole : SEPARATOR ∉ name

theorem Plain.ofName {name : List UInt8} (plain : Plain name) :
    Component.ofName name = .normal name := if_neg plain.forward

theorem Plain.ne_nil {name : List UInt8} (plain : Plain name) : name ≠ [] := by
  rintro rfl
  cases plain.named

/-- A component leads along a plain name, if along any. -/
def Component.Plain (component : Component (List UInt8)) : Prop :=
  ∀ name, component = .normal name → UnixPath.Plain name

/-- No part of a list holds an element that the list is split at. -/
theorem of_mem_splitOnP {α : Type} {p : α → Bool} {elements part : List α}
    (member : part ∈ elements.splitOnP p) : ∀ element ∈ part, p element = false := by
  induction elements generalizing part with
  | nil =>
      cases List.mem_singleton.mp member
      exact fun _ inside => absurd inside List.not_mem_nil
  | cons first elements recurse =>
      rw [List.splitOnP_cons_eq_if_modifyHead] at member
      split at member
      · rcases List.mem_cons.mp member with rfl | later
        · exact fun _ inside => absurd inside List.not_mem_nil
        · exact recurse later
      · rename_i other
        obtain ⟨front, rest, splits⟩ :=
          List.exists_cons_of_ne_nil (List.splitOnP_ne_nil p elements)
        rw [splits] at member recurse
        rcases List.mem_cons.mp member with rfl | later
        · exact List.forall_mem_cons.mpr
            ⟨Bool.eq_false_iff.mpr other, recurse List.mem_cons_self⟩
        · exact recurse (List.mem_cons_of_mem _ later)

/-- The parts of a list hold elements of the list. -/
theorem subset_of_mem_splitOnP {α : Type} {p : α → Bool} {elements part : List α}
    (member : part ∈ elements.splitOnP p) : part ⊆ elements := by
  induction elements generalizing part with
  | nil =>
      cases List.mem_singleton.mp member
      exact List.Subset.refl _
  | cons first elements recurse =>
      rw [List.splitOnP_cons_eq_if_modifyHead] at member
      split at member
      · rcases List.mem_cons.mp member with rfl | later
        · exact List.nil_subset _
        · exact List.subset_cons_of_subset _ (recurse later)
      · obtain ⟨front, rest, splits⟩ :=
          List.exists_cons_of_ne_nil (List.splitOnP_ne_nil p elements)
        rw [splits] at member recurse
        rcases List.mem_cons.mp member with rfl | later
        · exact List.cons_subset_cons _ (recurse List.mem_cons_self)
        · exact List.subset_cons_of_subset _ (recurse (List.mem_cons_of_mem _ later))

/-- Splitting at some elements and then at others is splitting at all of them. -/
theorem splitOnP_or {α : Type} (p q : α → Bool) (elements : List α) :
    elements.splitOnP (fun element => p element || q element) =
      (elements.splitOnP p).flatMap (List.splitOnP q) := by
  induction elements with
  | nil => rfl
  | cons first elements recurse =>
      rw [List.splitOnP_cons_eq_if_modifyHead, List.splitOnP_cons_eq_if_modifyHead, recurse]
      obtain ⟨part, rest, splits⟩ := List.exists_cons_of_ne_nil (List.splitOnP_ne_nil p elements)
      obtain ⟨head, others, inner⟩ := List.exists_cons_of_ne_nil (List.splitOnP_ne_nil q part)
      rw [splits, List.flatMap_cons, inner]
      cases atFirst : p first with
      | true =>
          rw [Bool.true_or, if_pos rfl, if_pos rfl, List.flatMap_cons, List.flatMap_cons, inner]
          rfl
      | false =>
          rw [Bool.false_or, if_neg Bool.false_ne_true, List.modifyHead_cons, List.flatMap_cons,
            List.splitOnP_cons_eq_if_modifyHead, inner]
          cases q first <;> rfl

/-- Joined parts hold nothing but what the parts hold and the separator. -/
theorem mem_intercalate {α : Type} {separator element : α} {parts : List (List α)}
    (member : element ∈ [separator].intercalate parts) (other : element ≠ separator) :
    ∃ part ∈ parts, element ∈ part := by
  induction parts with
  | nil => cases member
  | cons first rest recurse =>
      cases rest with
      | nil =>
          rw [List.intercalate_singleton] at member
          exact ⟨first, List.mem_cons_self, member⟩
      | cons second rest =>
          rw [List.intercalate_cons_cons, List.append_assoc] at member
          rcases List.mem_append.mp member with here | later
          · exact ⟨first, List.mem_cons_self, here⟩
          · rcases List.mem_cons.mp later with same | later
            · exact absurd same other
            · obtain ⟨part, inside, found⟩ := recurse later
              exact ⟨part, List.mem_cons_of_mem _ inside, found⟩

/-- Splitting depends on the elements of the list alone. -/
theorem splitOnP_congr {α : Type} {p q : α → Bool} {elements : List α}
    (same : ∀ element ∈ elements, p element = q element) :
    elements.splitOnP p = elements.splitOnP q := by
  induction elements with
  | nil => rfl
  | cons first elements recurse =>
      obtain ⟨here, later⟩ := List.forall_mem_cons.mp same
      rw [List.splitOnP_cons_eq_if_modifyHead, List.splitOnP_cons_eq_if_modifyHead, here,
        recurse later]

/-- A name between separators has none in it. -/
theorem whole_of_mem_splitOn {path name : List UInt8} (member : name ∈ path.splitOn SEPARATOR) :
    SEPARATOR ∉ name := by
  intro inside
  rw [List.splitOn_eq_splitOnP] at member
  exact absurd (of_mem_splitOnP member _ inside) (by decide)

/-- The names among the steps of a path are plain. -/
theorem plain_steps {path : Path} : ∀ component ∈ steps path, component.Plain := by
  rintro component member name rfl
  rcases List.mem_append.mp member with root | member
  · split at root
    · cases List.mem_singleton.mp root
    · cases root
  · obtain ⟨found, inside, named⟩ := List.mem_map.mp member
    obtain ⟨split, useful⟩ := List.mem_filter.mp inside
    rw [Component.ofName] at named
    split at named
    · cases named
    · rename_i forward
      cases named
      rw [decide_eq_true_eq, Bool.not_eq_true] at useful
      exact ⟨useful, forward, whole_of_mem_splitOn split⟩

/-! ## The path of a place -/

/-- A place that names alone lead to. -/
structure Place.Straight (place : Place (List UInt8)) : Prop where
  level : place.ups = 0
  plain : ∀ name ∈ place.names, Plain name

/-- Names behind the root or behind nothing. -/
def route (rooted : Bool) (names : List (List UInt8)) : Path :=
  (if rooted then [SEPARATOR] else []) ++ join names

/-- The path of a straight place is its route. -/
theorem Place.Straight.path_eq {place : Place (List UInt8)} (straight : place.Straight) :
    place.path = route place.rooted place.names := by
  rw [Place.path, straight.level]
  rfl

/-- What is ahead of the names of a route. -/
def leadOf (rooted : Bool) : Lead := if rooted then .root else .nothing

theorem splitOn_join {names : List (List UInt8)} (plain : ∀ name ∈ names, Plain name)
    (some : names ≠ []) : (join names).splitOn SEPARATOR = names :=
  List.splitOn_intercalate SEPARATOR (fun name member => (plain name member).whole) some

theorem join_singleton (name : List UInt8) : join [name] = name := List.intercalate_singleton

/-- A joined path starts with its first name. -/
theorem head?_join {first : List UInt8} {rest : List (List UInt8)} (some : first ≠ []) :
    (join (first :: rest)).head? = first.head? := by
  cases rest with
  | nil => rw [join_singleton]
  | cons second rest =>
      rw [join, List.intercalate_cons_cons, List.append_assoc, List.head?_append_of_ne_nil _ some]

theorem parts_route_nil (rooted : Bool) : parts (route rooted []) = (leadOf rooted, [[]]) := by
  cases rooted <;> rfl

/-- The parts of a route are its names. -/
theorem parts_route {rooted : Bool} {names : List (List UInt8)}
    (plain : ∀ name ∈ names, Plain name) (some : names ≠ []) :
    parts (route rooted names) = (leadOf rooted, names) := by
  cases rooted with
  | true =>
      show parts (SEPARATOR :: join names) = _
      rw [parts_root, splitOn_join plain some]
      rfl
  | false =>
      show parts (join names) = _
      cases names with
      | nil => exact absurd rfl some
      | cons first rest =>
          have whole := plain first List.mem_cons_self
          have relative : ¬(join (first :: rest)).head? = Option.some SEPARATOR := by
            rw [head?_join whole.ne_nil]
            exact fun first => whole.whole (List.mem_of_head? first)
          rw [parts, if_neg relative, splitOn_join plain some]
          split
          · rename_i found
            cases found
            cases whole.named
          · rfl

/-- No plain name is skipped. -/
theorem filter_plain {names : List (List UInt8)} (plain : ∀ name ∈ names, Plain name) :
    names.filter (fun name => ¬isJunk name) = names := by
  apply List.filter_eq_self.mpr
  intro name member
  rw [decide_eq_true_eq, (plain name member).named]
  exact Bool.false_ne_true

theorem map_ofName {names : List (List UInt8)} (plain : ∀ name ∈ names, Plain name) :
    names.map Component.ofName = names.map .normal :=
  List.map_congr_left fun name member => (plain name member).ofName

/-- The components of a route are its names, from its start. -/
theorem components_route {rooted : Bool} {names : List (List UInt8)}
    (plain : ∀ name ∈ names, Plain name) :
    components (route rooted names) = (leadOf rooted).components ++ names.map .normal := by
  by_cases none : names = []
  · subst none
    rw [components, parts_route_nil]
    rfl
  · rw [components, parts_route plain none]
    dsimp only
    rw [filter_plain plain, map_ofName plain]

/-- A name is joined behind the others with a separator. -/
theorem join_concat {names : List (List UInt8)} (some : names ≠ []) (name : List UInt8) :
    join (names ++ [name]) = join names ++ SEPARATOR :: name := by
  induction names with
  | nil => exact absurd rfl some
  | cons first rest recurse =>
      cases rest with
      | nil =>
          rw [join_singleton, List.singleton_append, join, List.intercalate_cons_cons,
            List.intercalate_singleton, List.append_assoc, List.singleton_append]
      | cons second rest =>
          have later := recurse (List.cons_ne_nil second rest)
          rw [join, join] at later
          rw [join, List.cons_append, List.cons_append, List.intercalate_cons_cons,
            ← List.cons_append, later, join, List.intercalate_cons_cons]
          simp only [List.append_assoc]

/-- A route along names ends inside the last of them. -/
theorem route_ended {rooted : Bool} {names : List (List UInt8)}
    (plain : ∀ name ∈ names, Plain name) (some : names ≠ []) :
    ¬(route rooted names = [] ∨ (route rooted names).getLast? = Option.some SEPARATOR) := by
  obtain ⟨front, last, rfl⟩ := (List.eq_nil_or_concat' names).resolve_left some
  have whole := plain last (List.mem_append_right _ List.mem_cons_self)
  obtain ⟨before, ends⟩ : ∃ before, route rooted (front ++ [last]) = before ++ last := by
    by_cases none : front = []
    · subst none
      exact ⟨_, congrArg _ (join_singleton last)⟩
    · rw [route, join_concat none]
      refine ⟨(if rooted then [SEPARATOR] else []) ++ (join front ++ [SEPARATOR]), ?_⟩
      simp only [List.append_assoc, List.singleton_append]
  rw [ends]
  rintro (empty | last)
  · exact whole.ne_nil (List.append_eq_nil_iff.mp empty).2
  · rw [List.getLast?_append_of_ne_nil _ whole.ne_nil] at last
    exact whole.whole (List.mem_of_getLast? last)

/-- Pushing a plain name prolongs a route by it. -/
theorem push_route {rooted : Bool} {names : List (List UInt8)}
    (plain : ∀ name ∈ names, Plain name) {name : List UInt8} (next : Plain name) :
    push (route rooted names) name = route rooted (names ++ [name]) := by
  have relative : ¬HasRoot name := fun root => next.whole (List.mem_of_head? root)
  rw [push, if_neg relative]
  by_cases none : names = []
  · subst none
    rw [route, route, List.nil_append, join_singleton]
    cases rooted <;> rfl
  · rw [if_neg (route_ended plain none), route, route, join_concat none, List.append_assoc]

/-- There is nothing to trim at the end of plain names. -/
theorem trimRight_plain {names : List (List UInt8)} (plain : ∀ name ∈ names, Plain name) :
    trimRight names = names := by
  apply List.rdropWhile_eq_self_iff.mpr
  intro some junk
  rw [(plain _ (List.getLast_mem some)).named] at junk
  cases junk

/-- Popping takes the last name off a route. -/
theorem pop_route {rooted : Bool} {names : List (List UInt8)}
    (plain : ∀ name ∈ names, Plain name) :
    pop (route rooted names) = (decide (names ≠ []), route rooted names.dropLast) := by
  by_cases none : names = []
  · subst none
    cases rooted <;> rfl
  · have shorter : ∀ name ∈ names.dropLast, Plain name :=
      fun name member => plain name (List.dropLast_subset names member)
    have cut : parent (route rooted names) = some (route rooted names.dropLast) := by
      rw [parent, parts_route plain none]
      dsimp only
      rw [trimRight_plain plain]
      cases names with
      | nil => exact absurd rfl none
      | cons first rest =>
          dsimp only
          rw [trimRight_plain shorter]
          cases rooted <;> rfl
    rw [pop, cut, decide_eq_true none]

/-! ## Following components -/

/-- The names among the components of a path are plain. -/
theorem plain_components {path : Path} : ∀ component ∈ components path, component.Plain := by
  rintro component member name rfl
  have step : Component.normal name ∈ steps path := by
    rw [← filter_components]
    exact List.mem_filter.mpr ⟨member, decide_eq_true (by rintro ⟨⟩)⟩
  exact plain_steps _ step name rfl

namespace Place

theorem straight_here : (here : Place (List UInt8)).Straight :=
  ⟨rfl, fun _ member => absurd member List.not_mem_nil⟩

theorem climbs_nil {place : Place Name} : ¬place.Climbs [] := by
  rintro ⟨before, after, split, -⟩
  exact absurd split.symm (List.append_ne_nil_of_right_ne_nil _ (List.cons_ne_nil _ _))

/-- A path climbs at its first component or behind it. -/
theorem climbs_cons {place : Place Name} {component : Component Name}
    {components : List (Component Name)} :
    place.Climbs (component :: components) ↔
      (component = .parentDir ∧ place.names = []) ∨ (place.enter component).Climbs components := by
  constructor
  · rintro ⟨before, after, split, climbs⟩
    cases before with
    | nil =>
        cases split
        exact .inl ⟨rfl, climbs⟩
    | cons first before =>
        cases split
        exact .inr ⟨before, after, rfl, climbs⟩
  · rintro (⟨rfl, none⟩ | ⟨before, after, rfl, climbs⟩)
    · exact ⟨[], components, rfl, none⟩
    · exact ⟨component :: before, after, rfl, climbs⟩

/-- Current directories do not matter to whether a path climbs. -/
theorem climbs_filter [DecidableEq Name] (place : Place Name)
    (components : List (Component Name)) :
    place.Climbs (components.filter (· ≠ .curDir)) ↔ place.Climbs components := by
  induction components generalizing place with
  | nil => exact Iff.rfl
  | cons component components recurse =>
      rw [climbs_cons]
      by_cases current : component = .curDir
      · subst current
        rw [or_iff_right (by rintro ⟨⟨⟩, _⟩)]
        exact recurse place
      · rw [List.filter_cons_of_pos (by simpa using current), climbs_cons, recurse]

/-- A path that climbs does so whatever follows. -/
theorem Climbs.append {place : Place Name} {components : List (Component Name)}
    (climbs : place.Climbs components) (rest : List (Component Name)) :
    place.Climbs (components ++ rest) := by
  obtain ⟨before, after, rfl, none⟩ := climbs
  exact ⟨before, after ++ rest, by rw [List.append_assoc, List.cons_append], none⟩

/-- A step that cancels a name or adds one leads from a straight place to another. -/
theorem Straight.enter {place : Place (List UInt8)} (straight : place.Straight)
    {component : Component (List UInt8)}
    (plain : component.Plain) (possible : ¬(component = .parentDir ∧ place.names = [])) :
    (place.enter component).Straight := by
  cases component with
  | rootDir => exact ⟨rfl, fun _ member => absurd member List.not_mem_nil⟩
  | curDir => exact straight
  | normal name =>
      refine ⟨straight.level, ?_⟩
      intro other member
      rcases List.mem_append.mp member with old | new
      · exact straight.plain other old
      · cases List.mem_singleton.mp new
        exact plain name rfl
  | parentDir =>
      have some : place.names ≠ [] := fun none => possible ⟨rfl, none⟩
      rw [Place.enter, if_pos some]
      exact ⟨straight.level, fun name member =>
        straight.plain name (List.dropLast_subset place.names member)⟩

/-- **Components that never lead up** lead from a straight place to another. -/
theorem Straight.follow {place : Place (List UInt8)} (straight : place.Straight)
    {components : List (Component (List UInt8))} (plain : ∀ component ∈ components, component.Plain)
    (level : ¬place.Climbs components) : (place.follow components).Straight := by
  induction components generalizing place with
  | nil => exact straight
  | cons component components recurse =>
      obtain ⟨first, others⟩ := List.forall_mem_cons.mp plain
      rw [climbs_cons, not_or] at level
      exact recurse (straight.enter first level.1) others level.2

/-- Straight places contain each other as the components of their paths do. -/
theorem startsWith_path {place outer : Place (List UInt8)} (straight : place.Straight)
    (straightOuter : outer.Straight) (rooted : place.rooted = outer.rooted) :
    startsWith place.path outer.path = true ↔ place.Inside outer := by
  rw [startsWith, decide_eq_true_eq, straight.path_eq, straightOuter.path_eq,
    components_route straight.plain, components_route straightOuter.plain, rooted,
    List.prefix_append_right_inj]
  constructor
  · intro starts
    refine ⟨rooted, straight.level.trans straightOuter.level.symm, ?_⟩
    have injective : Function.Injective (Component.normal : List UInt8 → _) :=
      fun _ _ same => by injection same
    rw [List.prefix_iff_eq_take, List.length_map, ← List.map_take] at starts
    rw [List.map_injective_iff.mpr injective starts]
    exact List.take_prefix _ _
  · intro inside
    exact inside.names.map _

/-- A component other than the root leaves where a place is counted from. -/
theorem rooted_follow {place : Place Name} {components : List (Component Name)}
    (relative : .rootDir ∉ components) : (place.follow components).rooted = place.rooted := by
  induction components generalizing place with
  | nil => rfl
  | cons component components recurse =>
      rw [List.mem_cons, not_or] at relative
      have same : (place.enter component).rooted = place.rooted := by
        cases component with
        | rootDir => exact absurd rfl relative.1
        | curDir => rfl
        | normal name => rfl
        | parentDir =>
            rw [Place.enter]
            split
            · rfl
            · split <;> rfl
      exact (recurse relative.2).trans same

/-- **Components that neither start over nor lead up** stay inside where they start. -/
theorem inside_follow {place : Place Name} {components : List (Component Name)}
    (relative : .rootDir ∉ components) (forward : .parentDir ∉ components) :
    (place.follow components).Inside place := by
  induction components generalizing place with
  | nil => exact ⟨rfl, rfl, List.prefix_refl _⟩
  | cons component components recurse =>
      rw [List.mem_cons, not_or] at relative forward
      have later := @recurse (place.enter component) relative.2 forward.2
      cases component with
      | rootDir => exact absurd rfl relative.1
      | parentDir => exact absurd rfl forward.1
      | curDir => exact later
      | normal name => exact ⟨later.rooted, later.ups, (List.prefix_append _ _).trans later.names⟩

end Place

/-- **A joined path resolves** by following the second path from where the first leads. -/
theorem resolve_push {buffer path : Path} (relative : ¬HasRoot path) :
    resolve (push buffer path) = (resolve buffer).follow (components path) := by
  rw [resolve, resolve, Place.follow_components, Place.follow_components _ path,
    Place.follow_components _ buffer, steps_push relative]
  exact List.foldl_append

end UnixPath
