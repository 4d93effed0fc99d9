import Mathlib.Data.Option.Basic
import Mathlib.Tactic.Common

set_option autoImplicit false

/-!
# Runs of a labelled transition function

A system is a function `step` from a state and an action to the next state, undefined where the
action is not enabled. A claim about every run is an invariant; a claim about the runs that keep to
a condition is an invariant along a guarded run.
-/

namespace Transition

variable {S A : Type} (step : S → A → Option S)

def run : S → List A → Option S
  | s, [] => some s
  | s, a :: rest => (step s a).bind fun t => run t rest

/-- Every step of the run meets the guard, which sees the state before the step and the action. -/
def Along (guard : S → A → Prop) : S → List A → Prop
  | _, [] => True
  | s, a :: rest => guard s a ∧ ∀ t, step s a = some t → Along guard t rest

/-- Every state of the run, the first one included, satisfies the predicate. -/
def Always (holds : S → Prop) : S → List A → Prop
  | s, [] => holds s
  | s, a :: rest => holds s ∧ ∀ t, step s a = some t → Always holds t rest

variable {step}

@[simp] theorem run_nil (s : S) : run step s [] = some s := rfl

theorem run_cons {s u : S} {a : A} {rest : List A} :
    run step s (a :: rest) = some u ↔ ∃ t, step s a = some t ∧ run step t rest = some u := by
  simp [run, Option.bind_eq_some_iff]

theorem run_append {s u : S} {first second : List A} :
    run step s (first ++ second) = some u ↔
      ∃ t, run step s first = some t ∧ run step t second = some u := by
  induction first generalizing s with
  | nil => simp
  | cons a rest ih =>
    simp only [List.cons_append, run_cons, ih]
    constructor
    · rintro ⟨t, first, v, middle, last⟩
      exact ⟨v, ⟨t, first, middle⟩, last⟩
    · rintro ⟨v, ⟨t, first, middle⟩, last⟩
      exact ⟨t, first, v, middle, last⟩

/-- A state that carries more than the system does, and steps as the system does, runs as it does. -/
theorem run_map {W : Type} {wide : W → A → Option W} {narrow : W → S}
    (same : ∀ w a, (wide w a).map narrow = step (narrow w) a) (w : W) (actions : List A) :
    (run wide w actions).map narrow = run step (narrow w) actions := by
  induction actions generalizing w with
  | nil => rfl
  | cons a rest ih =>
    rw [run, run, ← same w a]
    cases wide w a with
    | none => rfl
    | some next => exact ih next

theorem exists_run {holds : S → Prop} [DecidablePred holds] {s : S} {actions : List A}
    (evaluates : (run step s actions).any (fun u => decide (holds u)) = true) :
    ∃ u, run step s actions = some u ∧ holds u := by
  simpa [Option.any_eq_true] using evaluates

theorem Along.mono {guard weaker : S → A → Prop} (weaken : ∀ s a, guard s a → weaker s a) {s : S}
    {actions : List A} (along : Along step guard s actions) : Along step weaker s actions := by
  induction actions generalizing s with
  | nil => trivial
  | cons a rest ih => exact ⟨weaken s a along.1, fun t stepped => ih (along.2 t stepped)⟩

theorem along_of_forall {guard : S → A → Prop} {actions : List A} (meets : ∀ a ∈ actions, ∀ s, guard s a) (s : S) :
    Along step guard s actions := by
  induction actions generalizing s with
  | nil => trivial
  | cons a rest ih =>
    refine ⟨meets a (List.mem_cons_self ..) s, fun t _ => ih (fun b inside => ?_) t⟩
    exact meets b (List.mem_cons_of_mem a inside)

theorem Along.strengthen {inv : S → Prop} {guard other : S → A → Prop}
    (meets : ∀ s a, inv s → guard s a → other s a)
    (preserved : ∀ s a t, inv s → guard s a → step s a = some t → inv t) {s : S} {actions : List A}
    (along : Along step guard s actions) (initial : inv s) : Along step other s actions := by
  induction actions generalizing s with
  | nil => trivial
  | cons a rest ih =>
    refine ⟨meets s a initial along.1, fun t stepped => ?_⟩
    exact ih (along.2 t stepped) (preserved s a t initial along.1 stepped)

theorem along_iff_along {inv : S → Prop} {guard other : S → A → Prop}
    (agree : ∀ s a, inv s → (guard s a ↔ other s a))
    (preserved : ∀ s a t, inv s → guard s a → step s a = some t → inv t) {s : S} {actions : List A}
    (initial : inv s) : Along step guard s actions ↔ Along step other s actions := by
  constructor
  · intro along
    exact along.strengthen (fun s a holds => (agree s a holds).mp) preserved initial
  · intro along
    refine along.strengthen (fun s a holds => (agree s a holds).mpr) (fun s a t holds met => ?_) initial
    exact preserved s a t holds ((agree s a holds).mpr met)

theorem Always.head {holds : S → Prop} {s : S} {actions : List A}
    (always : Always step holds s actions) : holds s := by
  cases actions with
  | nil => exact always
  | cons a rest => exact always.1

theorem Always.last {holds : S → Prop} {s u : S} {actions : List A}
    (always : Always step holds s actions) (reached : run step s actions = some u) : holds u := by
  induction actions generalizing s with
  | nil =>
    obtain rfl := Option.some.inj reached
    exact always
  | cons a rest ih =>
    obtain ⟨t, stepped, reached⟩ := run_cons.mp reached
    exact ih (always.2 t stepped) reached

theorem invariant {inv : S → Prop} (preserved : ∀ s a t, inv s → step s a = some t → inv t)
    {s u : S} {actions : List A} (initial : inv s) (reached : run step s actions = some u) :
    inv u := by
  induction actions generalizing s with
  | nil =>
    obtain rfl := Option.some.inj reached
    exact initial
  | cons a rest ih =>
    obtain ⟨t, stepped, reached⟩ := run_cons.mp reached
    exact ih (preserved s a t initial stepped) reached

theorem always {inv : S → Prop} (preserved : ∀ s a t, inv s → step s a = some t → inv t) {s : S}
    (actions : List A) (initial : inv s) : Always step inv s actions := by
  induction actions generalizing s with
  | nil => exact initial
  | cons a rest ih => exact ⟨initial, fun t stepped => ih (preserved s a t initial stepped)⟩

theorem always_of_along {inv : S → Prop} {guard : S → A → Prop}
    (preserved : ∀ s a t, inv s → guard s a → step s a = some t → inv t) {s : S} {actions : List A}
    (kept : Along step guard s actions) (initial : inv s) : Always step inv s actions := by
  induction actions generalizing s with
  | nil => exact initial
  | cons a rest ih =>
    refine ⟨initial, fun t stepped => ?_⟩
    exact ih (kept.2 t stepped) (preserved s a t initial kept.1 stepped)

theorem Always.also {inv holds : S → Prop}
    (preserved : ∀ s a t, inv s → inv t → holds s → step s a = some t → holds t) {s : S}
    {actions : List A} (kept : Always step inv s actions) (start : holds s) :
    Always step holds s actions := by
  induction actions generalizing s with
  | nil => exact start
  | cons a rest ih =>
    refine ⟨start, fun t stepped => ?_⟩
    have tail := kept.2 t stepped
    exact ih tail (preserved s a t kept.head tail.head start stepped)

theorem Always.mono {holds weaker : S → Prop} (weaken : ∀ s, holds s → weaker s) {s : S}
    {actions : List A} (always : Always step holds s actions) : Always step weaker s actions := by
  induction actions generalizing s with
  | nil => exact weaken s always
  | cons a rest ih => exact ⟨weaken s always.1, fun t stepped => ih (always.2 t stepped)⟩

theorem Always.and {first second : S → Prop} {s : S} {actions : List A}
    (one : Always step first s actions) (other : Always step second s actions) :
    Always step (fun s => first s ∧ second s) s actions := by
  induction actions generalizing s with
  | nil => exact ⟨one, other⟩
  | cons a rest ih => exact ⟨⟨one.1, other.1⟩, fun t stepped => ih (one.2 t stepped) (other.2 t stepped)⟩

/-- A part of the state that goes the way of a system of its own has what holds in every run of that system. -/
theorem Always.of_projection {T B : Type} {other : T → B → Option T} {project : S → T} {holds : T → Prop}
    (follows : ∀ s a t, step s a = some t → project t = project s ∨ ∃ b, other (project s) b = some (project t))
    {s : S} (every : ∀ others, Always other holds (project s) others) (actions : List A) :
    Always step (fun s => holds (project s)) s actions := by
  induction actions generalizing s with
  | nil => exact every []
  | cons a rest ih =>
    refine ⟨every [], fun t stepped => ih fun others => ?_⟩
    rcases follows s a t stepped with same | ⟨b, moved⟩
    · rw [same]
      exact every others
    · exact (every (b :: others)).2 _ moved

theorem Always.along {holds : S → Prop} {guard : S → A → Prop} (meets : ∀ s a, holds s → guard s a)
    {s : S} {actions : List A} (always : Always step holds s actions) : Along step guard s actions := by
  induction actions generalizing s with
  | nil => trivial
  | cons a rest ih => exact ⟨meets s a always.1, fun t stepped => ih (always.2 t stepped)⟩

theorem Always.take {holds : S → Prop} {s : S} {actions : List A}
    (always : Always step holds s actions) (n : Nat) : Always step holds s (actions.take n) := by
  induction actions generalizing s n with
  | nil => simpa using always
  | cons a rest ih =>
    cases n with
    | zero => exact always.1
    | succ n => exact ⟨always.1, fun t stepped => ih (always.2 t stepped) n⟩

theorem Always.append {holds : S → Prop} {s : S} {first second : List A}
    (always : Always step holds s first)
    (after : ∀ t, run step s first = some t → Always step holds t second) :
    Always step holds s (first ++ second) := by
  induction first generalizing s with
  | nil => exact after s rfl
  | cons a rest ih =>
    refine ⟨always.1, fun t stepped => ih (always.2 t stepped) fun u reached => after u ?_⟩
    exact run_cons.mpr ⟨t, stepped, reached⟩

theorem exists_of_not_always {holds : S → Prop} {s : S} {actions : List A}
    (broken : ¬ Always step holds s actions) :
    ∃ n u, run step s (actions.take n) = some u ∧ ¬ holds u := by
  induction actions generalizing s with
  | nil => exact ⟨0, s, rfl, broken⟩
  | cons a rest ih =>
    by_cases here : holds s
    · simp only [Always, here, true_and, not_forall] at broken
      obtain ⟨t, stepped, later⟩ := broken
      obtain ⟨n, u, reached, fails⟩ := ih later
      exact ⟨n + 1, u, by simp [run, stepped, reached], fails⟩
    · exact ⟨0, s, rfl, here⟩

theorem exists_of_not_along {guard : S → A → Prop} {s : S} {actions : List A}
    (broken : ¬ Along step guard s actions) :
    ∃ n u a, run step s (actions.take n) = some u ∧ Along step guard s (actions.take n) ∧
      actions[n]? = some a ∧ ¬ guard u a := by
  induction actions generalizing s with
  | nil => exact absurd trivial broken
  | cons a rest ih =>
    by_cases here : guard s a
    · simp only [Along, here, true_and, not_forall] at broken
      obtain ⟨t, stepped, later⟩ := broken
      obtain ⟨n, u, b, reached, along, found, fails⟩ := ih later
      refine ⟨n + 1, u, b, by simp [run, stepped, reached], ⟨here, fun other same => ?_⟩,
        by simpa using found, fails⟩
      obtain rfl := Option.some.inj (stepped.symm.trans same)
      exact along
    · exact ⟨0, s, a, rfl, trivial, rfl, here⟩

theorem Along.guard {guard : S → A → Prop} {s u : S} {actions : List A} {n : Nat} {a : A}
    (along : Along step guard s actions) (reached : run step s (actions.take n) = some u)
    (found : actions[n]? = some a) : guard u a := by
  induction actions generalizing s n with
  | nil => simp at found
  | cons first rest ih =>
    cases n with
    | zero =>
      obtain rfl := Option.some.inj reached
      obtain rfl := Option.some.inj found
      exact along.1
    | succ n =>
      obtain ⟨t, stepped, reached⟩ := run_cons.mp reached
      exact ih (along.2 t stepped) reached (by simpa using found)

instance decidableAlways (holds : S → Prop) [DecidablePred holds] :
    (s : S) → (actions : List A) → Decidable (Always step holds s actions)
  | s, [] => inferInstanceAs (Decidable (holds s))
  | s, a :: rest =>
    match stepped : step s a with
    | none => decidable_of_iff (holds s) (by simp [Always, stepped])
    | some t =>
      have := decidableAlways holds t rest
      decidable_of_iff (holds s ∧ Always step holds t rest) (by simp [Always, stepped])

instance decidableAlong (guard : S → A → Prop) [∀ s a, Decidable (guard s a)] :
    (s : S) → (actions : List A) → Decidable (Along step guard s actions)
  | _, [] => inferInstanceAs (Decidable True)
  | s, a :: rest =>
    match stepped : step s a with
    | none => decidable_of_iff (guard s a) (by simp [Along, stepped])
    | some t =>
      have := decidableAlong guard t rest
      decidable_of_iff (guard s a ∧ Along step guard t rest) (by simp [Along, stepped])

/-- A guard that, along a run, is the same thing as the predicate holding after the step is the
exact condition for the predicate to hold in every state of the run. -/
theorem always_iff_along {inv holds : S → Prop} {guard : S → A → Prop}
    (decides : ∀ s a t, inv s → inv t → holds s → step s a = some t → (holds t ↔ guard s a))
    (vacuous : ∀ s a, step s a = none → guard s a)
    {s : S} {actions : List A} (kept : Always step inv s actions) (start : holds s) :
    Always step holds s actions ↔ Along step guard s actions := by
  induction actions generalizing s with
  | nil => simpa [Always, Along] using start
  | cons a rest ih =>
    simp only [Always, Along]
    cases stepped : step s a with
    | none => simp [start, vacuous s a stepped]
    | some t =>
      have tail := kept.2 t stepped
      have next := decides s a t kept.head tail.head start stepped
      simp only [Option.some.injEq, forall_eq']
      constructor
      · rintro ⟨-, always⟩
        exact ⟨next.mp always.head, (ih tail always.head).mp always⟩
      · rintro ⟨met, along⟩
        exact ⟨start, (ih tail (next.mpr met)).mpr along⟩

theorem always_iff_along_self {holds : S → Prop} {guard : S → A → Prop}
    (decides : ∀ s a t, holds s → step s a = some t → (holds t ↔ guard s a))
    (vacuous : ∀ s a, step s a = none → guard s a) {s : S} {actions : List A} (start : holds s) :
    Always step holds s actions ↔ Along step guard s actions :=
  always_iff_along (fun s a t (_ : True) (_ : True) before stepped => decides s a t before stepped) vacuous
    (always (fun _ _ _ _ _ => trivial) actions trivial) start

end Transition
