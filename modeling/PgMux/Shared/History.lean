import PgMux.Shared.Transition

set_option autoImplicit false

/-!
# Runs with a history

A system, with the events that its steps emit. The history grows at its end and has no say in what the
system does, so the runs are those of the system.
-/

namespace Transition

structure Recorded (S E : Type) where
  state : S
  events : List E := []

variable {S A E : Type} {step : S → A → Option S} {emits : S → A → S → List E}

def recorded (step : S → A → Option S) (emits : S → A → S → List E) (r : Recorded S E) (a : A) :
    Option (Recorded S E) :=
  (step r.state a).map fun t => ⟨t, r.events ++ emits r.state a t⟩

theorem recorded_cases {r u : Recorded S E} {a : A} (stepped : recorded step emits r a = some u) :
    ∃ t, step r.state a = some t ∧ u = ⟨t, r.events ++ emits r.state a t⟩ := by
  obtain ⟨t, ran, same⟩ := Option.map_eq_some_iff.mp stepped
  exact ⟨t, ran, same.symm⟩

theorem Always.recorded {holds : S → Prop} {s : S} {actions : List A} (always : Always step holds s actions)
    (events : List E) :
    Always (recorded step emits) (fun r => holds r.state) ⟨s, events⟩ actions := by
  induction actions generalizing s events with
  | nil => exact always
  | cons a rest ih =>
    refine ⟨always.1, fun u stepped => ?_⟩
    obtain ⟨t, ran, rfl⟩ := recorded_cases stepped
    exact ih (always.2 t ran) _

theorem Always.of_recorded {holds : S → Prop} {s : S} {actions : List A} {events : List E}
    (always : Always (Transition.recorded step emits) (fun r => holds r.state) ⟨s, events⟩ actions) :
    Always step holds s actions := by
  induction actions generalizing s events with
  | nil => exact always
  | cons a rest ih =>
    refine ⟨always.1, fun t ran => ?_⟩
    have stepped : Transition.recorded step emits ⟨s, events⟩ a = some ⟨t, events ++ emits s a t⟩ := by
      simp [Transition.recorded, ran]
    exact ih (always.2 _ stepped)

/-- A relation between the state and the history that each step keeps, with the help of an invariant of
the system. -/
theorem always_history {inv : S → Prop} {related : S → List E → Prop}
    (kept : ∀ s a t events, inv s → inv t → related s events → step s a = some t → related t (events ++ emits s a t))
    {s : S} {actions : List A} (always : Always step inv s actions) {events : List E} (start : related s events) :
    Always (Transition.recorded step emits) (fun r => related r.state r.events) ⟨s, events⟩ actions := by
  refine Always.also ?_ (always.recorded events) start
  intro r a u now later before stepped
  obtain ⟨t, ran, rfl⟩ := recorded_cases stepped
  exact kept r.state a t r.events now later before ran

theorem always_history_self {related : S → List E → Prop}
    (kept : ∀ s a t events, related s events → step s a = some t → related t (events ++ emits s a t)) {s : S}
    {events : List E} (start : related s events) (actions : List A) :
    Always (Transition.recorded step emits) (fun r => related r.state r.events) ⟨s, events⟩ actions := by
  refine always ?_ actions start
  intro r a u before stepped
  obtain ⟨t, ran, rfl⟩ := recorded_cases stepped
  exact kept r.state a t r.events before ran

theorem recorded_simulates {T B : Type} {other : T → B → Option T} {does : S → A → S → List B}
    {related : S → T → Prop}
    (follows : ∀ s a t u, related s u → step s a = some t → ∃ v, run other u (does s a t) = some v ∧ related t v)
    {s : S} {u : T} (start : related s u) (actions : List A) :
    Always (Transition.recorded step does) (fun r => ∃ v, run other u r.events = some v ∧ related r.state v)
      ⟨s, []⟩ actions := by
  have kept (s : S) (a : A) (t : S) (events : List B) (before : ∃ v, run other u events = some v ∧ related s v)
      (stepped : step s a = some t) : ∃ v, run other u (events ++ does s a t) = some v ∧ related t v := by
    obtain ⟨v, ran, before⟩ := before
    obtain ⟨w, more, after⟩ := follows s a t v before stepped
    exact ⟨w, run_append.mpr ⟨v, ran, more⟩, after⟩
  exact always_history_self kept ⟨u, rfl, start⟩ actions

end Transition
