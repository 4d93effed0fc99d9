import PgMux.Backend.Slices
import PgMux.Pool.Reconciliation

set_option autoImplicit false

namespace PgMux

theorem Task.panicWeight_counts : Counts panicWeight := by
  intro task weightless
  cases task <;> simp_all [Weightless, panicWeight]

inductive FedAction where
  -- Whatever the pools do but the end of a connect.
  | act (a : Action)
  -- The bytes that the server sends in a connect, or the error of the connect itself or of a write.
  | connect (i : Nat) (backend : Except String (List (Except String Bytes)))

def Action.panics : Action → Nat
  | .connected _ (.error .panic) => 1
  | _ => 0

namespace System

open PoolManager Transition

theorem Polled.panicWeight {cfg : PoolConfig} {now : Instant} {call : AcquireCall} {m after : PoolManager}
    {task : Task} (polled : Polled cfg now call m after task) : task.panicWeight = 0 := by
  cases polled with
  | reuse conn rest n fresh dropped => rfl
  | start after empty room alike => rfl
  | wait after task empty full alike away => exact Task.panicWeight_counts _ away.weightless

theorem panics_set {s : System} {i : Nat} {old : Task} (new : Task) (here : s.tasks[i]? = some old)
    (alive : old.panicWeight = 0) :
    Tally.overList Task.panicWeight (s.tasks.set i new) = s.panics + new.panicWeight := by
  have balance := Tally.overList_set Task.panicWeight new here
  rwa [alive] at balance

theorem resume_panics {cfg : PoolConfig} {s : System} {i : Nat} {old : Task} (here : s.tasks[i]? = some old)
    (alive : old.panicWeight = 0) (call : AcquireCall) (deadline : Instant) (m : PoolManager) :
    (s.resume cfg i call deadline m).panics = s.panics := by
  have polled := panics_set (acquireLoop cfg s.now i call deadline 2 m).2 here alive
  rwa [(acquireLoop_polled cfg s.now i call deadline 1 m).panicWeight] at polled

theorem notifyOne_panics (s : System) (key : PoolKey) : (s.notifyOne key).panics = s.panics := by
  rw [notifyOne]
  split
  · exact Task.panicWeight_counts.notify s.tasks _
  · rfl

theorem step_panics {cfg : PoolConfig} {s t : System} {a : Action} (stepped : step cfg s a = some t) :
    t.panics = s.panics + a.panics := by
  cases step_steps stepped with
  | tick elapsed => rfl
  | call call => exact Task.panicWeight_counts.spawn s.tasks call
  | begin i call here => exact resume_panics here rfl call _ _
  | wake i call deadline here => exact resume_panics here rfl call deadline _
  | expire i call deadline notified here late =>
    have left : (s.leaving i call).panics = s.panics := panics_set _ here rfl
    rw [timeOut_eq]
    split
    · exact (notifyOne_panics _ call.key).trans left
    · exact left
  | push i call stream here => exact (notifyOne_panics _ call.key).trans (panics_set _ here rfl)
  | refused i call error here returns =>
    have fine : Action.panics (.connected i (.error error)) = 0 := by
      rw [Action.panics]
      simpa using returns
    rw [fine]
    exact panics_set _ here rfl
  | connected i call here | panicked i call here | release i call stream pool here present
  | lost i call stream here gone | drop i call stream cause here => exact panics_set _ here rfl

variable (lib : PgProtocol)

-- What `connect_backend` returns, if it has.
def connectEnds (call : AcquireCall) :
    Except String (List (Except String Bytes)) → Option (Except ConnectError Unit)
  | .error cause => some (.error (.io cause))
  | .ok reads =>
    (run (Connect.step lib call.key.user call.password) {} reads).bind fun c =>
      match c.core.stage with
      | .returned result => some result
      | _ => none

def fedStep (cfg : PoolConfig) (s : System) : FedAction → Option System
  | .act (.connected _ _) => none
  | .act a => step cfg s a
  | .connect i backend =>
    match s.tasks[i]? with
    | some (.connecting call) =>
      (connectEnds lib call backend).bind fun result => step cfg s (.connected i result)
    | _ => none

/-- While `connect_backend` awaits a message of SCRAM, the server sends no authentication message that is too
short for its code. -/
def LongHandshakes (s : System) : FedAction → Prop
  | .connect i (.ok reads) => ∀ call c, s.tasks[i]? = some (.connecting call) →
      run (Connect.step lib call.key.user call.password) {} reads = some c →
        Along (Connect.step lib call.key.user call.password) Connect.LongEnough {} reads
  | _ => True

variable {lib}

theorem connectEnds_panic_iff {call : AcquireCall} {reads : List (Except String Bytes)}
    {result : Except ConnectError Unit} (ends : connectEnds lib call (.ok reads) = some result) :
    result = .error .panic ↔
      ¬ Along (Connect.step lib call.key.user call.password) Connect.LongEnough {} reads := by
  obtain ⟨c, ran, ends⟩ := Option.bind_eq_some_iff.mp ends
  rw [← Connect.panics_iff ran]
  split at ends
  · rename_i returned stage
    rw [stage, ← Option.some.inj ends]
    simp
  · cases ends

theorem fedStep_step {cfg : PoolConfig} {s t : System} {a : FedAction} (stepped : fedStep lib cfg s a = some t) :
    ∃ b, step cfg s b = some t ∧ (LongHandshakes lib s a ↔ b.panics = 0) := by
  cases a with
  | act a =>
    refine ⟨a, ?_, ?_⟩
    · cases a with
      | connected i result => cases stepped
      | _ => exact stepped
    · cases a with
      | connected i result => cases stepped
      | _ => simp [LongHandshakes, Action.panics]
  | connect i backend =>
    simp only [fedStep] at stepped
    split at stepped
    · rename_i call here
      obtain ⟨result, ends, stepped⟩ := Option.bind_eq_some_iff.mp stepped
      refine ⟨_, stepped, ?_⟩
      cases backend with
      | error cause =>
        obtain rfl := Option.some.inj ends
        simp [LongHandshakes, Action.panics]
      | ok reads =>
        have panics : Action.panics (.connected i result) = 0 ↔ result ≠ .error .panic := by
          rcases result with error | ⟨⟩
          · cases error <;> simp [Action.panics]
          · simp [Action.panics]
        obtain ⟨c, ran, -⟩ := Option.bind_eq_some_iff.mp ends
        rw [panics, Ne, connectEnds_panic_iff ends, not_not]
        constructor
        · intro long
          exact long call c here ran
        · rintro along other d there -
          obtain rfl : call = other := by simpa [here] using there
          exact along
    · cases stepped

theorem fedStep_booked {cfg : PoolConfig} (s : System) (a : FedAction) (t : System) (before : s.Booked)
    (stepped : fedStep lib cfg s a = some t) : t.Booked := by
  obtain ⟨b, stepped, -⟩ := fedStep_step stepped
  exact step_booked s b t before stepped

theorem fedStep_reconciles_iff {cfg : PoolConfig} (s : System) (a : FedAction) (t : System) (booked : s.Booked)
    (after : t.Booked) (before : s.MetricsReconcile) (stepped : fedStep lib cfg s a = some t) :
    t.MetricsReconcile ↔ LongHandshakes lib s a := by
  obtain ⟨b, stepped, long⟩ := fedStep_step stepped
  rw [long, after.reconciles_iff, step_panics stepped, booked.reconciles_iff.mp before, Nat.zero_add]

theorem longHandshakes_disabled {cfg : PoolConfig} (s : System) (a : FedAction)
    (stuck : fedStep lib cfg s a = none) : LongHandshakes lib s a := by
  rcases a with a | ⟨i, cause | reads⟩
  · trivial
  · trivial
  · intro call c here ran
    by_contra short
    have panicked := (Connect.panics_iff ran).mpr short
    have ends : connectEnds lib call (.ok reads) = some (.error .panic) := by
      simp [connectEnds, ran, panicked]
    simp [fedStep, here, ends, step] at stuck

/-- A connect that panics has been counted as a miss, and never becomes a connection or an error. -/
theorem metrics_reconcile_iff (lib : PgProtocol) (cfg : PoolConfig) (actions : List FedAction) :
    Always (fedStep lib cfg) MetricsReconcile {} actions ↔
      Along (fedStep lib cfg) (LongHandshakes lib) {} actions :=
  always_iff_along fedStep_reconciles_iff longHandshakes_disabled
    (always fedStep_booked actions ⟨rfl, rfl, rfl⟩) ⟨rfl, rfl, rfl⟩

-- The server answers the first SCRAM message with an authentication message that has no code.
def shortAnswer : List FedAction :=
  [.act (.call ⟨⟨"localhost", 5432, "testdb", "app"⟩, "foobar", []⟩), .act (.poll 0),
    .connect 0 (.ok Connect.shortServer)]

theorem not_metricsReconcile_shortAnswer :
    ¬ ∀ lib cfg actions, Always (fedStep lib cfg) MetricsReconcile {} actions := by
  intro reconcile
  obtain ⟨s, reached, missed⟩ : ∃ s, run (fedStep Connect.oneExchange {}) {} shortAnswer = some s ∧
      (s.manager.metrics.poolMissesTotal = 1 ∧ s.connects = 0 ∧
        s.manager.metrics.serverConnectionsTotal + s.manager.metrics.serverConnectionErrorsTotal = 0) :=
    exists_run (by decide)
  have misses := ((reconcile Connect.oneExchange {} shortAnswer).last reached).misses
  omega

end System

end PgMux
