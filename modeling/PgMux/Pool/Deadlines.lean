import PgMux.Pool.FailedAcquire
import PgMux.Pool.IdleQueue
import PgMux.Shared.History

set_option autoImplicit false

namespace PgMux

namespace Task

def due : Task → Option (AcquireCall × Instant)
  | .waiting call deadline _ => some (call, deadline)
  | _ => none

def failure : Task → Option (AcquireCall × AcquireError)
  | .failed call error => some (call, error)
  | _ => none

theorem eq_of_failure {task : Task} {call : AcquireCall} {error : AcquireError}
    (fails : task.failure = some (call, error)) : task = .failed call error := by
  cases task with
  | failed other cause =>
    obtain ⟨rfl, rfl⟩ : other = call ∧ cause = error := by simpa [failure] using fails
    rfl
  | _ => cases fails

theorem due_notify (task : Task) : task.notify.due = task.due := by
  cases task <;> rfl

theorem failure_notify (task : Task) : task.notify.failure = task.failure := by
  cases task <;> rfl

end Task

namespace System

open PoolManager Transition

def due (s : System) (i : Nat) : Option (AcquireCall × Instant) := s.tasks[i]?.bind Task.due

def failure (s : System) (i : Nat) : Option (AcquireCall × AcquireError) := s.tasks[i]?.bind Task.failure

-- When each `acquire` was polled for the first time.
def begins (s : System) (a : Action) (_ : System) : List (Nat × Instant) :=
  match a with
  | .poll i =>
    match s.tasks[i]? with
    | some (.called _) => [(i, s.now)]
    | _ => []
  | _ => []

def Reached (cfg : PoolConfig) (m : PoolManager) (key : PoolKey) : AcquireError → Prop
  | .globalLimit => (m.pool key).idle = [] ∧ cfg.maxTotalConnections ≤ m.totalServerConnections.value
  | .perPoolLimit => (m.pool key).idle = [] ∧ m.totalServerConnections.value < cfg.maxTotalConnections ∧
      cfg.maxConnectionsPerPool ≤ (m.pool key).activeCount.value
  | _ => False

theorem bail_reached {cfg : PoolConfig} {m : PoolManager} {key : PoolKey} {error : AcquireError} (other : AcquireError)
    (reached : Reached cfg m key error) : Reached cfg (m.bail key other).1 key error := by
  have alike := alike_bail m key other
  cases error <;> simp_all [Reached, alike.idle, alike.active, alike.total]

theorem checkCapacity_bail {cfg : PoolConfig} {now : Instant} {key : PoolKey} {deadline : Instant} {m after : PoolManager}
    {error : AcquireError} (empty : (m.pool key).idle = [])
    (bailed : checkCapacity cfg now key deadline m = (after, .bail error)) :
    deadline ≤ now ∧ Reached cfg after key error := by
  simp only [checkCapacity, empty, List.length_nil, Nat.add_zero] at bailed
  split_ifs at bailed with full late busy late
  · obtain ⟨rfl, rfl⟩ : after = (m.bail key .globalLimit).1 ∧ error = .globalLimit := by
      simpa [PoolManager.bail, eq_comm] using bailed
    exact ⟨late, bail_reached _ ⟨empty, full⟩⟩
  · simp at bailed
  · obtain ⟨rfl, rfl⟩ : after = (m.bail key .perPoolLimit).1 ∧ error = .perPoolLimit := by
      simpa [PoolManager.bail, eq_comm] using bailed
    exact ⟨late, bail_reached _ ⟨empty, by omega, busy⟩⟩
  · simp at bailed
  · simp at bailed

theorem attempt_bail {cfg : PoolConfig} {now : Instant} {key : PoolKey} {deadline : Instant} {m after : PoolManager}
    {error : AcquireError} (bailed : attempt cfg now key deadline m = (after, .bail error)) :
    deadline ≤ now ∧ Reached cfg after key error := by
  rw [attempt_eq] at bailed
  have kept := drop_takeWhile_length (expired cfg now) (m.pool key).idle
  cases fresh : (m.pool key).idle.dropWhile (expired cfg now) with
  | cons conn rest => simp [fresh] at bailed
  | nil =>
    simp only [fresh] at bailed
    refine checkCapacity_bail ?_ bailed
    rw [evict_idle, if_pos rfl, kept, fresh]

theorem acquireLoop_failed {cfg : PoolConfig} {now : Instant} {i : Nat} {call other : AcquireCall} {deadline : Instant}
    {fuel : Nat} {m after : PoolManager} {error : AcquireError}
    (ran : acquireLoop cfg now i call deadline fuel m = (after, .failed other error)) :
    other = call ∧ deadline ≤ now ∧ Reached cfg after call.key error := by
  induction fuel generalizing m with
  | zero => simp [acquireLoop, park] at ran
  | succ fuel ih =>
    simp only [acquireLoop] at ran
    rcases pass : attempt cfg now call.key deadline m with ⟨n, stream | _ | _ | cause⟩
    · simp [pass] at ran
    · simp [pass] at ran
    · simp only [pass] at ran
      split at ran
      · exact ih ran
      · simp [park] at ran
    · simp only [pass, Prod.mk.injEq, Task.failed.injEq] at ran
      obtain ⟨rfl, rfl, rfl⟩ := ran
      exact ⟨rfl, attempt_bail pass⟩

theorem acquireLoop_due {cfg : PoolConfig} {now : Instant} {i : Nat} {call other : AcquireCall}
    {deadline later : Instant} {fuel : Nat} {m : PoolManager}
    (waits : (acquireLoop cfg now i call deadline fuel m).2.due = some (other, later)) :
    other = call ∧ later = deadline := by
  induction fuel generalizing m with
  | zero => simpa [acquireLoop, park, Task.due, eq_comm] using waits
  | succ fuel ih =>
    simp only [acquireLoop] at waits
    split at waits
    · cases waits
    · cases waits
    · cases waits
    · split at waits
      · exact ih waits
      · simpa [park, Task.due, eq_comm] using waits

theorem due_set {s t : System} {i : Nat} {old : Task} (new : Task) (here : s.tasks[i]? = some old)
    (tasks : t.tasks = s.tasks.set i new) (j : Nat) : t.due j = if j = i then new.due else s.due j :=
  view_set Task.due new here tasks j

theorem due_of_settled {s t : System} {i j : Nat} {old : Task} (new : Task) (here : s.tasks[i]? = some old)
    (tasks : t.tasks = s.tasks.set i new) (free : new.due = none) {waiting : AcquireCall × Instant}
    (waits : t.due j = some waiting) : s.due j = some waiting := by
  rw [due_set new here tasks, free] at waits
  split at waits
  · cases waits
  · exact waits

theorem due_notifyOne (s : System) (key : PoolKey) (j : Nat) : (s.notifyOne key).due j = s.due j :=
  view_notifyOne Task.due_notify s key j

theorem step_due {cfg : PoolConfig} {s t : System} {a : Action} (stepped : step cfg s a = some t) {j : Nat}
    {call : AcquireCall} {deadline : Instant} (waits : t.due j = some (call, deadline)) :
    s.due j = some (call, deadline) ∨
      s.begins a t = [(j, s.now)] ∧ deadline = s.now + fromMillis cfg.acquireTimeoutMs := by
  cases step_steps stepped with
  | begin i other here =>
    rw [due_set _ here (resume_tasks cfg s i other _ _)] at waits
    split at waits
    · rename_i at_i
      subst at_i
      exact .inr ⟨by simp only [begins, here], (acquireLoop_due waits).2⟩
    · exact .inl waits
  | wake i other later here =>
    rw [due_set _ here (resume_tasks cfg s i other _ _)] at waits
    split at waits
    · rename_i at_i
      subst at_i
      obtain ⟨rfl, rfl⟩ := acquireLoop_due waits
      exact .inl (by simp [due, here, Task.due])
    · exact .inl waits
  | tick elapsed => exact .inl waits
  | call other =>
    left
    simp only [due, List.getElem?_append] at waits
    split at waits
    · exact waits
    · rw [List.getElem?_singleton] at waits
      split at waits <;> cases waits
  | expire i other later notified here late =>
    left
    rw [timeOut_eq] at waits
    split at waits
    · rw [due_notifyOne] at waits
      exact due_of_settled (t := s.leaving i other) _ here rfl rfl waits
    · exact due_of_settled (t := s.leaving i other) _ here rfl rfl waits
  | push i other stream here =>
    left
    rw [due_notifyOne] at waits
    exact due_of_settled (t := { s with
      manager := s.manager.pushIdle other.key stream s.now
      tasks := s.tasks.set i (.released other) }) _ here rfl rfl waits
  | connected i other here | refused i other cause here | panicked i other here
  | release i other stream pool here present | lost i other stream here gone | drop i other stream cause here =>
    exact .inl (due_of_settled _ here rfl rfl waits)

def Timed (cfg : PoolConfig) (s : System) (events : List (Nat × Instant)) : Prop :=
  ∀ i call deadline, s.due i = some (call, deadline) →
    ∃ start, (i, start) ∈ events ∧ deadline = start + fromMillis cfg.acquireTimeoutMs

theorem step_timed {cfg : PoolConfig} (s : System) (a : Action) (t : System) (events : List (Nat × Instant))
    (timed : s.Timed cfg events) (stepped : step cfg s a = some t) : t.Timed cfg (events ++ s.begins a t) := by
  intro i call deadline waits
  rcases step_due stepped waits with before | ⟨begun, set⟩
  · obtain ⟨start, member, same⟩ := timed i call deadline before
    exact ⟨start, List.mem_append_left _ member, same⟩
  · exact ⟨s.now, by simp [begun], set⟩

theorem run_timed {cfg : PoolConfig} {actions : List Action} {r : Recorded System (Nat × Instant)}
    (ran : run (recorded (step cfg) begins) ⟨{}, []⟩ actions = some r) : r.state.Timed cfg r.events := by
  have start : Timed cfg {} [] := by
    intro i call deadline waits
    simp [due] at waits
  exact (always_history_self step_timed start actions).last ran

/-- What an error stands for. The timeouts come when the time is over, and the error names the limit that is
reached then; a connect fails for the reason the backend gave. -/
def Justified (cfg : PoolConfig) (events : List (Nat × Instant)) (a : Action) (t : System) (i : Nat)
    (call : AcquireCall) : AcquireError → Prop
  | .connect key cause =>
    key = call.key ∧ ∃ error, error ≠ .panic ∧ a = .connected i (.error error) ∧ cause = error.text
  | error => (∃ start, (i, start) ∈ events ∧ start + fromMillis cfg.acquireTimeoutMs ≤ t.now) ∧
      (error = .timeout ∧ a = .expire i ∨ Reached cfg t.manager call.key error)

theorem justified_reached {cfg : PoolConfig} {events : List (Nat × Instant)} {a : Action} {t : System} {i : Nat}
    {call : AcquireCall} {error : AcquireError}
    (late : ∃ start, (i, start) ∈ events ∧ start + fromMillis cfg.acquireTimeoutMs ≤ t.now)
    (reached : Reached cfg t.manager call.key error) : Justified cfg events a t i call error := by
  cases error with
  | connect key cause => exact absurd reached id
  | _ => exact ⟨late, .inr reached⟩

theorem failure_notifyOne (s : System) (key : PoolKey) (j : Nat) : (s.notifyOne key).failure j = s.failure j :=
  view_notifyOne Task.failure_notify s key j

theorem failure_of_set {s t : System} {i j : Nat} {old : Task} (new : Task) (here : s.tasks[j]? = some old)
    (tasks : t.tasks = s.tasks.set j new) {why : AcquireCall × AcquireError} (before : s.failure i = none)
    (failed : t.failure i = some why) : i = j ∧ new.failure = some why := by
  rw [failure, view_set Task.failure new here tasks] at failed
  split at failed
  · exact ⟨by assumption, failed⟩
  · rw [failure] at before
    rw [before] at failed
    cases failed

theorem failures_justified {cfg : PoolConfig} {actions : List Action} {r u : Recorded System (Nat × Instant)} {a : Action}
    (ran : run (recorded (step cfg) begins) ⟨{}, []⟩ actions = some r)
    (stepped : recorded (step cfg) begins r a = some u) {i : Nat} {call : AcquireCall} {error : AcquireError}
    (before : r.state.failure i = none) (failed : u.state.failure i = some (call, error)) :
    Justified cfg u.events a u.state i call error := by
  have timed := run_timed ran
  obtain ⟨t, moved, rfl⟩ := recorded_cases stepped
  generalize r.state = s at *
  cases step_steps moved with
  | begin j other here =>
    obtain ⟨rfl, same⟩ := failure_of_set _ here (resume_tasks cfg s j other _ _) before failed
    obtain ⟨rfl, late, reached⟩ := acquireLoop_failed (Prod.ext rfl (Task.eq_of_failure same))
    refine justified_reached ⟨s.now, ?_, late⟩ reached
    simp [begins, here]
  | wake j other deadline here =>
    obtain ⟨rfl, same⟩ := failure_of_set _ here (resume_tasks cfg s j other _ _) before failed
    obtain ⟨rfl, late, reached⟩ := acquireLoop_failed (Prod.ext rfl (Task.eq_of_failure same))
    obtain ⟨start, member, set⟩ := timed i call deadline (by simp [due, here, Task.due])
    refine justified_reached ⟨start, List.mem_append_left _ member, ?_⟩ reached
    rwa [← set]
  | expire j other deadline notified here late =>
    have left : (s.leaving j other).failure i = some (call, error) := by
      simp only [timeOut_eq] at failed
      split at failed
      · rwa [failure_notifyOne] at failed
      · exact failed
    obtain ⟨rfl, same⟩ := failure_of_set _ here rfl before left
    obtain ⟨rfl, rfl⟩ : other = call ∧ AcquireError.timeout = error := by simpa [Task.failure] using same
    obtain ⟨start, member, set⟩ := timed i other deadline (by simp [due, here, Task.due])
    refine ⟨⟨start, List.mem_append_left _ member, ?_⟩, .inl ⟨rfl, rfl⟩⟩
    rw [← set]
    exact late.trans (step_now moved)
  | refused j other cause here returns =>
    obtain ⟨rfl, same⟩ := failure_of_set _ here rfl before failed
    obtain ⟨rfl, rfl⟩ : other = call ∧ AcquireError.connect other.key cause.text = error := by
      simpa [Task.failure] using same
    exact ⟨rfl, cause, returns, rfl, rfl⟩
  | tick elapsed => exact absurd (before.symm.trans failed) (by simp)
  | call other =>
    rw [failure] at before
    simp only [failure, List.getElem?_append] at failed
    split at failed
    · exact absurd (before.symm.trans failed) (by simp)
    · rw [List.getElem?_singleton] at failed
      split at failed <;> cases failed
  | push j other stream here =>
    rw [failure_notifyOne] at failed
    cases (failure_of_set (t := { s with
      manager := s.manager.pushIdle other.key stream s.now
      tasks := s.tasks.set j (.released other) }) _ here rfl before failed).2
  | connected j other here | panicked j other here | release j other stream pool here present
  | lost j other stream here gone | drop j other stream cause here =>
    cases (failure_of_set _ here rfl before failed).2

-- The only connection there may be is held for too long, and the caller that waits for it gives up.
def waitedInVain : List Action :=
  [.call (tenant "testdb"), .call (tenant "testdb"), .poll 0, .connected 0 (.ok ()), .tick 7, .poll 1,
    .tick (fromMillis 5000)]

theorem failures_justified_waitedInVain : ∃ r u,
    run (recorded (step { maxTotalConnections := 1, acquireTimeoutMs := 5000 }) begins) ⟨{}, []⟩ waitedInVain = some r ∧
      recorded (step { maxTotalConnections := 1, acquireTimeoutMs := 5000 }) begins r (.expire 1) = some u ∧
      Justified { maxTotalConnections := 1, acquireTimeoutMs := 5000 } u.events (.expire 1) u.state 1
        (tenant "testdb") .timeout := by
  obtain ⟨r, ran, before, enabled⟩ : ∃ r,
      run (recorded (step { maxTotalConnections := 1, acquireTimeoutMs := 5000 }) begins) ⟨{}, []⟩ waitedInVain =
          some r ∧ r.state.failure 1 = none ∧
        (recorded (step { maxTotalConnections := 1, acquireTimeoutMs := 5000 }) begins r (.expire 1)).any
          (fun u => decide (u.state.failure 1 = some (tenant "testdb", .timeout))) = true :=
    exists_run (by decide)
  obtain ⟨u, stepped, failed⟩ := (Option.any_eq_true _ _).mp enabled
  exact ⟨r, u, ran, stepped, failures_justified ran stepped before (of_decide_eq_true failed)⟩

end System

end PgMux
