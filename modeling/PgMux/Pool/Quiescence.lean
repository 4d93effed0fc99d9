import PgMux.Pool.FailedAcquire
import PgMux.Pool.Waiters

set_option autoImplicit false

namespace PgMux

namespace Task

/-- How many steps a caller can still take, with the steps that it may give to others by waking them. -/
def rank : Task → Nat
  | .called _ => 6
  | .waiting _ _ true => 5
  | .waiting _ _ false => 4
  | .connecting _ => 4
  | .holding _ _ => 3
  | .resetting _ _ => 2
  | .failed _ _ => 0
  | .released _ => 0
  | .panicked _ => 0

def Over : Task → Prop
  | .failed _ _ | .released _ | .panicked _ => True
  | _ => False

theorem rank_notify (task : Task) : task.notify.rank ≤ task.rank + 1 := by
  cases task with
  | waiting call deadline notified => cases notified <;> simp [notify, rank]
  | _ => exact Nat.le_succ _

end Task

namespace Action

def working : Action → Bool
  | .tick _ | .call _ => false
  | _ => true

def calling : Action → Bool
  | .call _ => true
  | _ => false

/-- Nobody new calls, and connects and resets come out as given, for each caller. -/
def Follows (connects : Nat → Except ConnectError Unit) (resets : Nat → Except String Unit) : Action → Prop
  | .call _ => False
  | .connected i result => result = connects i
  | .reset i result => result = resets i
  | _ => True

end Action

namespace System

open PoolManager Transition

def rank (s : System) : Nat := Tally.overList Task.rank s.tasks

theorem overList_modify_le {A : Type} {weight : A → Nat} {change : A → A} (list : List A) (i : Nat)
    (little : ∀ a, weight (change a) ≤ weight a + 1) :
    Tally.overList weight (list.modify i change) ≤ Tally.overList weight list + 1 := by
  induction list generalizing i with
  | nil => simp
  | cons head tail ih =>
    cases i with
    | zero =>
      have first := little head
      simp only [Tally.overList, List.modify_zero_cons, List.map_cons, List.sum_cons]
      omega
    | succ i =>
      have rest := ih i
      simp only [Tally.overList, List.modify_succ_cons, List.map_cons, List.sum_cons] at rest ⊢
      omega

theorem rank_notifyOne (s : System) (key : PoolKey) : (s.notifyOne key).rank ≤ s.rank + 1 := by
  rw [notifyOne]
  split
  · exact overList_modify_le s.tasks _ Task.rank_notify
  · exact Nat.le_succ _

theorem rank_set {s t : System} {i : Nat} {old : Task} (new : Task) (here : s.tasks[i]? = some old)
    (tasks : t.tasks = s.tasks.set i new) : t.rank + old.rank = s.rank + new.rank := by
  rw [rank, tasks]
  exact Tally.overList_set Task.rank new here

theorem rank_set_less {s t : System} {i : Nat} {old : Task} (new : Task) (here : s.tasks[i]? = some old)
    (tasks : t.tasks = s.tasks.set i new) (less : new.rank + 1 ≤ old.rank) : t.rank + 1 ≤ s.rank := by
  have balance := rank_set new here tasks
  omega

-- Waking another caller costs less than what ends with it.
theorem rank_notifyOne_less {s t : System} {i : Nat} {old : Task} (new : Task) (here : s.tasks[i]? = some old)
    (tasks : t.tasks = s.tasks.set i new) (less : new.rank + 2 ≤ old.rank) (key : PoolKey) :
    (t.notifyOne key).rank + 1 ≤ s.rank := by
  have balance := rank_set new here tasks
  have told := rank_notifyOne t key
  omega

theorem acquireLoop_rank (cfg : PoolConfig) (now : Instant) (i : Nat) (call : AcquireCall) (deadline : Instant)
    (fuel : Nat) (m : PoolManager) : (acquireLoop cfg now i call deadline fuel m).2.rank ≤ 4 := by
  induction fuel generalizing m with
  | zero => exact Nat.le_refl 4
  | succ fuel ih =>
    simp only [acquireLoop]
    split
    · exact Nat.le_succ 3
    · exact Nat.le_refl 4
    · exact Nat.zero_le 4
    · split
      · exact ih _
      · exact Nat.le_refl 4

theorem resume_rank (cfg : PoolConfig) {s : System} {i : Nat} {old : Task} (call : AcquireCall) (deadline : Instant)
    (m : PoolManager) (here : s.tasks[i]? = some old) (more : 5 ≤ old.rank) :
    (s.resume cfg i call deadline m).rank + 1 ≤ s.rank := by
  refine rank_set_less _ here (resume_tasks cfg s i call deadline m) ?_
  exact (Nat.succ_le_succ (acquireLoop_rank cfg s.now i call deadline 2 m)).trans more

theorem step_rank {cfg : PoolConfig} {s t : System} {a : Action} (works : a.working = true)
    (stepped : step cfg s a = some t) : t.rank + 1 ≤ s.rank := by
  cases step_steps stepped with
  | tick elapsed | call call => cases works
  | begin i call here => exact resume_rank cfg call _ _ here (Nat.le_succ 5)
  | wake i call deadline here => exact resume_rank cfg call deadline _ here (Nat.le_refl 5)
  | expire i call deadline notified here late =>
    rw [timeOut_eq]
    cases notified with
    | true =>
      exact rank_notifyOne_less (t := s.leaving i call) (.failed call .timeout) here rfl (by simp [Task.rank]) call.key
    | false =>
      exact rank_set_less (t := s.leaving i call) (.failed call .timeout) here rfl (by simp [Task.rank])
  | connected i call here => exact rank_set_less _ here rfl (Nat.le_refl 4)
  | refused i call error here => exact rank_set_less _ here rfl (by simp [Task.rank])
  | panicked i call here => exact rank_set_less _ here rfl (by simp [Task.rank])
  | release i call stream pool here present => exact rank_set_less _ here rfl (Nat.le_refl 3)
  | lost i call stream here gone => exact rank_set_less _ here rfl (by simp [Task.rank])
  | push i call stream here =>
    refine rank_notifyOne_less (t := { s with
      manager := s.manager.pushIdle call.key stream s.now
      tasks := s.tasks.set i (.released call) }) _ here rfl (Nat.le_refl 2) call.key
  | drop i call stream cause here => exact rank_set_less _ here rfl (by simp [Task.rank])

theorem run_rank {cfg : PoolConfig} {s t : System} {actions : List Action} (ran : run (step cfg) s actions = some t) :
    actions.countP Action.working + t.rank ≤ s.rank + 6 * actions.countP Action.calling := by
  induction actions generalizing s with
  | nil =>
    obtain rfl := Option.some.inj ran
    simp
  | cons a rest ih =>
    obtain ⟨u, stepped, reached⟩ := run_cons.mp ran
    have later := ih reached
    simp only [List.countP_cons]
    cases a with
    | tick elapsed =>
      obtain rfl := Option.some.inj stepped
      have same : System.rank { s with now := s.now + elapsed } = s.rank := rfl
      rw [same] at later
      simpa [Action.working, Action.calling] using later
    | call call =>
      obtain rfl := Option.some.inj stepped
      simp only [rank, Tally.overList_snoc, Task.rank] at later
      simp only [Action.working, Action.calling, rank]
      simp only [Bool.false_eq_true, if_false, if_true]
      omega
    | _ =>
      have less := step_rank rfl stepped
      simp only [Action.working, Action.calling]
      simp only [Bool.false_eq_true, if_false, if_true]
      omega

theorem steps_bounded {cfg : PoolConfig} {s : System} {actions : List Action}
    (ran : run (step cfg) {} actions = some s) :
    actions.countP Action.working ≤ 6 * actions.countP Action.calling := by
  have bound := run_rank ran
  have nothing : rank {} = 0 := rfl
  omega

-- Two callers share the only connection there may be, and the second waits for it.
def passedOn : List Action :=
  [.call (tenant "testdb"), .call (tenant "testdb"), .poll 0, .connected 0 (.ok ()), .poll 1, .release 0,
    .reset 0 (.ok ()), .poll 1, .release 1, .reset 1 (.ok ())]

theorem steps_bounded_passedOn : passedOn.countP Action.working ≤ 6 * passedOn.countP Action.calling := by
  obtain ⟨s, ran, -⟩ : ∃ s, run (step { maxTotalConnections := 1 }) {} passedOn = some s ∧
      s.manager.totalServerConnections.value = 1 := exists_run (by decide)
  exact steps_bounded ran

theorem goes_on (cfg : PoolConfig) (connects : Nat → Except ConnectError Unit)
    (resets : Nat → Except String Unit) {s : System} {i : Nat} {task : Task} (here : s.tasks[i]? = some task) (unfinished : ¬ task.Over) :
    ∃ elapsed a, a.working = true ∧ a.Follows connects resets ∧
      (step cfg { s with now := s.now + elapsed } a).isSome = true := by
  cases task with
  | called call => exact ⟨0, .poll i, rfl, trivial, by simp [step, here]⟩
  | waiting call deadline notified => exact ⟨deadline, .expire i, rfl, trivial, by simp [step, here]⟩
  | connecting call =>
    refine ⟨0, .connected i (connects i), rfl, rfl, ?_⟩
    simp only [step, here]
    split <;> rfl
  | holding call stream =>
    refine ⟨0, .release i, rfl, trivial, ?_⟩
    rcases pool : s.manager.beginRelease call.key with ⟨m, _ | _⟩
    · simp [step, here, pool]
    · simp [step, here, pool]
  | resetting call stream =>
    refine ⟨0, .reset i (resets i), rfl, rfl, ?_⟩
    cases result : resets i <;> simp [step, here]
  | failed call error => exact absurd trivial unfinished
  | released call => exact absurd trivial unfinished
  | panicked call => exact absurd trivial unfinished

theorem ends (cfg : PoolConfig) (connects : Nat → Except ConnectError Unit) (resets : Nat → Except String Unit)
    (s : System) :
    ∃ actions t, run (step cfg) s actions = some t ∧ (∀ a ∈ actions, a.Follows connects resets) ∧
      ∀ task ∈ t.tasks, task.Over := by
  induction left : s.rank using Nat.strong_induction_on generalizing s with
  | h n ih =>
    by_cases finished : ∀ task ∈ s.tasks, task.Over
    · exact ⟨[], s, rfl, nofun, finished⟩
    · simp only [not_forall] at finished
      obtain ⟨task, member, unfinished⟩ := finished
      obtain ⟨i, here⟩ := List.mem_iff_getElem?.mp member
      obtain ⟨elapsed, a, works, follows, enabled⟩ := goes_on cfg connects resets here unfinished
      obtain ⟨t, stepped⟩ := Option.isSome_iff_exists.mp enabled
      have less : t.rank + 1 ≤ s.rank := step_rank (s := { s with now := s.now + elapsed }) works stepped
      obtain ⟨actions, u, ran, each, finished⟩ := ih t.rank (by omega) t rfl
      refine ⟨.tick elapsed :: a :: actions, u, ?_, ?_, finished⟩
      · exact run_cons.mpr ⟨_, rfl, run_cons.mpr ⟨t, stepped, ran⟩⟩
      · simp only [List.forall_mem_cons]
        exact ⟨trivial, follows, each⟩

theorem overList_zero {A : Type} {weight : A → Nat} {list : List A} (none : ∀ a ∈ list, weight a = 0) :
    Tally.overList weight list = 0 := by
  apply List.sum_eq_zero
  simpa using none

theorem at_rest {s : System} (balanced : Balanced s) (queued : Queued s) (finished : ∀ task ∈ s.tasks, task.Over) :
    (∀ key, (s.manager.pool key).activeCount.value = 0 ∧ (s.manager.pool key).waiters.queue = []) ∧
      s.manager.totalServerConnections.value = Tally.overTable (fun _ pool => pool.idle.length) s.manager.pools := by
  have held (key : PoolKey) : s.held key = 0 := by
    refine overList_zero fun task member => ?_
    have ended := finished task member
    cases task <;> simp_all [Task.Over, Task.holdsFor]
  have resets : s.resets = 0 := by
    refine overList_zero fun task member => ?_
    have ended := finished task member
    cases task <;> simp_all [Task.Over, Task.resetWeight]
  constructor
  · intro key
    refine ⟨by rw [balanced.active key, held key], List.eq_nil_iff_forall_not_mem.mpr fun i member => ?_⟩
    obtain ⟨task, here, parks⟩ := Option.bind_eq_some_iff.mp ((queued.each i key).mp member)
    have ended := finished task (List.mem_of_getElem? here)
    cases task <;> simp_all [Task.Over, Task.parked]
  · rw [balanced.total, resets]
    refine Tally.overTable_congr _ fun key pool present => ?_
    have active := balanced.active key
    rw [pool_of_lookup present, held key] at active
    rw [poolSize, active, Nat.zero_add]

/-- From every reachable state all callers can come to an end, however their connects and resets come out,
and then the pools are at rest. -/
theorem comes_to_rest {cfg : PoolConfig} {s : System} (reached : Reachable cfg s)
    (connects : Nat → Except ConnectError Unit) (resets : Nat → Except String Unit) :
    ∃ actions t, run (step cfg) s actions = some t ∧ (∀ a ∈ actions, a.Follows connects resets) ∧
      (∀ task ∈ t.tasks, task.Over) ∧
      (∀ key, (t.manager.pool key).activeCount.value = 0 ∧ (t.manager.pool key).waiters.queue = []) ∧
      t.manager.totalServerConnections.value = Tally.overTable (fun _ pool => pool.idle.length) t.manager.pools := by
  obtain ⟨before, came⟩ := reached
  obtain ⟨actions, t, ran, follows, finished⟩ := ends cfg connects resets s
  have whole := run_append.mpr ⟨s, came, ran⟩
  have rest := at_rest (reachable_balanced ⟨_, whole⟩) (invariant queued_step queued_initial whole) finished
  exact ⟨actions, t, ran, follows, finished, rest⟩

theorem comes_to_rest_passedOn : ∃ s actions t,
    run (step { maxTotalConnections := 1 }) {} (passedOn.take 5) = some s ∧
      run (step { maxTotalConnections := 1 }) s actions = some t ∧ ∀ task ∈ t.tasks, task.Over := by
  obtain ⟨s, came, -⟩ : ∃ s, run (step { maxTotalConnections := 1 }) {} (passedOn.take 5) = some s ∧
      s.parked 1 = some (tenant "testdb").key := exists_run (by decide)
  obtain ⟨actions, t, ran, -, finished, -⟩ := comes_to_rest ⟨_, came⟩ (fun _ => .ok ()) fun _ => .error "Reset failed"
  exact ⟨s, actions, t, came, ran, finished⟩

end System

end PgMux
