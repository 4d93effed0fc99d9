import PgMux.Pool.Poll
import PgMux.Pool.Accounting

set_option autoImplicit false

namespace PgMux

/-- The pool on whose waiters a task is parked with no notification pending for it. -/
def Task.parked : Task → Option PoolKey
  | .waiting call _ false => some call.key
  | _ => none

theorem Task.parked_notify (task : Task) : task.notify.parked = none := by
  cases task with
  | waiting call deadline notified => rfl
  | _ => rfl

namespace PoolManager

def queue (m : PoolManager) (key : PoolKey) : List Nat := (m.pool key).waiters.queue

theorem queue_setPool (m : PoolManager) (key other : PoolKey) (pool : Pool) :
    (m.setPool key pool).queue other = if other = key then pool.waiters.queue else m.queue other := by
  rw [queue, pool_setPool_apply]
  split <;> rfl

theorem queue_setPool_same (m : PoolManager) (key : PoolKey) (pool : Pool)
    (same : pool.waiters.queue = m.queue key) : (m.setPool key pool).queue = m.queue := by
  funext other
  rw [queue_setPool, same]
  split
  · rename_i at_key
    rw [at_key]
  · rfl

theorem queue_of_pools {m n : PoolManager} (pools : n.pools = m.pools) : n.queue = m.queue := by
  funext key
  simp only [queue, PoolManager.pool, pools]

theorem queue_forget (m : PoolManager) (n : Nat) : (forget^[n] m).queue = m.queue :=
  queue_of_pools (forget_pools m n)

theorem queue_evict (m : PoolManager) (key : PoolKey) (n : Nat) : (m.evict key n).queue = m.queue := by
  have same := queue_forget m n
  refine (queue_setPool_same _ key { m.pool key with idle := (m.pool key).idle.drop n } ?_).trans same
  exact (congrFun same key).symm

theorem queue_takeFirst (m : PoolManager) (key : PoolKey) : (m.takeFirst key).queue = m.queue :=
  queue_setPool_same m key _ rfl

theorem queue_bail (m : PoolManager) (key : PoolKey) (error : AcquireError) :
    (m.bail key error).1.queue = m.queue :=
  queue_setPool_same m key _ rfl

theorem queue_entry (m : PoolManager) (key : PoolKey) : (m.entry key).queue = m.queue := by
  rw [entry]
  split
  · rfl
  · rename_i absent
    exact queue_setPool_same m key {} (by simp [queue, PoolManager.pool, absent])

theorem queue_checkCapacity (cfg : PoolConfig) (now : Instant) (key : PoolKey) (deadline : Instant)
    (m : PoolManager) : (checkCapacity cfg now key deadline m).1.queue = m.queue := by
  simp only [checkCapacity]
  split_ifs
  · exact queue_bail m key _
  · rfl
  · exact queue_bail m key _
  · rfl
  · rfl

theorem queue_attempt (cfg : PoolConfig) (now : Instant) (key : PoolKey) (deadline : Instant)
    (m : PoolManager) : (attempt cfg now key deadline m).1.queue = m.queue := by
  rw [attempt_eq]
  dsimp only
  split
  · exact (queue_takeFirst _ key).trans (queue_evict m key _)
  · exact (queue_checkCapacity cfg now key deadline _).trans (queue_evict m key _)

end PoolManager

namespace System

open PoolManager

def parked (s : System) (i : Nat) : Option PoolKey := s.tasks[i]?.bind Task.parked

inductive Queues (i : Nat) (key : PoolKey) (m : PoolManager) : PoolManager → Task → Prop
  | kept (after : PoolManager) (task : Task) (same : after.queue = m.queue) (free : task.parked = none) :
      Queues i key m after task
  | joined (after : PoolManager) (task : Task)
      (last : ∀ other, after.queue other = if other = key then m.queue key ++ [i] else m.queue other)
      (waits : task.parked = some key) : Queues i key m after task

theorem park_queues (m : PoolManager) (i : Nat) (call : AcquireCall) (deadline : Instant) :
    Queues i call.key m (park m i call deadline).1 (park m i call deadline).2 :=
  .joined _ _ (fun other => queue_setPool m call.key other _) rfl

theorem Queues.of_queue {i : Nat} {key : PoolKey} {m n after : PoolManager} {task : Task}
    (queues : Queues i key n after task) (same : n.queue = m.queue) : Queues i key m after task := by
  cases queues with
  | kept still free => exact .kept after task (still.trans same) free
  | joined last waits => exact .joined after task (same ▸ last) waits

theorem acquireLoop_queues (cfg : PoolConfig) (now : Instant) (i : Nat) (call : AcquireCall)
    (deadline : Instant) (fuel : Nat) (m : PoolManager) :
    Queues i call.key m (acquireLoop cfg now i call deadline fuel m).1
      (acquireLoop cfg now i call deadline fuel m).2 := by
  induction fuel generalizing m with
  | zero => exact park_queues m i call deadline
  | succ fuel ih =>
    have same := queue_attempt cfg now call.key deadline m
    simp only [acquireLoop]
    cases pass : attempt cfg now call.key deadline m with
    | mk after result =>
      rw [pass] at same
      cases result with
      | reuse stream => exact .kept _ _ same rfl
      | connect => exact .kept _ _ same rfl
      | bail error => exact .kept _ _ same rfl
      | wait =>
        dsimp only
        split
        · refine (ih _).of_queue (Eq.trans ?_ same)
          exact queue_setPool_same after call.key _ rfl
        · exact (park_queues after i call deadline).of_queue same

theorem poll_queues {cfg : PoolConfig} {s t : System} {i : Nat} (stepped : step cfg s (.poll i) = some t) :
    ∃ old call new, s.tasks[i]? = some old ∧ old.parked = none ∧ s.asking i = some call ∧
      t.tasks = s.tasks.set i new ∧ Queues i call.key s.manager t.manager new := by
  cases step_steps stepped with
  | begin _ call here =>
    refine ⟨_, call, _, here, rfl, by simp [asking, here, Task.asking], rfl, ?_⟩
    exact (acquireLoop_queues cfg s.now i call _ 2 _).of_queue (queue_entry s.manager call.key)
  | wake _ call deadline here =>
    refine ⟨_, call, _, here, rfl, by simp [asking, here, Task.asking], rfl, ?_⟩
    exact acquireLoop_queues cfg s.now i call deadline 2 s.manager

/-- The queue of a pool is made of the callers that are parked on it, each of them once. -/
structure Queued (s : System) : Prop where
  each : ∀ i key, i ∈ s.manager.queue key ↔ s.parked i = some key
  once : ∀ key, (s.manager.queue key).Nodup

theorem view_set {A : Type} (view : Task → Option A) {s t : System} {i : Nat} {old : Task} (new : Task)
    (here : s.tasks[i]? = some old) (tasks : t.tasks = s.tasks.set i new) (j : Nat) :
    t.tasks[j]?.bind view = if j = i then view new else s.tasks[j]?.bind view := by
  have bound : i < s.tasks.length := (List.getElem?_eq_some_iff.mp here).1
  simp only [tasks, List.getElem?_set]
  by_cases at_i : j = i
  · simp [at_i, bound]
  · simp [at_i, Ne.symm at_i]

theorem parked_set {s t : System} {i : Nat} {old : Task} (new : Task) (here : s.tasks[i]? = some old)
    (tasks : t.tasks = s.tasks.set i new) (j : Nat) :
    t.parked j = if j = i then new.parked else s.parked j :=
  view_set Task.parked new here tasks j

theorem parked_here {s : System} {i : Nat} {task : Task} (here : s.tasks[i]? = some task) :
    s.parked i = task.parked := by
  simp [parked, here]

theorem parked_unchanged {s t : System} {i : Nat} {old : Task} (new : Task)
    (here : s.tasks[i]? = some old) (before : old.parked = none) (after : new.parked = none)
    (tasks : t.tasks = s.tasks.set i new) (j : Nat) : t.parked j = s.parked j := by
  rw [parked_set new here tasks]
  split
  · rename_i at_i
    rw [at_i, parked_here here, before, after]
  · rfl

theorem Queued.of_same {s t : System} (queued : Queued s) (queue : t.manager.queue = s.manager.queue)
    (same : ∀ i, t.parked i = s.parked i) : Queued t := by
  constructor
  · intro i key
    rw [queue, same]
    exact queued.each i key
  · rw [queue]
    exact queued.once

theorem Queued.settle {s t : System} (queued : Queued s) {i : Nat} {old : Task} (new : Task)
    (here : s.tasks[i]? = some old) (before : old.parked = none) (after : new.parked = none)
    (tasks : t.tasks = s.tasks.set i new) (queue : t.manager.queue = s.manager.queue) : Queued t :=
  queued.of_same queue (parked_unchanged new here before after tasks)

theorem Queued.join {s t : System} (queued : Queued s) {i : Nat} {key : PoolKey} {old new : Task}
    (here : s.tasks[i]? = some old) (before : old.parked = none) (waits : new.parked = some key)
    (tasks : t.tasks = s.tasks.set i new)
    (last : ∀ other, t.manager.queue other =
      if other = key then s.manager.queue key ++ [i] else s.manager.queue other) : Queued t := by
  have absent (other : PoolKey) : i ∉ s.manager.queue other := by
    intro member
    have parks := (queued.each i other).mp member
    rw [parked_here here, before] at parks
    cases parks
  constructor
  · intro j other
    have each := queued.each j other
    rw [last, parked_set new here tasks]
    by_cases at_i : j = i
    · subst at_i
      have never := absent other
      rw [if_pos rfl, waits, Option.some.injEq]
      by_cases same : other = key
      · simp [same]
      · simp [same, never, Ne.symm same]
    · by_cases same : other = key <;> simp_all
  · intro other
    rw [last]
    split
    · rw [List.nodup_append]
      refine ⟨queued.once key, by simp, ?_⟩
      intro first member second alone
      rw [List.mem_singleton.mp alone]
      rintro rfl
      exact absent key member
    · exact queued.once other

theorem Queued.leave {s t : System} (queued : Queued s) {i : Nat} (key : PoolKey) {old new : Task}
    (here : s.tasks[i]? = some old) (before : ∀ other, old.parked = some other → other = key)
    (after : new.parked = none) (tasks : t.tasks = s.tasks.set i new)
    (queue : ∀ other, t.manager.queue other =
      if other = key then (s.manager.queue key).erase i else s.manager.queue other) : Queued t := by
  constructor
  · intro j other
    have each := queued.each j other
    rw [queue, parked_set new here tasks]
    by_cases same : other = key
    · subst same
      rw [if_pos rfl, (queued.once other).mem_erase_iff, each]
      by_cases at_i : j = i <;> simp [at_i, after]
    · rw [if_neg same, each]
      by_cases at_i : j = i
      · subst at_i
        rw [parked_here here, if_pos rfl, after]
        simpa using fun parks => same (before other parks)
      · rw [if_neg at_i]
  · intro other
    rw [queue]
    split
    · exact (queued.once key).erase i
    · exact queued.once other

theorem parked_modify (s : System) (i j : Nat) (m : PoolManager) :
    System.parked { s with manager := m, tasks := s.tasks.modify i Task.notify } j =
      if j = i then none else s.parked j := by
  simp only [parked, List.getElem?_modify]
  by_cases at_i : j = i
  · subst at_i
    cases s.tasks[j]? <;> simp [Task.parked_notify]
  · simp [at_i, Ne.symm at_i]

theorem Queued.notifyOne {s : System} (queued : Queued s) (key : PoolKey) : Queued (s.notifyOne key) := by
  rw [System.notifyOne]
  split
  · rename_i i rest front
    have split : s.manager.queue key = i :: rest := front
    have once := queued.once key
    rw [split, List.nodup_cons] at once
    have woken : s.parked i = some key := (queued.each i key).mp (by simp [split])
    constructor
    · intro j other
      have each := queued.each j other
      rw [queue_setPool, parked_modify]
      by_cases same : other = key
      · subst same
        rw [split] at each
        by_cases at_i : j = i
        · simpa [at_i] using once.1
        · simpa [at_i] using each
      · by_cases at_i : j = i
        · subst at_i
          simp only [if_neg same, if_pos, reduceCtorEq, iff_false]
          rw [each, woken]
          simpa using Ne.symm same
        · simpa [same, at_i] using each
    · intro other
      rw [queue_setPool]
      split
      · exact once.2
      · exact queued.once other
  · exact queued.of_same (queue_setPool_same _ key _ rfl) fun _ => rfl

def leaving (s : System) (i : Nat) (call : AcquireCall) : System :=
  { s with
    manager := (s.manager.bail call.key .timeout).1.setPool call.key
      { (s.manager.bail call.key .timeout).1.pool call.key with
        waiters := { ((s.manager.bail call.key .timeout).1.pool call.key).waiters with
          queue := ((s.manager.bail call.key .timeout).1.queue call.key).erase i } }
    tasks := s.tasks.set i (.failed call .timeout) }

theorem timeOut_eq (s : System) (i : Nat) (call : AcquireCall) (notified : Bool) :
    s.timeOut i call notified =
      if notified then (s.leaving i call).notifyOne call.key else s.leaving i call := rfl

theorem Queued.leaving {s : System} (queued : Queued s) {i : Nat} {call : AcquireCall} {deadline : Instant}
    {notified : Bool} (here : s.tasks[i]? = some (.waiting call deadline notified)) :
    Queued (s.leaving i call) := by
  refine queued.leave call.key here ?_ rfl rfl ?_
  · intro other parks
    cases notified with
    | false => exact (Option.some.inj parks).symm
    | true => cases parks
  · intro other
    rw [System.leaving, queue_setPool, queue_bail s.manager call.key .timeout]

theorem queued_step {cfg : PoolConfig} (s : System) (a : Action) (t : System) (queued : Queued s)
    (stepped : step cfg s a = some t) : Queued t := by
  by_cases polls : ∃ i, a = .poll i
  · obtain ⟨i, rfl⟩ := polls
    obtain ⟨old, call, new, here, before, -, tasks, queues⟩ := poll_queues stepped
    cases queues with
    | kept same free => exact queued.settle new here before free tasks same
    | joined last waits => exact queued.join here before waits tasks last
  · cases step_steps stepped with
    | begin i | wake i => exact absurd ⟨i, rfl⟩ polls
    | tick elapsed => exact ⟨queued.each, queued.once⟩
    | call call =>
      refine queued.of_same rfl fun i => ?_
      simp only [parked, List.getElem?_append]
      split
      · rfl
      · rename_i beyond
        rw [List.getElem?_eq_none (Nat.le_of_not_lt beyond), List.getElem?_singleton]
        split <;> rfl
    | expire i call deadline notified here late =>
      have left := queued.leaving here
      rw [timeOut_eq]
      split
      · exact left.notifyOne call.key
      · exact left
    | connected i call here => exact queued.settle _ here rfl rfl rfl (queue_setPool_same _ _ _ rfl)
    | refused i call error here => exact queued.settle _ here rfl rfl rfl (queue_setPool_same _ _ _ rfl)
    | panicked i call here => exact queued.settle _ here rfl rfl rfl rfl
    | release i call stream pool here present =>
      refine queued.settle _ here rfl rfl rfl (queue_setPool_same _ _ _ ?_)
      rw [PoolManager.queue, pool_of_lookup present]
    | lost i call stream here gone => exact queued.settle _ here rfl rfl rfl rfl
    | push i call stream here =>
      refine Queued.notifyOne ?_ call.key
      exact queued.settle _ here rfl rfl rfl (queue_setPool_same _ _ _ rfl)
    | drop i call stream cause here => exact queued.settle _ here rfl rfl rfl rfl

theorem queued_initial : Queued {} := by
  constructor
  · intro i key
    simp [PoolManager.queue, PoolManager.pool, parked]
  · intro key
    simp [PoolManager.queue, PoolManager.pool]

end System

end PgMux
