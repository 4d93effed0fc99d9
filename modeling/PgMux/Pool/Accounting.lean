import PgMux.Pool.Moves

set_option autoImplicit false

namespace PgMux

namespace Task

def holdsFor (key : PoolKey) : Task → Nat
  | .holding call _ => if call.key = key then 1 else 0
  | _ => 0

def resetWeight : Task → Nat
  | .resetting _ _ => 1
  | _ => 0

def Counts (weight : Task → Nat) : Prop :=
  ∀ task : Task, task.Weightless → weight task = 0

theorem holdsFor_counts (key : PoolKey) : Counts (holdsFor key) := by
  intro task weightless
  cases task <;> simp_all [Weightless, holdsFor]

theorem resetWeight_counts : Counts resetWeight := by
  intro task weightless
  cases task <;> simp_all [Weightless, resetWeight]

theorem Counts.notify {weight : Task → Nat} (counts : Counts weight) (tasks : List Task) (i : Nat) :
    Tally.overList weight (tasks.modify i Task.notify) = Tally.overList weight tasks := by
  apply Tally.overList_modify
  intro task
  cases task with
  | waiting call deadline notified => rw [counts _ (by trivial), counts _ (by trivial)]
  | _ => rfl

theorem Counts.spawn {weight : Task → Nat} (counts : Counts weight) (tasks : List Task)
    (call : AcquireCall) :
    Tally.overList weight (tasks ++ [.called call]) = Tally.overList weight tasks := by
  rw [Tally.overList_snoc, counts (.called call) trivial, Nat.add_zero]

theorem Counts.settle {weight : Task → Nat} (counts : Counts weight) {tasks : List Task} {i : Nat}
    {old new : Task} (here : tasks[i]? = some old) (before : old.Weightless) (after : new.Weightless) :
    Tally.overList weight (tasks.set i new) = Tally.overList weight tasks := by
  have balance := Tally.overList_set weight new here
  rwa [counts old before, counts new after] at balance

theorem Counts.take {weight : Task → Nat} (counts : Counts weight) {tasks : List Task} {i : Nat}
    {old : Task} (new : Task) (here : tasks[i]? = some old) (before : old.Weightless) :
    Tally.overList weight (tasks.set i new) = Tally.overList weight tasks + weight new := by
  have balance := Tally.overList_set weight new here
  rwa [counts old before] at balance

theorem Counts.give {weight : Task → Nat} (counts : Counts weight) {tasks : List Task} {i : Nat}
    {old : Task} (new : Task) (here : tasks[i]? = some old) (after : new.Weightless) :
    Tally.overList weight (tasks.set i new) + weight old = Tally.overList weight tasks := by
  have balance := Tally.overList_set weight new here
  rwa [counts new after] at balance

end Task

namespace System

open PoolManager

def held (s : System) (key : PoolKey) : Nat := Tally.overList (Task.holdsFor key) s.tasks

def resets (s : System) : Nat := Tally.overList Task.resetWeight s.tasks

def poolSize (_ : PoolKey) (pool : Pool) : Nat := pool.activeCount.value + pool.idle.length

/-- The sum over all pools of `active_count` plus the length of the idle queue. -/
def pooled (s : System) : Nat := Tally.overTable poolSize s.manager.pools

theorem held_pos {s : System} {i : Nat} {call : AcquireCall} {stream : TcpStream}
    (here : s.tasks[i]? = some (.holding call stream)) : 0 < s.held call.key := by
  have one := Tally.le_overList (Task.holdsFor call.key) here
  rwa [Task.holdsFor, if_pos rfl] at one

structure Balanced (s : System) : Prop where
  active : ∀ key, (s.manager.pool key).activeCount = ⟨s.held key, false⟩
  total : s.manager.totalServerConnections = ⟨s.pooled + s.resets, false⟩
  gauge : s.manager.metrics.serverConnectionsActive = s.manager.totalServerConnections.value
  present : ∀ key, 0 < s.held key → (s.manager.pools.lookup key).isSome

theorem pooled_setPool (m : PoolManager) (key : PoolKey) (pool : Pool) :
    Tally.overTable poolSize (m.setPool key pool).pools + poolSize key (m.pool key) =
      Tally.overTable poolSize m.pools + poolSize key pool :=
  overTable_setPool poolSize (fun _ => rfl) m key pool

theorem Balanced.tasks {s : System} (balanced : Balanced s) (tasks : List Task)
    (holders : ∀ key, System.held { s with tasks := tasks } key = s.held key)
    (resetters : System.resets { s with tasks := tasks } = s.resets) :
    Balanced { s with tasks := tasks } := by
  constructor
  · intro key
    rw [holders key]
    exact balanced.active key
  · rw [resetters]
    exact balanced.total
  · exact balanced.gauge
  · intro key some
    rw [holders key] at some
    exact balanced.present key some

theorem Balanced.adjust {s : System} (balanced : Balanced s) (key : PoolKey) (pool : Pool)
    (idle : pool.idle.length = (s.manager.pool key).idle.length)
    (active : pool.activeCount = (s.manager.pool key).activeCount) :
    Balanced { s with manager := s.manager.setPool key pool } := by
  have size := pooled_setPool s.manager key pool
  simp only [poolSize, idle, active] at size
  constructor
  · intro other
    have before := balanced.active other
    simp only [pool_setPool_apply]
    split
    · rename_i same
      rw [active, ← same, before]
      rfl
    · exact before
  · rw [show System.pooled { s with manager := s.manager.setPool key pool } = s.pooled by
      simp only [pooled]; omega]
    exact balanced.total
  · exact balanced.gauge
  · intro other some
    exact lookup_setPool_isSome pool (balanced.present other some)

theorem Balanced.evict {s : System} (balanced : Balanced s) (key : PoolKey) (n : Nat)
    (within : n ≤ (s.manager.pool key).idle.length) :
    Balanced { s with manager := s.manager.evict key n } := by
  have size := pooled_setPool (forget^[n] s.manager) key
    { s.manager.pool key with idle := (s.manager.pool key).idle.drop n }
  have part := le_overTable_pool poolSize (fun _ => rfl) s.manager key
  have same (other : PoolKey) : (forget^[n] s.manager).pool other = s.manager.pool other := by
    simp [PoolManager.pool]
  simp only [poolSize, same, forget_pools, List.length_drop] at size part
  have enough : n ≤ s.pooled + s.resets := by
    simp only [pooled]
    omega
  obtain ⟨total, gauge⟩ := forget_iterate s.manager n _ balanced.total enough
  constructor
  · intro other
    have before := balanced.active other
    simp only [PoolManager.evict, pool_setPool_apply, same]
    split
    · rename_i at_key
      rw [← at_key, before]
      rfl
    · exact before
  · refine total.trans (congrArg (AtomicU64.mk · false) ?_)
    simp only [pooled, PoolManager.evict, resets]
    simp only [pooled, resets] at enough
    omega
  · refine gauge.trans ?_
    have counted := balanced.gauge
    rw [balanced.total] at counted
    simp only [PoolManager.evict, setPool, total, counted]
    omega
  · intro other some
    refine lookup_setPool_isSome _ ?_
    rw [forget_pools]
    exact balanced.present other some

-- A step of one task that changes the pool of its key. What the task and the pool gain and lose is
-- given; the balances of the other keys are not touched.
theorem Balanced.change {s : System} (balanced : Balanced s) {i : Nat} {old : Task} (new : Task)
    (key : PoolKey) (pool : Pool) (m : PoolManager) (opened : List TcpStream) (count total : Nat)
    (here : s.tasks[i]? = some old) (pools : m.pools = (s.manager.setPool key pool).pools)
    (active : pool.activeCount = ⟨count, false⟩)
    (holder : count + old.holdsFor key = s.held key + new.holdsFor key)
    (others : ∀ other, other ≠ key → old.holdsFor other = new.holdsFor other)
    (counter : m.totalServerConnections = ⟨total, false⟩)
    (balance : total + poolSize key (s.manager.pool key) + old.resetWeight =
      s.pooled + s.resets + poolSize key pool + new.resetWeight)
    (gauge : m.metrics.serverConnectionsActive = total) :
    Balanced { s with manager := m, tasks := s.tasks.set i new, opened := opened } := by
  have same (other : PoolKey) : m.pool other = (s.manager.setPool key pool).pool other := by
    simp only [PoolManager.pool, pools]
  have holders (other : PoolKey) : Tally.overList (Task.holdsFor other) (s.tasks.set i new) +
      old.holdsFor other = s.held other + new.holdsFor other := Tally.overList_set _ new here
  have resetters : Tally.overList Task.resetWeight (s.tasks.set i new) + old.resetWeight =
      s.resets + new.resetWeight := Tally.overList_set _ new here
  have size := pooled_setPool s.manager key pool
  rw [← pools] at size
  constructor
  · intro other
    have counted := balanced.active other
    simp only [same, pool_setPool_apply, held]
    by_cases at_key : other = key
    · subst at_key
      rw [if_pos rfl, active]
      have after := holders other
      congr 1
      omega
    · have after := holders other
      rw [others other at_key] at after
      rw [if_neg at_key, counted]
      congr 1
      omega
  · refine counter.trans (congrArg (AtomicU64.mk · false) ?_)
    simp only [pooled, resets] at balance resetters ⊢
    omega
  · rw [gauge, counter]
  · intro other some
    simp only [pools]
    by_cases at_key : other = key
    · subst at_key
      simp [setPool]
    · refine lookup_setPool_isSome pool (balanced.present other ?_)
      have after := holders other
      rw [others other at_key] at after
      simp only [held] at some after ⊢
      omega

theorem Balanced.reuse {s : System} (balanced : Balanced s) {i : Nat} {old : Task}
    (call : AcquireCall) {conn : PooledConnection} {rest : List PooledConnection}
    (here : s.tasks[i]? = some old) (before : old.Weightless)
    (front : (s.manager.pool call.key).idle = conn :: rest) :
    Balanced { s with
      manager := s.manager.takeFirst call.key
      tasks := s.tasks.set i (.holding call conn.stream) } := by
  have active := balanced.active call.key
  have idle := Task.resetWeight_counts old before
  have unheld (key : PoolKey) := Task.holdsFor_counts key old before
  refine balanced.change _ call.key _ _ _ (s.held call.key + 1) (s.pooled + s.resets) here rfl
    ?_ ?_ ?_ balanced.total ?_ ?_
  · simp [AtomicU64.fetchAdd, active]
  · rw [unheld]
    simp [Task.holdsFor]
  · intro other differs
    rw [unheld]
    simp [Task.holdsFor, Ne.symm differs]
  · rw [idle]
    simp [poolSize, AtomicU64.fetchAdd, front, Task.resetWeight]
    omega
  · exact balanced.gauge.trans (by rw [balanced.total])

theorem Balanced.connected {s : System} (balanced : Balanced s) {i : Nat} {call : AcquireCall}
    (stream : TcpStream) (opened : List TcpStream) (here : s.tasks[i]? = some (.connecting call)) :
    Balanced { s with
      manager := s.manager.connected call.key
      tasks := s.tasks.set i (.holding call stream)
      opened := opened } := by
  have active := balanced.active call.key
  have gauge := balanced.gauge
  rw [balanced.total] at gauge
  refine balanced.change _ call.key _ _ _ (s.held call.key + 1) (s.pooled + s.resets + 1) here rfl
    ?_ ?_ ?_ ?_ ?_ ?_
  · simp [AtomicU64.fetchAdd, active]
  · simp [Task.holdsFor]
  · intro other differs
    simp [Task.holdsFor, Ne.symm differs]
  · simp [PoolManager.connected, AtomicU64.fetchAdd, balanced.total]
  · simp [poolSize, AtomicU64.fetchAdd, Task.resetWeight]
    omega
  · simp [PoolManager.connected, gauge]

theorem Balanced.refused {s : System} (balanced : Balanced s) {i : Nat} {call : AcquireCall}
    (error : AcquireError) (here : s.tasks[i]? = some (.connecting call)) :
    Balanced { s with
      manager := s.manager.refused call.key
      tasks := s.tasks.set i (.failed call error) } := by
  refine balanced.change _ call.key _ _ _ (s.held call.key) (s.pooled + s.resets) here rfl
    (balanced.active call.key) ?_ ?_ balanced.total ?_ ?_
  · simp [Task.holdsFor]
  · simp [Task.holdsFor]
  · simp [poolSize, Task.resetWeight]
  · exact balanced.gauge.trans (by rw [balanced.total])

theorem Balanced.release {s : System} (balanced : Balanced s) {i : Nat} {call : AcquireCall}
    {stream : TcpStream} (here : s.tasks[i]? = some (.holding call stream)) :
    Balanced { s with
      manager := s.manager.setPool call.key { s.manager.pool call.key with
        activeCount := (s.manager.pool call.key).activeCount.fetchSub }
      tasks := s.tasks.set i (.resetting call stream) } := by
  have active := balanced.active call.key
  have one := held_pos here
  refine balanced.change _ call.key _ _ _ (s.held call.key - 1) (s.pooled + s.resets) here rfl
    ?_ ?_ ?_ balanced.total ?_ ?_
  · simp only [AtomicU64.fetchSub, active]
    rw [if_neg (by omega)]
  · simp [Task.holdsFor]
    omega
  · intro other differs
    simp [Task.holdsFor, Ne.symm differs]
  · simp only [poolSize, AtomicU64.fetchSub, active]
    rw [if_neg (by omega)]
    simp only [Task.resetWeight]
    omega
  · exact balanced.gauge.trans (by rw [balanced.total])

theorem Balanced.push {s : System} (balanced : Balanced s) {i : Nat} {call : AcquireCall}
    {stream : TcpStream} (here : s.tasks[i]? = some (.resetting call stream)) :
    Balanced { s with
      manager := s.manager.pushIdle call.key stream s.now
      tasks := s.tasks.set i (.released call) } := by
  refine balanced.change _ call.key _ _ _ (s.held call.key) (s.pooled + s.resets) here rfl
    (balanced.active call.key) ?_ ?_ balanced.total ?_ ?_
  · simp [Task.holdsFor]
  · simp [Task.holdsFor]
  · simp [poolSize, Task.resetWeight]
    omega
  · exact balanced.gauge.trans (by rw [balanced.total])

theorem Balanced.drop {s : System} (balanced : Balanced s) {i : Nat} {call : AcquireCall}
    {stream : TcpStream} (here : s.tasks[i]? = some (.resetting call stream)) :
    Balanced { s with manager := s.manager.forget, tasks := s.tasks.set i (.released call) } := by
  have one : 1 ≤ s.resets := Tally.le_overList Task.resetWeight here
  have resetters : Tally.overList Task.resetWeight (s.tasks.set i (.released call)) + 1 = s.resets :=
    Task.resetWeight_counts.give (.released call) here trivial
  have holders (key : PoolKey) :
      Tally.overList (Task.holdsFor key) (s.tasks.set i (.released call)) = s.held key :=
    (Task.holdsFor_counts key).give (.released call) here trivial
  have gauge := balanced.gauge
  rw [balanced.total] at gauge
  constructor
  · intro key
    rw [held, holders key]
    exact balanced.active key
  · simp only [forget, AtomicU64.fetchSub, balanced.total]
    rw [if_neg (by omega)]
    refine congrArg (AtomicU64.mk · false) ?_
    simp only [pooled, resets] at resetters ⊢
    omega
  · simp only [forget, AtomicU64.fetchSub, balanced.total, gauge]
    rw [if_neg (by omega)]
    simp only
    omega
  · intro key some
    rw [held, holders key] at some
    exact balanced.present key some

theorem balanced_move (s t : System) (balanced : Balanced s) (moved : Move s t) : Balanced t := by
  cases moved with
  | tick elapsed => exact ⟨balanced.active, balanced.total, balanced.gauge, balanced.present⟩
  | spawn call =>
    exact balanced.tasks _ (fun key => (Task.holdsFor_counts key).spawn s.tasks call)
      (Task.resetWeight_counts.spawn s.tasks call)
  | notify i =>
    exact balanced.tasks _ (fun key => (Task.holdsFor_counts key).notify s.tasks i)
      (Task.resetWeight_counts.notify s.tasks i)
  | settle i old new here before after =>
    exact balanced.tasks _ (fun key => (Task.holdsFor_counts key).settle here before after)
      (Task.resetWeight_counts.settle here before after)
  | record metrics gauge =>
    exact ⟨balanced.active, balanced.total, gauge.trans balanced.gauge, balanced.present⟩
  | adjust key pool idle active => exact balanced.adjust key pool (congrArg _ idle) active
  | evict key n within => exact balanced.evict key n within
  | reuse i old call conn rest here before front => exact balanced.reuse call here before front
  | connected i call here => exact balanced.connected _ _ here
  | refused i call error here => exact balanced.refused error here
  | panicked i call here =>
    exact balanced.tasks _ (fun key => Tally.overList_set (Task.holdsFor key) (.panicked call) here)
      (Tally.overList_set Task.resetWeight (.panicked call) here)
  | release i call stream here => exact balanced.release here
  | lost i call stream here gone =>
    -- The pool of a held connection is never gone.
    have there := balanced.present call.key (held_pos here)
    simp [gone] at there
  | push i call stream here => exact balanced.push here
  | drop i call stream here => exact balanced.drop here

theorem balanced_start (s t : System) (balanced : Balanced s) (started : Start s t) : Balanced t := by
  cases started with
  | mk i old call here before =>
    exact balanced.tasks _ (fun key => (Task.holdsFor_counts key).take (.connecting call) here before)
      (Task.resetWeight_counts.take (.connecting call) here before)

theorem balanced_initial : Balanced {} :=
  ⟨fun _ => rfl, rfl, rfl, fun key some => absurd some (by simp [held])⟩

theorem reachable_balanced {cfg : PoolConfig} {s : System} (reached : Reachable cfg s) : Balanced s :=
  reachable_invariant balanced_initial balanced_move balanced_start reached

theorem accounting {cfg : PoolConfig} {s : System} (reached : Reachable cfg s) :
    s.manager.totalServerConnections.value = s.pooled + s.resets ∧
      s.manager.metrics.serverConnectionsActive = s.manager.totalServerConnections.value ∧
      s.manager.totalServerConnections.wrapped = false ∧
      (∀ key, (s.manager.pool key).activeCount.wrapped = false) ∧
      ∀ (i : Nat) (call : AcquireCall) (stream : TcpStream), s.tasks[i]? = some (.holding call stream) →
        (s.manager.beginRelease call.key).2 = true := by
  have balanced := reachable_balanced reached
  refine ⟨by rw [balanced.total], balanced.gauge, by rw [balanced.total], ?_, ?_⟩
  · intro key
    rw [balanced.active key]
  · intro i call stream here
    have there := balanced.present call.key (held_pos here)
    rw [Option.isSome_iff_exists] at there
    obtain ⟨pool, there⟩ := there
    simp [beginRelease, there]

def tenant (database : String) : AcquireCall :=
  { key := ⟨"localhost", 5432, database, "app"⟩, password := "secret", extraParams := [] }

-- One connection is being reset while another one of the same pool is held.
def oneOfTwoReset : List Action :=
  [.call (tenant "testdb"), .call (tenant "testdb"), .poll 0, .poll 1, .connected 0 (.ok ()),
    .connected 1 (.ok ()), .release 0]

theorem accounting_oneOfTwoReset :
    ∃ s, Transition.run (step {}) {} oneOfTwoReset = some s ∧ s.resets = 1 ∧
      s.manager.totalServerConnections.value = s.pooled + s.resets := by
  obtain ⟨s, ran, one⟩ : ∃ s, Transition.run (step {}) {} oneOfTwoReset = some s ∧ s.resets = 1 :=
    Transition.exists_run (by decide)
  exact ⟨s, ran, one, (accounting ⟨oneOfTwoReset, ran⟩).1⟩

end System

end PgMux
