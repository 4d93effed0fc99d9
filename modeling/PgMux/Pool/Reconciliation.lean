import PgMux.Pool.Capacity
import PgMux.Pool.Waiters

set_option autoImplicit false

namespace PgMux

namespace Task

def panicWeight : Task → Nat
  | .panicked _ => 1
  | _ => 0

-- `pool_misses_total` has counted the caller, and the end of its connect is in no counter.
def missWeight (task : Task) : Nat := task.connectWeight + task.panicWeight

theorem missWeight_counts : Counts missWeight := by
  intro task weightless
  cases task <;> simp_all [Weightless, missWeight, connectWeight, panicWeight]

end Task

namespace PoolManager

def acquired (_ : PoolKey) (pool : Pool) : Nat := pool.totalAcquired

def errors (_ : PoolKey) (pool : Pool) : Nat := pool.totalErrors

/-- The counters of the pools against those of the metrics, with the number of connects in progress. -/
structure Reconciled (m : PoolManager) (connects : Nat) : Prop where
  acquired : Tally.overTable acquired m.pools = m.metrics.poolHitsTotal + m.metrics.serverConnectionsTotal
  misses : m.metrics.poolMissesTotal =
    m.metrics.serverConnectionsTotal + m.metrics.serverConnectionErrorsTotal + connects
  errors : Tally.overTable errors m.pools =
    m.metrics.poolTimeoutsTotal + m.metrics.serverConnectionErrorsTotal

def Attempt.connects : Attempt → Nat
  | .connect => 1
  | _ => 0

section Reconciled

variable {m : PoolManager} {connects : Nat}

theorem Reconciled.change (before : Reconciled m connects) (n : PoolManager) (key : PoolKey) (pool : Pool)
    (pools : n.pools = (m.setPool key pool).pools) {later : Nat}
    (acquired : pool.totalAcquired + m.metrics.poolHitsTotal + m.metrics.serverConnectionsTotal =
      (m.pool key).totalAcquired + n.metrics.poolHitsTotal + n.metrics.serverConnectionsTotal)
    (misses : n.metrics.poolMissesTotal + m.metrics.serverConnectionsTotal +
        m.metrics.serverConnectionErrorsTotal + connects =
      m.metrics.poolMissesTotal + n.metrics.serverConnectionsTotal +
        n.metrics.serverConnectionErrorsTotal + later)
    (errors : pool.totalErrors + m.metrics.poolTimeoutsTotal + m.metrics.serverConnectionErrorsTotal =
      (m.pool key).totalErrors + n.metrics.poolTimeoutsTotal + n.metrics.serverConnectionErrorsTotal) :
    Reconciled n later := by
  have holders := overTable_setPool PoolManager.acquired (fun _ => rfl) m key pool
  have failures := overTable_setPool PoolManager.errors (fun _ => rfl) m key pool
  have hits := before.acquired
  have missed := before.misses
  have failed := before.errors
  simp only [PoolManager.acquired, PoolManager.errors] at holders failures
  constructor
  · rw [pools]
    omega
  · omega
  · rw [pools]
    omega

-- Neither the queues nor the number of connections are in the books.
theorem Reconciled.setPool (before : Reconciled m connects) (key : PoolKey) (pool : Pool)
    (acquired : pool.totalAcquired = (m.pool key).totalAcquired)
    (errors : pool.totalErrors = (m.pool key).totalErrors) : Reconciled (m.setPool key pool) connects := by
  refine before.change _ key pool rfl ?_ rfl ?_
  · rw [acquired]
    rfl
  · rw [errors]
    rfl

theorem Reconciled.entry (before : Reconciled m connects) (key : PoolKey) : Reconciled (m.entry key) connects := by
  rw [PoolManager.entry]
  split
  · exact before
  · rename_i absent
    refine before.setPool key {} ?_ ?_ <;> simp [PoolManager.pool, absent]

theorem Reconciled.forgotten (before : Reconciled m connects) (n : Nat) : Reconciled (forget^[n] m) connects := by
  induction n generalizing m with
  | zero => exact before
  | succ n ih => exact ih ⟨before.acquired, before.misses, before.errors⟩

theorem Reconciled.evict (before : Reconciled m connects) (key : PoolKey) (n : Nat) :
    Reconciled (m.evict key n) connects := by
  have same : (forget^[n] m).pool key = m.pool key := by simp [PoolManager.pool]
  refine (before.forgotten n).setPool key { m.pool key with idle := (m.pool key).idle.drop n } ?_ ?_
  · rw [same]
  · rw [same]

theorem Reconciled.takeFirst (before : Reconciled m connects) (key : PoolKey) :
    Reconciled (m.takeFirst key) connects := by
  refine before.change (m.takeFirst key) key { m.pool key with
    idle := (m.pool key).idle.tail
    activeCount := (m.pool key).activeCount.fetchAdd
    totalAcquired := (m.pool key).totalAcquired + 1 } rfl ?_ rfl rfl
  simp only [PoolManager.takeFirst, PoolManager.setPool]
  omega

theorem Reconciled.bail (before : Reconciled m connects) (key : PoolKey) (error : AcquireError) :
    Reconciled (m.bail key error).1 connects := by
  refine before.change (m.bail key error).1 key { m.pool key with
    totalErrors := (m.pool key).totalErrors + 1 } rfl rfl rfl ?_
  simp only [PoolManager.bail]
  omega

theorem Reconciled.connected (before : Reconciled m (connects + 1)) (key : PoolKey) :
    Reconciled (m.connected key) connects := by
  refine before.change (m.connected key) key { m.pool key with
    activeCount := (m.pool key).activeCount.fetchAdd
    totalAcquired := (m.pool key).totalAcquired + 1 } rfl ?_ ?_ rfl
  all_goals
    simp only [PoolManager.connected, PoolManager.setPool]
    omega

theorem Reconciled.refused (before : Reconciled m (connects + 1)) (key : PoolKey) :
    Reconciled (m.refused key) connects := by
  refine before.change (m.refused key) key { m.pool key with
    totalErrors := (m.pool key).totalErrors + 1 } rfl rfl ?_ ?_
  all_goals
    simp only [PoolManager.refused, PoolManager.setPool]
    omega

theorem Reconciled.checkCapacity (before : Reconciled m connects) (cfg : PoolConfig) (now : Instant)
    (key : PoolKey) (deadline : Instant) :
    Reconciled (checkCapacity cfg now key deadline m).1
      (connects + (checkCapacity cfg now key deadline m).2.connects) := by
  simp only [PoolManager.checkCapacity]
  split_ifs
  · exact before.bail key .globalLimit
  · exact before
  · exact before.bail key .perPoolLimit
  · exact before
  · refine ⟨before.acquired, ?_, before.errors⟩
    have misses := before.misses
    simp only [Attempt.connects]
    omega

theorem Reconciled.attempt (before : Reconciled m connects) (cfg : PoolConfig) (now : Instant)
    (key : PoolKey) (deadline : Instant) :
    Reconciled (attempt cfg now key deadline m).1
      (connects + (attempt cfg now key deadline m).2.connects) := by
  rw [attempt_eq]
  have evicted := before.evict key ((m.pool key).idle.takeWhile (expired cfg now)).length
  dsimp only
  split
  · exact evicted.takeFirst key
  · exact evicted.checkCapacity cfg now key deadline

end Reconciled

end PoolManager

namespace System

open PoolManager

theorem Reconciled.park {m : PoolManager} {connects : Nat} (before : Reconciled m connects) (i : Nat)
    (call : AcquireCall) (deadline : Instant) : Reconciled (park m i call deadline).1 connects :=
  before.setPool call.key _ rfl rfl

theorem acquireLoop_reconciled {m : PoolManager} {connects : Nat} (before : Reconciled m connects)
    (cfg : PoolConfig) (now : Instant) (i : Nat) (call : AcquireCall) (deadline : Instant) (fuel : Nat) :
    Reconciled (acquireLoop cfg now i call deadline fuel m).1
      (connects + (acquireLoop cfg now i call deadline fuel m).2.missWeight) := by
  induction fuel generalizing m with
  | zero => exact Reconciled.park before i call deadline
  | succ fuel ih =>
    have passed := before.attempt cfg now call.key deadline
    simp only [acquireLoop]
    cases pass : attempt cfg now call.key deadline m with
    | mk after result =>
      rw [pass] at passed
      cases result with
      | reuse stream => exact passed
      | connect => exact passed
      | bail error => exact passed
      | wait =>
        dsimp only
        split
        · exact ih (passed.setPool call.key _ rfl rfl)
        · exact Reconciled.park passed i call deadline

theorem notifyOne_reconciled {s : System} {connects : Nat} (before : Reconciled s.manager connects)
    (key : PoolKey) : Reconciled (s.notifyOne key).manager connects := by
  rw [notifyOne]
  split
  · exact before.setPool key _ rfl rfl
  · exact before.setPool key _ rfl rfl

def panics (s : System) : Nat := Tally.overList Task.panicWeight s.tasks

def misses (s : System) : Nat := Tally.overList Task.missWeight s.tasks

theorem misses_eq (s : System) : s.misses = s.connects + s.panics := Tally.overList_add _ _ s.tasks

def MetricsReconcile (s : System) : Prop := Reconciled s.manager s.connects

/-- A connect that has panicked stays on the books as one in progress. -/
def Booked (s : System) : Prop := Reconciled s.manager s.misses

theorem Booked.reconciles_iff {s : System} (booked : s.Booked) : s.MetricsReconcile ↔ s.panics = 0 := by
  have total := s.misses_eq
  have balance := booked.misses
  constructor
  · intro reconciled
    have current := reconciled.misses
    omega
  · intro none
    rw [none, Nat.add_zero] at total
    rwa [MetricsReconcile, ← total]

theorem notifyOne_misses (s : System) (key : PoolKey) : (s.notifyOne key).misses = s.misses := by
  rw [notifyOne]
  split
  · exact Task.missWeight_counts.notify s.tasks _
  · rfl

theorem Booked.notifyOne {s : System} (before : s.Booked) (key : PoolKey) : (s.notifyOne key).Booked := by
  rw [Booked, notifyOne_misses]
  exact notifyOne_reconciled before key

-- The caller takes part in no connect, before or after, or has panicked in it.
theorem Booked.settle {s : System} {m : PoolManager} (before : Reconciled m s.misses) {i : Nat} {old new : Task}
    (here : s.tasks[i]? = some old) (same : new.missWeight = old.missWeight) :
    Booked { s with manager := m, tasks := s.tasks.set i new } := by
  have balance := Tally.overList_set Task.missWeight new here
  rw [same] at balance
  rwa [Booked, misses, Nat.add_right_cancel balance]

theorem Booked.resume {cfg : PoolConfig} {s : System} {m : PoolManager} (before : Reconciled m s.misses) {i : Nat}
    {old : Task} (here : s.tasks[i]? = some old) (weightless : old.Weightless) (call : AcquireCall)
    (deadline : Instant) : (s.resume cfg i call deadline m).Booked := by
  have polled := acquireLoop_reconciled before cfg s.now i call deadline 2
  rw [Booked, misses, System.resume]
  dsimp only
  rwa [Task.missWeight_counts.take _ here weightless]

-- One connect fewer is in progress.
theorem misses_set {s : System} {i : Nat} {call : AcquireCall} (new : Task)
    (here : s.tasks[i]? = some (.connecting call)) (ended : new.missWeight = 0) :
    s.misses = Tally.overList Task.missWeight (s.tasks.set i new) + 1 := by
  have balance := Tally.overList_set Task.missWeight new here
  rw [ended] at balance
  exact balance.symm

theorem step_booked {cfg : PoolConfig} (s : System) (a : Action) (t : System) (before : s.Booked)
    (stepped : step cfg s a = some t) : t.Booked := by
  cases step_steps stepped with
  | tick elapsed => exact before
  | call call =>
    rw [Booked, misses, Task.missWeight_counts.spawn]
    exact before
  | begin i call here => exact Booked.resume (before.entry call.key) here trivial call _
  | wake i call deadline here => exact Booked.resume before here trivial call deadline
  | expire i call deadline notified here late =>
    have failed := before.bail call.key .timeout
    have left : (s.leaving i call).Booked := by
      refine Booked.settle ?_ here rfl
      exact failed.setPool call.key _ rfl rfl
    rw [timeOut_eq]
    split
    · exact left.notifyOne call.key
    · exact left
  | connected i call here =>
    rw [Booked, misses_set (.holding call _) here rfl] at before
    exact before.connected call.key
  | refused i call error here =>
    rw [Booked, misses_set (.failed call _) here rfl] at before
    exact before.refused call.key
  | panicked i call here => exact Booked.settle before here rfl
  | release i call stream pool here present =>
    refine Booked.settle (before.setPool call.key _ ?_ ?_) here rfl
    · rw [pool_of_lookup present]
    · rw [pool_of_lookup present]
  | lost i call stream here gone => exact Booked.settle (before.forgotten 1) here rfl
  | push i call stream here =>
    refine Booked.notifyOne ?_ call.key
    have pushed := before.setPool call.key { s.manager.pool call.key with
      idle := (s.manager.pool call.key).idle ++ [⟨stream, s.now, s.now⟩] } rfl rfl
    exact Booked.settle pushed here rfl
  | drop i call stream cause here => exact Booked.settle (before.forgotten 1) here rfl

end System

end PgMux
