import PgMux.Pool.Moves

set_option autoImplicit false

namespace PgMux

def Task.asking : Task → Option AcquireCall
  | .called call | .waiting call _ true => some call
  | _ => none

def Task.TurnedAway : Task → Prop
  | .waiting _ _ _ | .failed _ _ => True
  | _ => False

theorem Task.TurnedAway.weightless {task : Task} (away : task.TurnedAway) : task.Weightless := by
  cases task <;> simp_all [Task.TurnedAway, Task.Weightless]

namespace PoolManager

structure Alike (m n : PoolManager) : Prop where
  total : n.totalServerConnections = m.totalServerConnections
  idle : ∀ key, (n.pool key).idle = (m.pool key).idle
  active : ∀ key, (n.pool key).activeCount = (m.pool key).activeCount

def HasRoom (cfg : PoolConfig) (key : PoolKey) (m : PoolManager) : Prop :=
  m.totalServerConnections.value < cfg.maxTotalConnections ∧
    (m.pool key).activeCount.value + (m.pool key).idle.length < cfg.maxConnectionsPerPool

instance (cfg : PoolConfig) (key : PoolKey) (m : PoolManager) : Decidable (HasRoom cfg key m) :=
  inferInstanceAs (Decidable (_ ∧ _))

theorem Alike.refl (m : PoolManager) : Alike m m := ⟨rfl, fun _ => rfl, fun _ => rfl⟩

theorem Alike.trans {m n o : PoolManager} (first : Alike m n) (second : Alike n o) : Alike m o :=
  ⟨second.total.trans first.total, fun key => (second.idle key).trans (first.idle key),
    fun key => (second.active key).trans (first.active key)⟩

theorem Alike.hasRoom {cfg : PoolConfig} {key : PoolKey} {m n : PoolManager} (alike : Alike m n) :
    HasRoom cfg key n ↔ HasRoom cfg key m := by
  simp only [HasRoom, alike.total, alike.idle, alike.active]

theorem alike_setPool (m : PoolManager) (key : PoolKey) (pool : Pool)
    (idle : pool.idle = (m.pool key).idle) (active : pool.activeCount = (m.pool key).activeCount) :
    Alike m (m.setPool key pool) := by
  refine ⟨rfl, fun other => ?_, fun other => ?_⟩
  all_goals
    rw [pool_setPool_apply]
    split
    · simp_all
    · rfl

theorem alike_entry (m : PoolManager) (key : PoolKey) : Alike m (m.entry key) := by
  rw [entry]
  split
  · exact .refl m
  · rename_i absent
    refine alike_setPool m key {} ?_ ?_ <;> simp [PoolManager.pool, absent]

theorem alike_bail (m : PoolManager) (key : PoolKey) (error : AcquireError) :
    Alike m (m.bail key error).1 := by
  have same := alike_setPool m key
    { m.pool key with totalErrors := (m.pool key).totalErrors + 1 } rfl rfl
  exact ⟨same.total, same.idle, same.active⟩

theorem alike_evict_zero (m : PoolManager) (key : PoolKey) : Alike m (m.evict key 0) :=
  alike_setPool m key _ (List.drop_zero) rfl

theorem evict_zero_of_evict (m : PoolManager) (key : PoolKey) (n : Nat) :
    (m.evict key n).evict key 0 = m.evict key n := by
  simp [evict]

theorem checkCapacity_alike (cfg : PoolConfig) (now : Instant) (key : PoolKey) (deadline : Instant)
    (m : PoolManager) : Alike m (checkCapacity cfg now key deadline m).1 := by
  simp only [checkCapacity]
  split_ifs
  · exact alike_bail m key _
  · exact .refl m
  · exact alike_bail m key _
  · exact .refl m
  · exact ⟨rfl, fun _ => rfl, fun _ => rfl⟩

theorem checkCapacity_connect (cfg : PoolConfig) (now : Instant) (key : PoolKey) (deadline : Instant)
    (m : PoolManager) :
    (checkCapacity cfg now key deadline m).2 = .connect ↔ HasRoom cfg key m := by
  simp only [checkCapacity, HasRoom]
  split_ifs <;> simp [bail] <;> omega

end PoolManager

namespace System

open PoolManager

/-- How a poll of `acquire` ends: with the first idle connection that has not expired, with the start
of a new connection, or with neither when a limit is reached. -/
inductive Polled (cfg : PoolConfig) (now : Instant) (call : AcquireCall) (m : PoolManager) :
    PoolManager → Task → Prop
  | reuse (conn : PooledConnection) (rest : List PooledConnection) (n : Nat)
      (fresh : (m.pool call.key).idle.dropWhile (expired cfg now) = conn :: rest)
      (dropped : (m.pool call.key).idle.drop n = conn :: rest) :
      Polled cfg now call m ((m.evict call.key n).takeFirst call.key) (.holding call conn.stream)
  | start (after : PoolManager)
      (empty : (m.pool call.key).idle.dropWhile (expired cfg now) = [])
      (room : HasRoom cfg call.key (m.evict call.key (m.pool call.key).idle.length))
      (alike : Alike (m.evict call.key (m.pool call.key).idle.length) after) :
      Polled cfg now call m after (.connecting call)
  | wait (after : PoolManager) (task : Task)
      (empty : (m.pool call.key).idle.dropWhile (expired cfg now) = [])
      (full : ¬ HasRoom cfg call.key (m.evict call.key (m.pool call.key).idle.length))
      (alike : Alike (m.evict call.key (m.pool call.key).idle.length) after)
      (away : task.TurnedAway) : Polled cfg now call m after task

theorem alike_park (m : PoolManager) (i : Nat) (call : AcquireCall) (deadline : Instant) :
    Alike m (park m i call deadline).1 :=
  alike_setPool m call.key _ rfl rfl

theorem attempt_full {cfg : PoolConfig} (now : Instant) {key : PoolKey} (deadline : Instant)
    {m : PoolManager} (empty : (m.pool key).idle = []) (full : ¬ HasRoom cfg key m) :
    Alike m (attempt cfg now key deadline m).1 ∧
      ((attempt cfg now key deadline m).2 = .wait ∨
        ∃ error, (attempt cfg now key deadline m).2 = .bail error) := by
  have same := alike_evict_zero m key
  have checked := checkCapacity_connect cfg now key deadline (m.evict key 0)
  have reuse := checkCapacity_ne_reuse cfg now key deadline (m.evict key 0)
  rw [same.hasRoom] at checked
  simp only [attempt_eq, empty, List.takeWhile_nil, List.length_nil, List.dropWhile_nil]
  refine ⟨same.trans (checkCapacity_alike ..), ?_⟩
  match pass : (checkCapacity cfg now key deadline (m.evict key 0)).2 with
  | .reuse stream => exact absurd pass (reuse stream)
  | .connect => exact absurd (checked.mp pass) full
  | .wait => exact .inl rfl
  | .bail error => exact .inr ⟨error, rfl⟩

theorem acquireLoop_full {cfg : PoolConfig} (now : Instant) (i : Nat) {call : AcquireCall}
    (deadline : Instant) (fuel : Nat) {m : PoolManager} (empty : (m.pool call.key).idle = [])
    (full : ¬ HasRoom cfg call.key m) :
    Alike m (acquireLoop cfg now i call deadline fuel m).1 ∧
      (acquireLoop cfg now i call deadline fuel m).2.TurnedAway := by
  induction fuel generalizing m with
  | zero => exact ⟨alike_park m i call deadline, trivial⟩
  | succ fuel ih =>
    obtain ⟨alike, ends⟩ := attempt_full now deadline empty full
    simp only [acquireLoop]
    cases pass : attempt cfg now call.key deadline m with
    | mk after result =>
      simp only [pass] at alike ends ⊢
      cases result with
      | reuse stream => simp at ends
      | connect => simp at ends
      | bail error => exact ⟨alike, trivial⟩
      | wait =>
        dsimp only
        split
        · have taken := alike_setPool after call.key { after.pool call.key with
            waiters := { (after.pool call.key).waiters with permit := false } } rfl rfl
          have next := alike.trans taken
          obtain ⟨same, away⟩ := ih (by rw [next.idle, empty]) (by rwa [next.hasRoom])
          exact ⟨next.trans same, away⟩
        · exact ⟨alike.trans (alike_park after i call deadline), trivial⟩

theorem acquireLoop_polled (cfg : PoolConfig) (now : Instant) (i : Nat) (call : AcquireCall)
    (deadline : Instant) (fuel : Nat) (m : PoolManager) :
    Polled cfg now call m (acquireLoop cfg now i call deadline (fuel + 1) m).1
      (acquireLoop cfg now i call deadline (fuel + 1) m).2 := by
  have kept := drop_takeWhile_length (expired cfg now) (m.pool call.key).idle
  cases fresh : (m.pool call.key).idle.dropWhile (expired cfg now) with
  | cons conn rest =>
    simp only [acquireLoop, attempt_eq, fresh]
    exact .reuse conn rest _ fresh (kept.trans fresh)
  | nil =>
    have all := length_takeWhile_of_dropWhile fresh
    let evicted := m.evict call.key (m.pool call.key).idle.length
    have emptied : (evicted.pool call.key).idle = [] := by simp [evicted, PoolManager.evict]
    have pass : attempt cfg now call.key deadline m = checkCapacity cfg now call.key deadline evicted := by
      simp only [attempt_eq, fresh, all]
      rfl
    by_cases room : HasRoom cfg call.key evicted
    · have connects := (checkCapacity_connect cfg now call.key deadline evicted).mpr room
      have same := checkCapacity_alike cfg now call.key deadline evicted
      simp only [acquireLoop, pass]
      cases checked : checkCapacity cfg now call.key deadline evicted with
      | mk after result =>
        simp only [checked] at same connects
        subst connects
        exact .start after fresh room same
    · -- From here on the loop goes as it would with the queue empty from the start.
      have again : attempt cfg now call.key deadline evicted =
          checkCapacity cfg now call.key deadline evicted := by
        simp only [attempt_eq, emptied, List.takeWhile_nil, List.length_nil, List.dropWhile_nil]
        rw [evict_zero_of_evict]
      have same : acquireLoop cfg now i call deadline (fuel + 1) m =
          acquireLoop cfg now i call deadline (fuel + 1) evicted := by
        simp only [acquireLoop, pass, again]
      obtain ⟨alike, away⟩ := acquireLoop_full now i deadline (fuel + 1) emptied room
      rw [same]
      exact .wait _ _ fresh room alike away

def nextIdle (cfg : PoolConfig) (s : System) (key : PoolKey) : Option PooledConnection :=
  ((s.manager.pool key).idle.dropWhile (expired cfg s.now)).head?

def asking (s : System) (i : Nat) : Option AcquireCall := s.tasks[i]?.bind Task.asking

theorem poll_enabled (cfg : PoolConfig) {s : System} {i : Nat} {call : AcquireCall}
    (asks : s.asking i = some call) : step cfg s (.poll i) ≠ none := by
  obtain ⟨task, here, asks⟩ := Option.bind_eq_some_iff.mp asks
  cases task with
  | called other => simp [step, here]
  | waiting other deadline notified =>
    cases notified with
    | true => simp [step, here]
    | false => simp [Task.asking] at asks
  | _ => simp [Task.asking] at asks

theorem poll_polled {cfg : PoolConfig} {s t : System} {i : Nat} (stepped : step cfg s (.poll i) = some t) :
    ∃ old call before new, s.tasks[i]? = some old ∧ s.asking i = some call ∧ old.Weightless ∧
      Alike s.manager before ∧ Polled cfg s.now call before t.manager new ∧
      t.opened = s.opened ∧ t.tasks = s.tasks.set i new := by
  cases step_steps stepped with
  | begin _ call here =>
    exact ⟨_, call, _, _, here, by simp [asking, here, Task.asking], trivial, alike_entry s.manager call.key,
      acquireLoop_polled cfg s.now i call _ 1 _, rfl, rfl⟩
  | wake _ call deadline here =>
    exact ⟨_, call, _, _, here, by simp [asking, here, Task.asking], trivial, .refl s.manager,
      acquireLoop_polled cfg s.now i call _ 1 _, rfl, rfl⟩

theorem poll_task {cfg : PoolConfig} {s t : System} {i : Nat} (stepped : step cfg s (.poll i) = some t) :
    ∃ old call new, s.tasks[i]? = some old ∧ s.asking i = some call ∧ t.opened = s.opened ∧
      t.tasks = s.tasks.set i new ∧
      (∀ conn, s.nextIdle cfg call.key = some conn → new = .holding call conn.stream) ∧
      (s.nextIdle cfg call.key = none → ∀ other stream, new ≠ .holding other stream) := by
  obtain ⟨old, call, before, new, here, asks, -, alike, polled, opened, tasks⟩ := poll_polled stepped
  refine ⟨old, call, new, here, asks, opened, tasks, ?_⟩
  rw [nextIdle, ← alike.idle call.key]
  generalize t.manager = after at polled
  cases polled with
  | reuse conn rest n fresh dropped => simp [fresh]
  | start _ empty room same => simp [empty]
  | wait _ _ empty full same away =>
    simp only [empty, List.head?_nil]
    refine ⟨by simp, fun _ other stream holding => ?_⟩
    rw [holding] at away
    exact away

theorem poll_starts (cfg : PoolConfig) {s : System} {i : Nat} {call : AcquireCall}
    (here : s.tasks[i]? = some (.called call)) (empty : (s.manager.pool call.key).idle = [])
    (room : HasRoom cfg call.key s.manager) :
    ∃ m, step cfg s (.poll i) = some { s with manager := m, tasks := s.tasks.set i (.connecting call) } ∧
      Alike s.manager m := by
  let deadline := s.now + fromMillis cfg.acquireTimeoutMs
  have entered := alike_entry s.manager call.key
  have nothing := alike_evict_zero (s.manager.entry call.key) call.key
  have stepped : step cfg s (.poll i) = some (s.resume cfg i call deadline (s.manager.entry call.key)) := by
    simp [step, here, deadline]
  have polled := acquireLoop_polled cfg s.now i call deadline 1 (s.manager.entry call.key)
  rw [stepped, resume]
  generalize (acquireLoop cfg s.now i call deadline 2 (s.manager.entry call.key)) = result at polled ⊢
  obtain ⟨m, task⟩ := result
  rw [← entered.idle] at empty
  have entered_room := entered.hasRoom.mpr room
  cases polled with
  | reuse conn rest n fresh => simp [empty] at fresh
  | start _ _ _ same =>
    rw [empty, List.length_nil] at same
    exact ⟨m, rfl, entered.trans (nothing.trans same)⟩
  | wait _ _ _ full =>
    rw [empty, List.length_nil, nothing.hasRoom] at full
    exact absurd entered_room full

end System

end PgMux
