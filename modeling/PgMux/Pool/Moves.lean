import PgMux.Pool.System

set_option autoImplicit false

namespace PgMux

def Task.Weightless : Task → Prop
  | .connecting _ | .holding _ _ | .resetting _ _ | .panicked _ => False
  | _ => True

namespace System

open PoolManager Relation

/-- The elementary changes of which every step is made. A step of a task touches one pool. -/
inductive Move : System → System → Prop
  | tick (s : System) (elapsed : Nat) : Move s { s with now := s.now + elapsed }
  | spawn (s : System) (call : AcquireCall) : Move s { s with tasks := s.tasks ++ [.called call] }
  | notify (s : System) (i : Nat) : Move s { s with tasks := s.tasks.modify i Task.notify }
  | settle (s : System) (i : Nat) (old new : Task) (here : s.tasks[i]? = some old)
      (before : old.Weightless) (after : new.Weightless) : Move s { s with tasks := s.tasks.set i new }
  | record (s : System) (metrics : Metrics)
      (gauge : metrics.serverConnectionsActive = s.manager.metrics.serverConnectionsActive) :
      Move s { s with manager := { s.manager with metrics := metrics } }
  | adjust (s : System) (key : PoolKey) (pool : Pool) (idle : pool.idle = (s.manager.pool key).idle)
      (active : pool.activeCount = (s.manager.pool key).activeCount) :
      Move s { s with manager := s.manager.setPool key pool }
  | evict (s : System) (key : PoolKey) (n : Nat) (within : n ≤ (s.manager.pool key).idle.length) :
      Move s { s with manager := s.manager.evict key n }
  | reuse (s : System) (i : Nat) (old : Task) (call : AcquireCall) (conn : PooledConnection)
      (rest : List PooledConnection) (here : s.tasks[i]? = some old) (before : old.Weightless)
      (front : (s.manager.pool call.key).idle = conn :: rest) :
      Move s { s with
        manager := s.manager.takeFirst call.key
        tasks := s.tasks.set i (.holding call conn.stream) }
  | connected (s : System) (i : Nat) (call : AcquireCall)
      (here : s.tasks[i]? = some (.connecting call)) :
      Move s { s with
        manager := s.manager.connected call.key
        tasks := s.tasks.set i
          (.holding call ⟨s.opened.length, call.key, call.password, call.extraParams⟩)
        opened := s.opened ++ [⟨s.opened.length, call.key, call.password, call.extraParams⟩] }
  | refused (s : System) (i : Nat) (call : AcquireCall) (error : AcquireError)
      (here : s.tasks[i]? = some (.connecting call)) :
      Move s { s with
        manager := s.manager.refused call.key
        tasks := s.tasks.set i (.failed call error) }
  | panicked (s : System) (i : Nat) (call : AcquireCall) (here : s.tasks[i]? = some (.connecting call)) :
      Move s { s with tasks := s.tasks.set i (.panicked call) }
  | release (s : System) (i : Nat) (call : AcquireCall) (stream : TcpStream)
      (here : s.tasks[i]? = some (.holding call stream)) :
      Move s { s with
        manager := s.manager.setPool call.key { s.manager.pool call.key with
          activeCount := (s.manager.pool call.key).activeCount.fetchSub }
        tasks := s.tasks.set i (.resetting call stream) }
  | lost (s : System) (i : Nat) (call : AcquireCall) (stream : TcpStream)
      (here : s.tasks[i]? = some (.holding call stream))
      (gone : s.manager.pools.lookup call.key = none) :
      Move s { s with manager := s.manager.forget, tasks := s.tasks.set i (.released call) }
  | push (s : System) (i : Nat) (call : AcquireCall) (stream : TcpStream)
      (here : s.tasks[i]? = some (.resetting call stream)) :
      Move s { s with
        manager := s.manager.pushIdle call.key stream s.now
        tasks := s.tasks.set i (.released call) }
  | drop (s : System) (i : Nat) (call : AcquireCall) (stream : TcpStream)
      (here : s.tasks[i]? = some (.resetting call stream)) :
      Move s { s with manager := s.manager.forget, tasks := s.tasks.set i (.released call) }

inductive Start : System → System → Prop
  | mk (s : System) (i : Nat) (old : Task) (call : AcquireCall) (here : s.tasks[i]? = some old)
      (before : old.Weightless) : Start s { s with tasks := s.tasks.set i (.connecting call) }

abbrev Moves : System → System → Prop := ReflTransGen Move

theorem bail_moves (s : System) (key : PoolKey) (error : AcquireError) :
    Moves s { s with manager := (s.manager.bail key error).1 } := by
  refine (ReflTransGen.single (.adjust s key { s.manager.pool key with
    totalErrors := (s.manager.pool key).totalErrors + 1 } rfl rfl)).trans (.single ?_)
  exact .record { s with manager := s.manager.setPool key _ } { s.manager.metrics with
    poolTimeoutsTotal := s.manager.metrics.poolTimeoutsTotal + 1 } rfl

theorem notifyOne_moves (s : System) (key : PoolKey) : Moves s (s.notifyOne key) := by
  rw [notifyOne]
  split
  · rename_i i rest queue
    refine (ReflTransGen.single (.adjust s key { s.manager.pool key with
      waiters := { (s.manager.pool key).waiters with queue := rest } } rfl rfl)).trans (.single ?_)
    exact .notify { s with manager := s.manager.setPool key _ } i
  · exact .single (.adjust s key _ rfl rfl)

theorem notifyOne_opened (s : System) (key : PoolKey) : (s.notifyOne key).opened = s.opened := by
  rw [notifyOne]
  split <;> rfl

theorem notifyOne_now (s : System) (key : PoolKey) : (s.notifyOne key).now = s.now := by
  rw [notifyOne]
  split <;> rfl

theorem park_moves (s : System) (i : Nat) (call : AcquireCall) (deadline : Instant) (old : Task)
    (here : s.tasks[i]? = some old) (before : old.Weightless) :
    Moves s { s with
      manager := (park s.manager i call deadline).1
      tasks := s.tasks.set i (park s.manager i call deadline).2 } := by
  let pool := s.manager.pool call.key
  refine (ReflTransGen.single (.adjust s call.key { pool with
    waiters := { pool.waiters with queue := pool.waiters.queue ++ [i] } } rfl rfl)).trans (.single ?_)
  exact .settle { s with manager := (park s.manager i call deadline).1 } i old
    (.waiting call deadline false) here before trivial

theorem checkCapacity_moves (cfg : PoolConfig) (s : System) (key : PoolKey) (deadline : Instant) :
    Moves s { s with manager := (checkCapacity cfg s.now key deadline s.manager).1 } := by
  simp only [checkCapacity]
  split_ifs
  · exact bail_moves s key _
  · exact .refl
  · exact bail_moves s key _
  · exact .refl
  · exact .single (.record s _ rfl)

theorem checkCapacity_ne_reuse (cfg : PoolConfig) (now : Instant) (key : PoolKey)
    (deadline : Instant) (m : PoolManager) (stream : TcpStream) :
    (checkCapacity cfg now key deadline m).2 ≠ .reuse stream := by
  simp only [checkCapacity]
  split_ifs <;> simp [bail]

theorem evict_moves (cfg : PoolConfig) (s : System) (key : PoolKey) :
    Moves s { s with
      manager := s.manager.evict key
        ((s.manager.pool key).idle.takeWhile (expired cfg s.now)).length } :=
  .single (.evict s key _ (List.takeWhile_sublist _).length_le)

theorem reuse_moves (cfg : PoolConfig) (s : System) (i : Nat) (call : AcquireCall)
    (deadline : Instant) (old : Task) (here : s.tasks[i]? = some old) (before : old.Weightless)
    {m : PoolManager} {stream : TcpStream}
    (reused : attempt cfg s.now call.key deadline s.manager = (m, .reuse stream)) :
    Moves s { s with manager := m, tasks := s.tasks.set i (.holding call stream) } := by
  rw [attempt_eq] at reused
  have kept := drop_takeWhile_length (expired cfg s.now) (s.manager.pool call.key).idle
  cases fresh : (s.manager.pool call.key).idle.dropWhile (expired cfg s.now) with
  | nil =>
    simp only [fresh] at reused
    exact absurd (congrArg Prod.snd reused) (checkCapacity_ne_reuse _ _ _ _ _ _)
  | cons conn rest =>
    simp only [fresh, Prod.mk.injEq, Attempt.reuse.injEq] at reused
    obtain ⟨rfl, rfl⟩ := reused
    refine (evict_moves cfg s call.key).trans (.single ?_)
    exact .reuse { s with manager := s.manager.evict call.key _ } i old call conn rest here before
      (by simp [PoolManager.evict, kept, fresh])

theorem attempt_moves (cfg : PoolConfig) (s : System) (key : PoolKey) (deadline : Instant)
    (other : ∀ stream, (attempt cfg s.now key deadline s.manager).2 ≠ .reuse stream) :
    Moves s { s with manager := (attempt cfg s.now key deadline s.manager).1 } := by
  rw [attempt_eq] at other ⊢
  cases fresh : (s.manager.pool key).idle.dropWhile (expired cfg s.now) with
  | nil =>
    exact (evict_moves cfg s key).trans
      (checkCapacity_moves cfg { s with manager := s.manager.evict key _ } key deadline)
  | cons conn rest => simp [fresh] at other

theorem acquireLoop_moves (cfg : PoolConfig) (s : System) (i : Nat) (call : AcquireCall)
    (deadline : Instant) (old : Task) (here : s.tasks[i]? = some old) (before : old.Weightless)
    (fuel : Nat) (m : PoolManager) (task : Task)
    (ran : acquireLoop cfg s.now i call deadline fuel s.manager = (m, task)) :
    Moves s { s with manager := m, tasks := s.tasks.set i task } ∨
      task = .connecting call ∧ Moves s { s with manager := m } := by
  induction fuel generalizing s with
  | zero =>
    left
    have parked := park_moves s i call deadline old here before
    rwa [show park s.manager i call deadline = (m, task) from ran] at parked
  | succ fuel ih =>
    have passed := attempt_moves cfg s call.key deadline
    simp only [acquireLoop] at ran
    match pass : attempt cfg s.now call.key deadline s.manager with
    | (after, .reuse stream) =>
      simp only [pass, Prod.mk.injEq] at ran
      obtain ⟨rfl, rfl⟩ := ran
      exact .inl (reuse_moves cfg s i call deadline old here before pass)
    | (after, .connect) =>
      simp only [pass, Prod.mk.injEq] at ran passed
      obtain ⟨rfl, rfl⟩ := ran
      exact .inr ⟨rfl, passed (by simp)⟩
    | (after, .bail error) =>
      simp only [pass, Prod.mk.injEq] at ran passed
      obtain ⟨rfl, rfl⟩ := ran
      refine .inl ((passed (by simp)).trans (.single ?_))
      exact .settle { s with manager := after } i old (.failed call error) here before trivial
    | (after, .wait) =>
      simp only [pass] at ran passed
      have reached := passed (by simp)
      split at ran
      · let next : System := { s with manager := after.setPool call.key { after.pool call.key with
          waiters := { (after.pool call.key).waiters with permit := false } } }
        have moved : Moves s next := reached.trans
          (.single (.adjust { s with manager := after } call.key _ rfl rfl))
        obtain done | ⟨started, done⟩ := ih next here ran
        · exact .inl (moved.trans done)
        · exact .inr ⟨started, moved.trans done⟩
      · have parked := park_moves { s with manager := after } i call deadline old here before
        left
        rw [show park after i call deadline = (m, task) from ran] at parked
        exact reached.trans parked

theorem resume_moves (cfg : PoolConfig) (s : System) (i : Nat) (call : AcquireCall)
    (deadline : Instant) (old : Task) (here : s.tasks[i]? = some old) (before : old.Weightless) :
    Moves s (s.resume cfg i call deadline s.manager) ∨
      ∃ t, Moves s t ∧ Start t (s.resume cfg i call deadline s.manager) := by
  match ran : acquireLoop cfg s.now i call deadline 2 s.manager with
  | (m, task) =>
    simp only [resume, ran]
    obtain done | ⟨rfl, done⟩ := acquireLoop_moves cfg s i call deadline old here before 2 m task ran
    · exact .inl done
    · exact .inr ⟨_, done, .mk { s with manager := m } i old call here before⟩

theorem entry_moves (s : System) (key : PoolKey) :
    Moves s { s with manager := s.manager.entry key } := by
  rw [entry]
  split
  · exact .refl
  · rename_i absent
    refine .single (.adjust s key {} ?_ ?_) <;> simp [PoolManager.pool, absent]

theorem timeOut_moves (s : System) (i : Nat) (call : AcquireCall) (notified : Bool) (old : Task)
    (here : s.tasks[i]? = some old) (before : old.Weightless) :
    Moves s (s.timeOut i call notified) := by
  let failed : System := { s with manager := (s.manager.bail call.key .timeout).1 }
  let pool := failed.manager.pool call.key
  let left : System := { failed with
    manager := failed.manager.setPool call.key
      { pool with waiters := { pool.waiters with queue := pool.waiters.queue.erase i } } }
  let settled : System := { left with tasks := s.tasks.set i (.failed call .timeout) }
  have dequeued : Move failed left := .adjust failed call.key _ rfl rfl
  have marked : Move left settled := .settle left i old (.failed call .timeout) here before trivial
  have moved : Moves s settled :=
    ((bail_moves s call.key .timeout).tail dequeued).tail marked
  cases notified with
  | false => exact moved
  | true => exact moved.trans (notifyOne_moves settled call.key)

inductive Steps (cfg : PoolConfig) (s : System) : Action → System → Prop
  | tick (elapsed : Nat) : Steps cfg s (.tick elapsed) { s with now := s.now + elapsed }
  | call (call : AcquireCall) : Steps cfg s (.call call) { s with tasks := s.tasks ++ [.called call] }
  | begin (i : Nat) (call : AcquireCall) (here : s.tasks[i]? = some (.called call)) :
      Steps cfg s (.poll i)
        (s.resume cfg i call (s.now + fromMillis cfg.acquireTimeoutMs) (s.manager.entry call.key))
  | wake (i : Nat) (call : AcquireCall) (deadline : Instant)
      (here : s.tasks[i]? = some (.waiting call deadline true)) :
      Steps cfg s (.poll i) (s.resume cfg i call deadline s.manager)
  | expire (i : Nat) (call : AcquireCall) (deadline : Instant) (notified : Bool)
      (here : s.tasks[i]? = some (.waiting call deadline notified)) (late : deadline ≤ s.now) :
      Steps cfg s (.expire i) (s.timeOut i call notified)
  | connected (i : Nat) (call : AcquireCall) (here : s.tasks[i]? = some (.connecting call)) :
      Steps cfg s (.connected i (.ok ())) { s with
        manager := s.manager.connected call.key
        tasks := s.tasks.set i
          (.holding call ⟨s.opened.length, call.key, call.password, call.extraParams⟩)
        opened := s.opened ++ [⟨s.opened.length, call.key, call.password, call.extraParams⟩] }
  | refused (i : Nat) (call : AcquireCall) (error : ConnectError)
      (here : s.tasks[i]? = some (.connecting call)) (returns : error ≠ .panic) :
      Steps cfg s (.connected i (.error error)) { s with
        manager := s.manager.refused call.key
        tasks := s.tasks.set i (.failed call (.connect call.key error.text)) }
  | panicked (i : Nat) (call : AcquireCall) (here : s.tasks[i]? = some (.connecting call)) :
      Steps cfg s (.connected i (.error .panic)) { s with tasks := s.tasks.set i (.panicked call) }
  | release (i : Nat) (call : AcquireCall) (stream : TcpStream) (pool : Pool)
      (here : s.tasks[i]? = some (.holding call stream))
      (present : s.manager.pools.lookup call.key = some pool) :
      Steps cfg s (.release i) { s with
        manager := s.manager.setPool call.key { pool with activeCount := pool.activeCount.fetchSub }
        tasks := s.tasks.set i (.resetting call stream) }
  | lost (i : Nat) (call : AcquireCall) (stream : TcpStream)
      (here : s.tasks[i]? = some (.holding call stream))
      (gone : s.manager.pools.lookup call.key = none) :
      Steps cfg s (.release i)
        { s with manager := s.manager.forget, tasks := s.tasks.set i (.released call) }
  | push (i : Nat) (call : AcquireCall) (stream : TcpStream)
      (here : s.tasks[i]? = some (.resetting call stream)) :
      Steps cfg s (.reset i (.ok ()))
        ({ s with
          manager := s.manager.pushIdle call.key stream s.now
          tasks := s.tasks.set i (.released call) }.notifyOne call.key)
  | drop (i : Nat) (call : AcquireCall) (stream : TcpStream) (cause : String)
      (here : s.tasks[i]? = some (.resetting call stream)) :
      Steps cfg s (.reset i (.error cause))
        { s with manager := s.manager.forget, tasks := s.tasks.set i (.released call) }

theorem step_steps {cfg : PoolConfig} {s t : System} {a : Action} (stepped : step cfg s a = some t) :
    Steps cfg s a t := by
  cases a with
  | tick elapsed => exact Option.some.inj stepped ▸ .tick elapsed
  | call call => exact Option.some.inj stepped ▸ .call call
  | poll i =>
    simp only [step] at stepped
    split at stepped
    · rename_i call here
      exact Option.some.inj stepped ▸ .begin i call here
    · rename_i call deadline here
      exact Option.some.inj stepped ▸ .wake i call deadline here
    · simp at stepped
  | expire i =>
    simp only [step] at stepped
    split at stepped
    · rename_i call deadline notified here
      split at stepped
      · rename_i late
        exact Option.some.inj stepped ▸ .expire i call deadline notified here late
      · simp at stepped
    · simp at stepped
  | connected i result =>
    simp only [step] at stepped
    split at stepped
    · rename_i call here
      split at stepped
      · exact Option.some.inj stepped ▸ .connected i call here
      · exact Option.some.inj stepped ▸ .panicked i call here
      · rename_i error returns
        exact Option.some.inj stepped ▸ .refused i call error here returns
    · simp at stepped
  | release i =>
    simp only [step] at stepped
    split at stepped
    · rename_i call stream here
      cases present : s.manager.pools.lookup call.key with
      | none =>
        simp only [beginRelease, present] at stepped
        exact Option.some.inj stepped ▸ .lost i call stream here present
      | some pool =>
        simp only [beginRelease, present] at stepped
        exact Option.some.inj stepped ▸ .release i call stream pool here present
    · simp at stepped
  | reset i result =>
    simp only [step] at stepped
    split at stepped
    · rename_i call stream here
      split at stepped
      · exact Option.some.inj stepped ▸ .push i call stream here
      · exact Option.some.inj stepped ▸ .drop i call stream _ here
    · simp at stepped

theorem step_moves (cfg : PoolConfig) (s t : System) (a : Action) (stepped : step cfg s a = some t) :
    Moves s t ∨ (∃ i, a = .poll i) ∧ ∃ u, Moves s u ∧ Start u t := by
  cases step_steps stepped with
  | tick elapsed => exact .inl (.single (.tick s elapsed))
  | call call => exact .inl (.single (.spawn s call))
  | begin i call here =>
    have created := entry_moves s call.key
    obtain done | ⟨u, moved, started⟩ := resume_moves cfg
      { s with manager := s.manager.entry call.key } i call _ _ here trivial
    · exact .inl (created.trans done)
    · exact .inr ⟨⟨i, rfl⟩, u, created.trans moved, started⟩
  | wake i call deadline here =>
    obtain done | started := resume_moves cfg s i call deadline _ here trivial
    · exact .inl done
    · exact .inr ⟨⟨i, rfl⟩, started⟩
  | expire i call deadline notified here late =>
    exact .inl (timeOut_moves s i call notified _ here trivial)
  | connected i call here => exact .inl (.single (.connected s i call here))
  | refused i call error here => exact .inl (.single (.refused s i call _ here))
  | panicked i call here => exact .inl (.single (.panicked s i call here))
  | release i call stream pool here present =>
    have moved := Move.release s i call stream here
    rw [pool_of_lookup present] at moved
    exact .inl (.single moved)
  | lost i call stream here gone => exact .inl (.single (.lost s i call stream here gone))
  | push i call stream here =>
    left
    exact (ReflTransGen.single (.push s i call stream here)).trans (notifyOne_moves _ call.key)
  | drop i call stream cause here => exact .inl (.single (.drop s i call stream here))

theorem moves_invariant {inv : System → Prop} (move : ∀ s t, inv s → Move s t → inv t) {s t : System}
    (holds : inv s) (moved : Moves s t) : inv t := by
  induction moved with
  | refl => exact holds
  | tail _ last ih => exact move _ _ ih last

theorem step_invariant {inv : System → Prop} (move : ∀ s t, inv s → Move s t → inv t)
    (start : ∀ s t, inv s → Start s t → inv t) (cfg : PoolConfig) (s : System) (a : Action) (t : System)
    (holds : inv s) (stepped : step cfg s a = some t) : inv t := by
  have along {u : System} (moved : Moves s u) : inv u := moves_invariant move holds moved
  obtain moved | ⟨-, u, moved, started⟩ := step_moves cfg s t a stepped
  · exact along moved
  · exact start _ _ (along moved) started

theorem reachable_invariant {inv : System → Prop} (initial : inv {})
    (move : ∀ s t, inv s → Move s t → inv t) (start : ∀ s t, inv s → Start s t → inv t)
    {cfg : PoolConfig} {s : System} (reached : Reachable cfg s) : inv s := by
  obtain ⟨actions, reached⟩ := reached
  exact Transition.invariant (step_invariant move start cfg) initial reached

end System

end PgMux
