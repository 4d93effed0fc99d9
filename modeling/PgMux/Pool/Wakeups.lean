import PgMux.Pool.Waiters
import PgMux.Pool.Capacity

set_option autoImplicit false

namespace PgMux

namespace PoolManager

/-- What `acquire` looks for in its loop: an idle connection, or room for a new one. -/
def CouldProceed (cfg : PoolConfig) (key : PoolKey) (m : PoolManager) : Prop :=
  (m.pool key).idle ≠ [] ∨ HasRoom cfg key m

theorem Alike.couldProceed {cfg : PoolConfig} {key : PoolKey} {m n : PoolManager} (alike : Alike m n) :
    CouldProceed cfg key n ↔ CouldProceed cfg key m := by
  simp only [CouldProceed, alike.idle, alike.hasRoom]

def size (m : PoolManager) (key : PoolKey) : Nat :=
  (m.pool key).activeCount.value + (m.pool key).idle.length

end PoolManager

namespace System

open PoolManager

def NoLostWakeup (cfg : PoolConfig) (s : System) : Prop :=
  ∀ i key, s.parked i = some key → ¬ CouldProceed cfg key s.manager

def NoRoomAt (cfg : PoolConfig) (s : System) (total : Nat) (size : PoolKey → Nat) : Prop :=
  ∀ i key, s.parked i = some key →
    ¬ (total < cfg.maxTotalConnections ∧ size key < cfg.maxConnectionsPerPool)

def stale (cfg : PoolConfig) (s : System) (key : PoolKey) : Nat :=
  ((s.manager.pool key).idle.takeWhile (expired cfg s.now)).length

/-- What the step frees is of no use to a parked caller whom the step does not wake: an eviction or a
failed reset lowers the total, a release the size of its pool, and a successful reset leaves a
connection for one. -/
def WakesAll (cfg : PoolConfig) (s : System) : Action → Prop
  | .poll i => ∀ call ∈ s.asking i,
      s.NoRoomAt cfg (s.manager.totalServerConnections.value - s.stale cfg call.key) s.manager.size
  | .release i => ∀ call stream, s.tasks[i]? = some (.holding call stream) →
      s.NoRoomAt cfg s.manager.totalServerConnections.value
        (fun key => if key = call.key then s.manager.size key - 1 else s.manager.size key)
  | .reset i (.ok ()) => ∀ call stream, s.tasks[i]? = some (.resetting call stream) →
      ∀ j k, s.parked j = some call.key → s.parked k = some call.key → j = k
  | .reset i (.error _) => ∀ call stream, s.tasks[i]? = some (.resetting call stream) →
      s.NoRoomAt cfg (s.manager.totalServerConnections.value - 1) s.manager.size
  | _ => True

theorem NoLostWakeup.idle {cfg : PoolConfig} {s : System} (none : s.NoLostWakeup cfg) {i : Nat}
    {key : PoolKey} (waits : s.parked i = some key) : (s.manager.pool key).idle = [] := by
  by_contra idle
  exact none i key waits (.inl idle)

theorem NoLostWakeup.noRoomAt {cfg : PoolConfig} {s : System} (none : s.NoLostWakeup cfg) :
    s.NoRoomAt cfg s.manager.totalServerConnections.value s.manager.size :=
  fun i key waits room => none i key waits (.inr room)

theorem NoLostWakeup.mono {cfg : PoolConfig} {s t : System} (none : s.NoLostWakeup cfg)
    (parked : ∀ i key, t.parked i = some key → s.parked i = some key)
    (freed : ∀ key, CouldProceed cfg key t.manager → CouldProceed cfg key s.manager) :
    t.NoLostWakeup cfg :=
  fun i key waits proceeds => none i key (parked i key waits) (freed key proceeds)

theorem parked_of_settled {s t : System} {i : Nat} {old : Task} (new : Task)
    (here : s.tasks[i]? = some old) (after : new.parked = none)
    (tasks : t.tasks = s.tasks.set i new) (j : Nat) (key : PoolKey) (waits : t.parked j = some key) :
    s.parked j = some key := by
  rw [parked_set new here tasks] at waits
  split at waits
  · rw [after] at waits
    cases waits
  · exact waits

theorem parked_of_notifyOne (s : System) (woken : PoolKey) (j : Nat) (key : PoolKey)
    (waits : (s.notifyOne woken).parked j = some key) : s.parked j = some key := by
  rw [notifyOne] at waits
  split at waits
  · rw [parked_modify] at waits
    split at waits
    · cases waits
    · exact waits
  · exact waits

theorem alike_notifyOne (s : System) (key : PoolKey) : Alike s.manager (s.notifyOne key).manager := by
  rw [notifyOne]
  split
  · exact alike_setPool _ key _ rfl rfl
  · exact alike_setPool _ key _ rfl rfl

theorem couldProceed_of_connected {cfg : PoolConfig} {m : PoolManager} {call key : PoolKey}
    (proceeds : CouldProceed cfg key (m.connected call)) : CouldProceed cfg key m := by
  have total : (m.connected call).totalServerConnections.value = m.totalServerConnections.value + 1 := rfl
  rw [CouldProceed, HasRoom, connected_pool, total] at proceeds
  split at proceeds
  · rename_i at_key
    subst at_key
    refine proceeds.imp_right fun room => ⟨by omega, ?_⟩
    have more := room.2
    simp only [AtomicU64.fetchAdd] at more
    omega
  · exact proceeds.imp_right fun room => ⟨by omega, room.2⟩

theorem evict_pool_ne (m : PoolManager) {key other : PoolKey} (n : Nat) (ne : other ≠ key) :
    (m.evict key n).pool other = m.pool other := by
  rw [PoolManager.evict, pool_setPool_ne _ _ ne]
  simp [PoolManager.pool]

theorem takeFirst_pool_ne (m : PoolManager) {key other : PoolKey} (ne : other ≠ key) :
    (m.takeFirst key).pool other = m.pool other :=
  pool_setPool_ne m { m.pool key with
    idle := (m.pool key).idle.tail
    activeCount := (m.pool key).activeCount.fetchAdd
    totalAcquired := (m.pool key).totalAcquired + 1 } ne

theorem polled_counters {cfg : PoolConfig} {now : Instant} {call : AcquireCall} {m after : PoolManager}
    {task : Task} {v : Nat} (counted : m.totalServerConnections = ⟨v, false⟩)
    (within : (m.pool call.key).idle.length ≤ v) (polled : Polled cfg now call m after task) :
    after.totalServerConnections.value =
        v - ((m.pool call.key).idle.takeWhile (expired cfg now)).length ∧
      ∀ key, key ≠ call.key → (after.pool key).idle = (m.pool key).idle ∧
        (after.pool key).activeCount = (m.pool key).activeCount := by
  have parts := congrArg List.length
    (List.takeWhile_append_dropWhile (p := expired cfg now) (l := (m.pool call.key).idle))
  rw [List.length_append] at parts
  cases polled with
  | reuse conn rest n fresh dropped =>
    have length := congrArg List.length dropped
    rw [fresh] at parts
    simp only [List.length_drop, List.length_cons] at length parts
    constructor
    · rw [takeFirst_total, evict_total call.key n counted (by omega)]
      simp only
      omega
    · intro key other
      rw [takeFirst_pool_ne _ other, evict_pool_ne m n other]
      exact ⟨rfl, rfl⟩
  | start _ empty room alike | wait _ _ empty full alike away =>
    rw [empty, List.length_nil, Nat.add_zero] at parts
    constructor
    · rw [alike.total, evict_total call.key _ counted within, parts]
    · intro key other
      rw [alike.idle, alike.active, evict_pool_ne m _ other]
      exact ⟨rfl, rfl⟩

theorem polled_proceeds {cfg : PoolConfig} {now : Instant} {call : AcquireCall} {m after : PoolManager}
    {task : Task} (polled : Polled cfg now call m after task)
    (proceeds : CouldProceed cfg call.key after) :
    task.parked = none ∧ CouldProceed cfg call.key m := by
  cases polled with
  | reuse conn rest n fresh dropped =>
    refine ⟨rfl, .inl fun empty => ?_⟩
    simp [empty] at fresh
  | start _ empty room alike =>
    refine ⟨rfl, ?_⟩
    by_cases idle : (m.pool call.key).idle = []
    · rw [idle, List.length_nil, (alike_evict_zero m call.key).hasRoom] at room
      exact .inr room
    · exact .inl idle
  | wait _ _ empty full alike away =>
    obtain idle | room := proceeds
    · rw [alike.idle, evict_idle, if_pos rfl, List.drop_length] at idle
      exact absurd rfl idle
    · exact absurd (alike.hasRoom.mp room) full

theorem poll_parks {cfg : PoolConfig} {s t : System} {i : Nat} (stepped : step cfg s (.poll i) = some t) :
    ∃ call, s.asking i = some call ∧ s.parked i = none ∧ (∀ j, j ≠ i → t.parked j = s.parked j) ∧
      ∀ key, t.parked i = some key → key = call.key := by
  obtain ⟨old, call, new, here, unparked, asks, tasks, queues⟩ := poll_queues stepped
  refine ⟨call, asks, (parked_here here).trans unparked, fun j other => ?_, fun key waits => ?_⟩
  · rw [parked_set new here tasks, if_neg other]
  · rw [parked_set new here tasks, if_pos rfl] at waits
    cases queues with
    | kept _ free =>
      rw [free] at waits
      cases waits
    | joined _ joins => exact Option.some.inj (waits.symm.trans joins)

theorem poll_proceeds {cfg : PoolConfig} {s t : System} {i : Nat} {call : AcquireCall}
    (asks : s.asking i = some call) (stepped : step cfg s (.poll i) = some t)
    (proceeds : CouldProceed cfg call.key t.manager) :
    t.parked i = none ∧ CouldProceed cfg call.key s.manager := by
  obtain ⟨old, other, m, new, here, asks', -, alike, polled, -, tasks⟩ := poll_polled stepped
  obtain rfl := Option.some.inj (asks.symm.trans asks')
  obtain ⟨free, before⟩ := polled_proceeds polled proceeds
  refine ⟨?_, alike.couldProceed.mp before⟩
  rw [parked_set new here tasks, if_pos rfl, free]

theorem poll_proceeds_elsewhere {cfg : PoolConfig} {s t : System} {i : Nat} {call : AcquireCall}
    (balanced : Balanced s) (asks : s.asking i = some call) (stepped : step cfg s (.poll i) = some t)
    (key : PoolKey) (other : key ≠ call.key) :
    CouldProceed cfg key t.manager ↔ (s.manager.pool key).idle ≠ [] ∨
      s.manager.totalServerConnections.value - s.stale cfg call.key < cfg.maxTotalConnections ∧
        s.manager.size key < cfg.maxConnectionsPerPool := by
  obtain ⟨old, call', m, new, -, asks', -, alike, polled, -, -⟩ := poll_polled stepped
  obtain rfl := Option.some.inj (asks.symm.trans asks')
  have within := balanced.idle_le call.key
  have counter : m.totalServerConnections = ⟨s.manager.totalServerConnections.value, false⟩ := by
    rw [alike.total, balanced.total]
  obtain ⟨total, others⟩ := polled_counters counter (by rwa [alike.idle]) polled
  obtain ⟨idle, active⟩ := others key other
  rw [alike.idle] at total
  rw [CouldProceed, HasRoom, total, idle, active, alike.idle, alike.active]
  rfl

theorem poll_noLostWakeup {cfg : PoolConfig} {s t : System} {i : Nat} (balanced : Balanced s)
    (before : s.NoLostWakeup cfg) (stepped : step cfg s (.poll i) = some t) :
    t.NoLostWakeup cfg ↔ WakesAll cfg s (.poll i) := by
  obtain ⟨call, asks, unparked, parks, joins⟩ := poll_parks stepped
  have elsewhere := poll_proceeds_elsewhere balanced asks stepped
  constructor
  · intro after other asked j key waits room
    obtain rfl := Option.some.inj (asks.symm.trans asked)
    by_cases at_key : key = call.key
    · -- Where somebody is parked the idle queue is empty, so nothing of this pool is evicted.
      subst at_key
      have nothing : s.stale cfg call.key = 0 := by simp [stale, before.idle waits]
      rw [nothing] at room
      exact before.noRoomAt j _ waits room
    · have away : j ≠ i := by
        rintro rfl
        rw [unparked] at waits
        cases waits
      refine after j key ((parks j away).trans waits) ?_
      exact (elsewhere key at_key).mpr (.inr room)
  · intro none j key waits proceeds
    by_cases at_i : j = i
    · subst at_i
      obtain rfl := joins key waits
      rw [(poll_proceeds asks stepped proceeds).1] at waits
      cases waits
    · rw [parks j at_i] at waits
      by_cases at_key : key = call.key
      · subst at_key
        exact before j _ waits (poll_proceeds asks stepped proceeds).2
      · obtain idle | room := (elsewhere key at_key).mp proceeds
        · exact idle (before.idle waits)
        · exact none call asks j key waits room

-- Nobody is parked or woken, no connection becomes idle, and the counters get new values.
theorem noLostWakeup_iff_noRoomAt {cfg : PoolConfig} {s t : System} {total : Nat} {size : PoolKey → Nat}
    (before : s.NoLostWakeup cfg) (parks : ∀ j, t.parked j = s.parked j)
    (same : ∀ key, CouldProceed cfg key t.manager ↔ (s.manager.pool key).idle ≠ [] ∨
      total < cfg.maxTotalConnections ∧ size key < cfg.maxConnectionsPerPool) :
    t.NoLostWakeup cfg ↔ s.NoRoomAt cfg total size := by
  constructor
  · intro after j key waits room
    exact after j key ((parks j).trans waits) ((same key).mpr (.inr room))
  · intro none j key waits proceeds
    rw [parks] at waits
    obtain idle | room := (same key).mp proceeds
    · exact idle (before.idle waits)
    · exact none j key waits room

theorem release_noLostWakeup {cfg : PoolConfig} {s t : System} {i : Nat} (balanced : Balanced s)
    (before : s.NoLostWakeup cfg) (stepped : step cfg s (.release i) = some t) :
    t.NoLostWakeup cfg ↔ WakesAll cfg s (.release i) := by
  cases step_steps stepped with
  | lost _ call stream here gone =>
    have present := balanced.present call.key (held_pos here)
    simp [gone] at present
  | release _ call stream pool here present =>
    have held := held_pos here
    have active := balanced.active call.key
    rw [pool_of_lookup present] at active
    have fewer : pool.activeCount.fetchSub.value = s.held call.key - 1 := by
      rw [active, AtomicU64.fetchSub, if_neg (Nat.ne_of_gt held)]
    have same (key : PoolKey) : CouldProceed cfg key
          (s.manager.setPool call.key { pool with activeCount := pool.activeCount.fetchSub }) ↔
        (s.manager.pool key).idle ≠ [] ∨
          s.manager.totalServerConnections.value < cfg.maxTotalConnections ∧
            (if key = call.key then s.manager.size key - 1 else s.manager.size key) <
              cfg.maxConnectionsPerPool := by
      rw [CouldProceed, HasRoom, pool_setPool_apply]
      by_cases at_key : key = call.key
      · subst at_key
        have less : s.held call.key - 1 + pool.idle.length = s.held call.key + pool.idle.length - 1 := by
          omega
        simp only [if_pos, size, pool_of_lookup present, fewer, less]
        rw [active]
        rfl
      · simp only [if_neg at_key]
        rfl
    refine (noLostWakeup_iff_noRoomAt before (parked_unchanged _ here rfl rfl rfl) same).trans ?_
    constructor
    · intro none other stream' there
      obtain ⟨rfl, rfl⟩ : call = other ∧ stream = stream' := by simpa using here.symm.trans there
      exact none
    · intro wakes
      exact wakes call stream here

theorem drop_noLostWakeup {cfg : PoolConfig} {s t : System} {i : Nat} {cause : String}
    (balanced : Balanced s) (before : s.NoLostWakeup cfg)
    (stepped : step cfg s (.reset i (.error cause)) = some t) :
    t.NoLostWakeup cfg ↔ WakesAll cfg s (.reset i (.error cause)) := by
  cases step_steps stepped with
  | drop _ call stream _ here =>
    have one : 1 ≤ s.resets := Tally.le_overList Task.resetWeight here
    have total := balanced.total
    have fewer := forget_total total (by omega)
    have same (key : PoolKey) : CouldProceed cfg key s.manager.forget ↔
        (s.manager.pool key).idle ≠ [] ∨
          s.manager.totalServerConnections.value - 1 < cfg.maxTotalConnections ∧
            s.manager.size key < cfg.maxConnectionsPerPool := by
      rw [CouldProceed, HasRoom, fewer, total]
      rfl
    refine (noLostWakeup_iff_noRoomAt before (parked_unchanged _ here rfl rfl rfl) same).trans ?_
    constructor
    · intro none _ _ _
      exact none
    · intro wakes
      exact wakes call stream here

theorem parked_notifyOne (s : System) (key : PoolKey) (j : Nat) :
    (s.notifyOne key).parked j =
      if (s.manager.queue key).head? = some j then none else s.parked j := by
  rw [notifyOne]
  split
  · rename_i i rest front
    have split : s.manager.queue key = i :: rest := front
    rw [parked_modify, split]
    simp [eq_comm]
  · rename_i front
    have split : s.manager.queue key = [] := front
    rw [split]
    rfl

theorem push_noLostWakeup {cfg : PoolConfig} {s t : System} {i : Nat} (queued : Queued s)
    (before : s.NoLostWakeup cfg) (stepped : step cfg s (.reset i (.ok ())) = some t) :
    t.NoLostWakeup cfg ↔ WakesAll cfg s (.reset i (.ok ())) := by
  cases step_steps stepped with
  | push _ call stream here =>
    let pushed : System := { s with
      manager := s.manager.pushIdle call.key stream s.now
      tasks := s.tasks.set i (.released call) }
    have parks (j : Nat) : (pushed.notifyOne call.key).parked j =
        if (s.manager.queue call.key).head? = some j then none else s.parked j := by
      have queue : pushed.manager.queue = s.manager.queue := queue_setPool_same _ _ _ rfl
      have same : pushed.parked j = s.parked j := parked_unchanged (.released call) here rfl rfl rfl j
      rw [parked_notifyOne, queue, same]
    have alike := alike_notifyOne pushed call.key
    have waiting : CouldProceed cfg call.key (pushed.notifyOne call.key).manager := by
      rw [alike.couldProceed]
      refine .inl ?_
      simp [pushed, pushIdle]
    have others (key : PoolKey) (other : key ≠ call.key) :
        CouldProceed cfg key (pushed.notifyOne call.key).manager ↔ CouldProceed cfg key s.manager := by
      rw [alike.couldProceed, CouldProceed, HasRoom]
      simp only [pushed, pushIdle, pool_setPool_ne s.manager _ other]
      rfl
    change (pushed.notifyOne call.key).NoLostWakeup cfg ↔ _
    constructor
    · -- The connection is there for all to see, so whoever was parked here is the one that was woken.
      intro after other stream' there j k first second
      obtain ⟨rfl, rfl⟩ : call = other ∧ stream = stream' := by simpa using here.symm.trans there
      have woken (n : Nat) (waits : s.parked n = some call.key) :
          (s.manager.queue call.key).head? = some n := by
        by_contra still
        exact after n call.key (by rw [parks, if_neg still, waits]) waiting
      exact Option.some.inj ((woken j first).symm.trans (woken k second))
    · intro alone j key waits proceeds
      rw [parks] at waits
      split at waits
      · cases waits
      · rename_i still
        by_cases at_key : key = call.key
        · subst at_key
          have member := (queued.each j call.key).mpr waits
          cases front : s.manager.queue call.key with
          | nil => simp [front] at member
          | cons first rest =>
            have head : s.parked first = some call.key := (queued.each first call.key).mp (by simp [front])
            have same := alone call stream here first j head waits
            simp [front, same] at still
        · exact before j key waits ((others key at_key).mp proceeds)

theorem step_noLostWakeup {cfg : PoolConfig} (s : System) (a : Action) (t : System)
    (inv : Balanced s ∧ Queued s) (_ : Balanced t ∧ Queued t) (before : s.NoLostWakeup cfg)
    (stepped : step cfg s a = some t) : t.NoLostWakeup cfg ↔ WakesAll cfg s a := by
  obtain ⟨balanced, queued⟩ := inv
  cases a with
  | poll i => exact poll_noLostWakeup balanced before stepped
  | release i => exact release_noLostWakeup balanced before stepped
  | reset i result =>
    cases result with
    | ok => exact push_noLostWakeup queued before stepped
    | error cause => exact drop_noLostWakeup balanced before stepped
  | tick elapsed =>
    cases step_steps stepped
    exact iff_of_true before trivial
  | call call =>
    refine iff_of_true ?_ trivial
    cases step_steps stepped
    refine before.mono ?_ fun _ proceeds => proceeds
    intro i key waits
    simp only [parked, List.getElem?_append] at waits
    split at waits
    · exact waits
    · rw [List.getElem?_singleton] at waits
      split at waits <;> cases waits
  | expire i =>
    refine iff_of_true ?_ trivial
    cases step_steps stepped with
    | expire _ call deadline notified here late =>
      have failed := alike_bail s.manager call.key .timeout
      have alike : Alike s.manager (s.leaving i call).manager :=
        failed.trans (alike_setPool _ call.key _ rfl rfl)
      have gone : (s.leaving i call).NoLostWakeup cfg :=
        before.mono (parked_of_settled (.failed call .timeout) here rfl rfl)
          fun key => alike.couldProceed.mp
      rw [timeOut_eq]
      split
      · exact gone.mono (parked_of_notifyOne _ call.key)
          fun key => (alike_notifyOne _ call.key).couldProceed.mp
      · exact gone
  | connected i result =>
    refine iff_of_true ?_ trivial
    cases result with
    | ok =>
      cases step_steps stepped with
      | connected _ call here =>
        exact before.mono (parked_of_settled _ here rfl rfl) fun key => couldProceed_of_connected
    | error error =>
      cases step_steps stepped with
      | panicked _ call here =>
        exact before.mono (parked_of_settled _ here rfl rfl) fun key => id
      | refused _ call _ here =>
        refine before.mono (parked_of_settled _ here rfl rfl) fun key => Alike.couldProceed ?_ |>.mp
        have same := alike_setPool s.manager call.key { s.manager.pool call.key with
          totalErrors := (s.manager.pool call.key).totalErrors + 1 } rfl rfl
        exact ⟨same.total, same.idle, same.active⟩

theorem wakesAll_of_disabled {cfg : PoolConfig} (s : System) (a : Action)
    (disabled : step cfg s a = none) : WakesAll cfg s a := by
  cases a with
  | poll i =>
    intro call asks
    exact absurd disabled (poll_enabled cfg asks)
  | release i =>
    intro call stream here
    simp only [step, here] at disabled
    split at disabled <;> cases disabled
  | reset i result =>
    cases result with
    | ok =>
      intro call stream here
      simp [step, here] at disabled
    | error cause =>
      intro call stream here
      simp [step, here] at disabled
  | _ => trivial

theorem noLostWakeup_iff (cfg : PoolConfig) (actions : List Action) :
    Transition.Always (step cfg) (NoLostWakeup cfg) {} actions ↔
      Transition.Along (step cfg) (WakesAll cfg) {} actions := by
  have balanced := Transition.always (step_invariant balanced_move balanced_start cfg) actions balanced_initial
  have queued := Transition.always (@queued_step cfg) actions queued_initial
  refine Transition.always_iff_along step_noLostWakeup wakesAll_of_disabled (balanced.and queued) ?_
  intro i key waits
  simp [parked] at waits

-- One connection in all. A caller of the second database waits for it; the reset of the first one
-- fails, and the free place is announced to nobody.
def freedUnannounced : List Action :=
  [.call (tenant "first"), .poll 0, .connected 0 (.ok ()), .call (tenant "second"), .poll 1,
    .release 0, .reset 0 (.error "Backend disconnected during reset")]

theorem not_noLostWakeup_freedUnannounced :
    ¬ Transition.Always (step { maxTotalConnections := 1 }) (NoLostWakeup { maxTotalConnections := 1 }) {}
      freedUnannounced := by
  intro always
  obtain ⟨s, ran, waits, room⟩ : ∃ s,
      Transition.run (step { maxTotalConnections := 1 }) {} freedUnannounced = some s ∧
        s.parked 1 = some (tenant "second").key ∧
        HasRoom { maxTotalConnections := 1 } (tenant "second").key s.manager :=
    Transition.exists_run (by decide)
  exact always.last ran 1 _ waits (.inr room)

end System

end PgMux
