import PgMux.Pool.Accounting

set_option autoImplicit false

namespace PgMux

namespace Task

def stream? : Task → Option TcpStream
  | .holding _ stream | .resetting _ stream => some stream
  | _ => none

def owns (id : Nat) (task : Task) : Nat :=
  match task.stream? with
  | some stream => if stream.id = id then 1 else 0
  | none => 0

def Fits (opened : List TcpStream) : Task → Prop
  | .holding call stream | .resetting call stream => stream ∈ opened ∧ stream.key = call.key
  | _ => True

theorem owns_counts (id : Nat) : Counts (owns id) := by
  intro task weightless
  cases task <;> simp_all [Weightless, owns, stream?]

theorem Fits.of_weightless {task : Task} (opened : List TcpStream) (weightless : task.Weightless) :
    task.Fits opened := by
  cases task <;> simp_all [Weightless, Fits]

theorem Fits.mono {task : Task} {opened : List TcpStream} (stream : TcpStream)
    (fits : task.Fits opened) : task.Fits (opened ++ [stream]) := by
  cases task <;> simp_all [Fits]

theorem Fits.notify {task : Task} {opened : List TcpStream} (fits : task.Fits opened) :
    task.notify.Fits opened := by
  cases task <;> simp_all [Fits, Task.notify]

end Task

namespace System

open PoolManager

def idleOf (id : Nat) (_ : PoolKey) (pool : Pool) : Nat :=
  pool.idle.countP fun conn => conn.stream.id = id

def owners (s : System) (id : Nat) : Nat :=
  Tally.overTable (idleOf id) s.manager.pools + Tally.overList (Task.owns id) s.tasks

def idleIds (s : System) : List Nat :=
  s.manager.pools.entries.flatMap fun entry => entry.2.idle.map fun conn => conn.stream.id

def ownedIds (s : System) : List Nat :=
  s.tasks.filterMap fun task => task.stream?.map fun stream => stream.id

structure Owned (s : System) : Prop where
  once : ∀ id, s.owners id ≤ if id < s.opened.length then 1 else 0
  idle : ∀ key, ∀ conn ∈ (s.manager.pool key).idle, conn.stream ∈ s.opened ∧ conn.stream.key = key
  fits : ∀ task ∈ s.tasks, task.Fits s.opened

theorem idleOf_setPool (id : Nat) (m : PoolManager) (key : PoolKey) (pool : Pool) :
    Tally.overTable (idleOf id) (m.setPool key pool).pools + idleOf id key (m.pool key) =
      Tally.overTable (idleOf id) m.pools + idleOf id key pool :=
  overTable_setPool (idleOf id) (fun _ => rfl) m key pool

theorem Owned.tasks {s : System} (owned : Owned s) (tasks : List Task)
    (fewer : ∀ id, Tally.overList (Task.owns id) tasks ≤ Tally.overList (Task.owns id) s.tasks)
    (fits : ∀ task ∈ tasks, task.Fits s.opened) : Owned { s with tasks := tasks } := by
  refine ⟨fun id => ?_, owned.idle, fits⟩
  have before := owned.once id
  have less := fewer id
  simp only [owners] at before ⊢
  omega

theorem Owned.here {s : System} (owned : Owned s) {i : Nat} {task : Task}
    (here : s.tasks[i]? = some task) : task.Fits s.opened :=
  owned.fits task (List.mem_of_getElem? here)

theorem fits_set {opened : List TcpStream} {tasks : List Task} (i : Nat) {new : Task}
    (fits : ∀ task ∈ tasks, task.Fits opened) (fit : new.Fits opened) :
    ∀ task ∈ tasks.set i new, task.Fits opened := by
  intro task member
  obtain old | rfl := List.mem_or_eq_of_mem_set member
  · exact fits task old
  · exact fit

theorem fits_notify {opened : List TcpStream} {tasks : List Task} (i : Nat)
    (fits : ∀ task ∈ tasks, task.Fits opened) :
    ∀ task ∈ tasks.modify i Task.notify, task.Fits opened := by
  intro task member
  obtain ⟨j, here⟩ := List.mem_iff_getElem?.mp member
  rw [List.getElem?_modify] at here
  obtain ⟨old, there, rfl⟩ := Option.map_eq_some_iff.mp here
  have fit := fits old (List.mem_of_getElem? there)
  split
  · exact fit.notify
  · exact fit

theorem Owned.change {s : System} (owned : Owned s) (tasks : List Task) (key : PoolKey) (pool : Pool)
    (m : PoolManager) (pools : m.pools = (s.manager.setPool key pool).pools)
    (fewer : ∀ id, idleOf id key pool + Tally.overList (Task.owns id) tasks ≤
      idleOf id key (s.manager.pool key) + Tally.overList (Task.owns id) s.tasks)
    (idle : ∀ conn ∈ pool.idle, conn.stream ∈ s.opened ∧ conn.stream.key = key)
    (fits : ∀ task ∈ tasks, task.Fits s.opened) :
    Owned { s with manager := m, tasks := tasks } := by
  refine ⟨fun id => ?_, ?_, fits⟩
  · have size := idleOf_setPool id s.manager key pool
    have before := owned.once id
    have less := fewer id
    simp only [owners, pools] at before ⊢
    omega
  · intro other conn member
    have same : m.pool other = (s.manager.setPool key pool).pool other := by
      simp only [PoolManager.pool, pools]
    rw [same, pool_setPool_apply] at member
    split at member
    · rename_i at_key
      rw [at_key]
      exact idle conn member
    · exact owned.idle other conn member

theorem Owned.keep {s : System} (owned : Owned s) {i : Nat} {old : Task} (new : Task) (key : PoolKey)
    (pool : Pool) (m : PoolManager) (pools : m.pools = (s.manager.setPool key pool).pools)
    (here : s.tasks[i]? = some old) (idle : pool.idle = (s.manager.pool key).idle)
    (less : ∀ id, new.owns id ≤ old.owns id) (fits : new.Fits s.opened) :
    Owned { s with manager := m, tasks := s.tasks.set i new } := by
  refine owned.change _ key pool m pools ?_ ?_ (fits_set i owned.fits fits)
  · intro id
    have balance := Tally.overList_set (Task.owns id) new here
    have fewer := less id
    simp only [idleOf, idle]
    omega
  · rw [idle]
    exact owned.idle key

theorem Owned.evict {s : System} (owned : Owned s) (key : PoolKey) (n : Nat) :
    Owned { s with manager := s.manager.evict key n } := by
  refine owned.change s.tasks key { s.manager.pool key with idle := (s.manager.pool key).idle.drop n }
    _ ?_ ?_ ?_ owned.fits
  · simp [PoolManager.evict, setPool]
  · intro id
    have fewer := (List.drop_sublist n (s.manager.pool key).idle).countP_le
      (p := fun conn => conn.stream.id = id)
    simp only [idleOf]
    omega
  · intro conn member
    exact owned.idle key conn (List.mem_of_mem_drop member)

theorem Owned.reuse {s : System} (owned : Owned s) {i : Nat} {old : Task} (call : AcquireCall)
    {conn : PooledConnection} {rest : List PooledConnection} (here : s.tasks[i]? = some old)
    (before : old.Weightless) (front : (s.manager.pool call.key).idle = conn :: rest) :
    Owned { s with
      manager := s.manager.takeFirst call.key
      tasks := s.tasks.set i (.holding call conn.stream) } := by
  have found := owned.idle call.key
  rw [front] at found
  refine owned.change _ call.key _ _ rfl ?_ ?_ (fits_set i owned.fits (found conn (by simp)))
  · intro id
    rw [(Task.owns_counts id).take (.holding call conn.stream) here before]
    simp only [idleOf, front, List.tail_cons, List.countP_cons, Task.owns, Task.stream?, decide_eq_true_eq]
    omega
  · intro other member
    rw [front] at member
    exact found other (List.mem_cons_of_mem conn member)

theorem Owned.push {s : System} (owned : Owned s) {i : Nat} {call : AcquireCall} {stream : TcpStream}
    (here : s.tasks[i]? = some (.resetting call stream)) :
    Owned { s with
      manager := s.manager.pushIdle call.key stream s.now
      tasks := s.tasks.set i (.released call) } := by
  refine owned.change _ call.key _ _ rfl ?_ ?_ (fits_set i owned.fits trivial)
  · intro id
    have balance := (Task.owns_counts id).give (.released call) here trivial
    simp only [Task.owns, Task.stream?] at balance
    simp only [idleOf, List.countP_append, List.countP_cons, List.countP_nil, decide_eq_true_eq]
    omega
  · intro conn member
    obtain old | rfl := by simpa using member
    · exact owned.idle call.key conn old
    · exact owned.here here

theorem Owned.forget {s : System} (owned : Owned s) {i : Nat} {call : AcquireCall} {old : Task}
    (here : s.tasks[i]? = some old) :
    Owned { s with manager := s.manager.forget, tasks := s.tasks.set i (.released call) } := by
  refine Owned.tasks (s := { s with manager := s.manager.forget })
    ⟨owned.once, owned.idle, owned.fits⟩ _ (fun id => ?_) (fits_set i owned.fits trivial)
  have balance := (Task.owns_counts id).give (.released call) here trivial
  simp only
  omega

theorem Owned.connected {s : System} (owned : Owned s) {i : Nat} {call : AcquireCall}
    (stream : TcpStream) (here : s.tasks[i]? = some (.connecting call))
    (fresh : stream.id = s.opened.length) (key : stream.key = call.key) :
    Owned { s with
      manager := s.manager.connected call.key
      tasks := s.tasks.set i (.holding call stream)
      opened := s.opened ++ [stream] } := by
  -- The counters first, with the task as it is, and then the task.
  have counted : Owned { s with manager := s.manager.connected call.key } := by
    refine owned.change s.tasks call.key { s.manager.pool call.key with
      activeCount := (s.manager.pool call.key).activeCount.fetchAdd
      totalAcquired := (s.manager.pool call.key).totalAcquired + 1 } _ rfl ?_ ?_ owned.fits
    · exact fun id => Nat.le_refl _
    · exact owned.idle call.key
  refine ⟨fun id => ?_, ?_, ?_⟩
  · have before := counted.once id
    have balance := Tally.overList_set (Task.owns id) (.holding call stream) here
    simp only [Task.owns, Task.stream?, fresh] at balance
    simp only [owners, List.length_append, List.length_singleton] at before ⊢
    split_ifs at before balance ⊢ <;> omega
  · intro other conn member
    obtain ⟨open_, same⟩ := counted.idle other conn member
    exact ⟨List.mem_append_left _ open_, same⟩
  · refine fits_set i (fun task member => (owned.fits task member).mono stream) ?_
    exact ⟨by simp, key⟩

theorem owned_move (s t : System) (owned : Owned s) (moved : Move s t) : Owned t := by
  cases moved with
  | tick elapsed => exact ⟨owned.once, owned.idle, owned.fits⟩
  | spawn call =>
    refine owned.tasks _ (fun id => ((Task.owns_counts id).spawn s.tasks call).le) ?_
    intro task member
    obtain old | rfl := by simpa using member
    · exact owned.fits task old
    · trivial
  | notify i =>
    exact owned.tasks _ (fun id => ((Task.owns_counts id).notify s.tasks i).le) (fits_notify i owned.fits)
  | settle i old new here before after =>
    exact owned.tasks _ (fun id => ((Task.owns_counts id).settle here before after).le)
      (fits_set i owned.fits (.of_weightless _ after))
  | record metrics gauge => exact ⟨owned.once, owned.idle, owned.fits⟩
  | adjust key pool idle active =>
    refine owned.change s.tasks key pool _ rfl ?_ ?_ owned.fits
    · intro id
      simp [idleOf, idle]
    · rw [idle]
      exact owned.idle key
  | evict key n within => exact owned.evict key n
  | reuse i old call conn rest here before front => exact owned.reuse call here before front
  | connected i call here => exact owned.connected _ here rfl rfl
  | refused i call error here =>
    exact owned.keep (.failed call error) call.key _ _ rfl here rfl (fun id => Nat.zero_le _) trivial
  | panicked i call here =>
    exact owned.tasks _ (fun id => (Tally.overList_set (Task.owns id) (.panicked call) here).le)
      (fits_set i owned.fits trivial)
  | release i call stream here =>
    exact owned.keep (.resetting call stream) call.key _ _ rfl here rfl (fun id => Nat.le_refl _)
      (owned.here here : _ ∧ _)
  | lost i call stream here gone => exact owned.forget here
  | push i call stream here => exact owned.push here
  | drop i call stream here => exact owned.forget here

theorem owned_start (s t : System) (owned : Owned s) (started : Start s t) : Owned t := by
  cases started with
  | mk i old call here before =>
    exact owned.tasks _ (fun id => ((Task.owns_counts id).take (.connecting call) here before).le)
      (fits_set i owned.fits trivial)

theorem owned_initial : Owned {} :=
  ⟨fun _ => Nat.zero_le _, fun _ _ member => by simp [PoolManager.pool] at member, by simp⟩

theorem reachable_owned {cfg : PoolConfig} {s : System} (reached : Reachable cfg s) : Owned s :=
  reachable_invariant owned_initial owned_move owned_start reached

theorem count_idleIds (s : System) (id : Nat) :
    s.idleIds.count id = Tally.overTable (idleOf id) s.manager.pools := by
  simp only [idleIds, Tally.overTable, List.count_flatMap]
  congr 2
  funext entry
  simp only [List.count, List.countP_map, Function.comp_def]
  rfl

theorem count_ownedIds (s : System) (id : Nat) :
    s.ownedIds.count id = Tally.overList (Task.owns id) s.tasks := by
  simp only [ownedIds, Tally.overList]
  induction s.tasks with
  | nil => rfl
  | cons task rest ih =>
    simp only [List.map_cons, List.sum_cons, ← ih]
    cases owned : task.stream? with
    | none => simp [owned, Task.owns]
    | some stream => simp [owned, Task.owns, List.count_cons, Nat.add_comm]

theorem ownership {cfg : PoolConfig} {s : System} (reached : Reachable cfg s) :
    (∀ (i : Nat) (call : AcquireCall) (stream : TcpStream), s.tasks[i]? = some (.holding call stream) →
      stream ∈ s.opened ∧ stream.key = call.key) ∧
    (s.idleIds ++ s.ownedIds).Nodup := by
  have owned := reachable_owned reached
  constructor
  · intro i call stream here
    exact owned.here here
  · rw [List.nodup_iff_count_le_one]
    intro id
    have once := owned.once id
    rw [List.count_append, count_idleIds, count_ownedIds]
    simp only [owners] at once
    split at once <;> omega

def streamWeight (task : Task) : Nat := if task.stream?.isSome then 1 else 0

theorem idleIds_length (s : System) :
    s.idleIds.length = Tally.overTable (fun _ pool => pool.idle.length) s.manager.pools := by
  simp [idleIds, Tally.overTable, List.length_flatMap]

theorem Balanced.counted {s : System} (balanced : Balanced s) :
    s.manager.totalServerConnections.value = s.idleIds.length + Tally.overList streamWeight s.tasks := by
  have active : Tally.overTable (fun _ pool => pool.activeCount.value) s.manager.pools =
      Tally.overList (fun task => Tally.overTable (fun key _ => Task.holdsFor key task) s.manager.pools)
        s.tasks := by
    rw [← Tally.overTable_overList]
    apply Tally.overTable_congr
    intro key pool found
    rw [← pool_of_lookup found, balanced.active key]
    rfl
  have each : ∀ task ∈ s.tasks, Tally.overTable (fun key _ => Task.holdsFor key task) s.manager.pools +
      task.resetWeight = streamWeight task := by
    intro task member
    obtain ⟨i, here⟩ := List.mem_iff_getElem?.mp member
    cases task with
    | holding call stream =>
      simp only [Task.holdsFor, Task.resetWeight, streamWeight, Task.stream?]
      rw [Tally.overTable_single 1 (balanced.present call.key (held_pos here))]
      rfl
    | _ => simp [Tally.overTable, Task.holdsFor, Task.resetWeight, streamWeight, Task.stream?]
  have tasks : Tally.overList streamWeight s.tasks = Tally.overList (fun task =>
      Tally.overTable (fun key _ => Task.holdsFor key task) s.manager.pools + task.resetWeight) s.tasks := by
    unfold Tally.overList
    rw [List.map_congr_left each]
  have sizes : s.pooled = Tally.overTable (fun _ pool => pool.activeCount.value) s.manager.pools +
      s.idleIds.length := by
    rw [idleIds_length, ← Tally.overTable_add]
    rfl
  rw [balanced.total, tasks, Tally.overList_add, ← active, sizes]
  simp only [resets]
  omega

-- A connection is opened by one caller, given back, and held by the next one.
def handedOver : List Action :=
  [.call (tenant "testdb"), .poll 0, .connected 0 (.ok ()), .release 0, .reset 0 (.ok ()),
    .call (tenant "testdb"), .poll 1]

theorem ownership_handedOver :
    ∃ s, Transition.run (step {}) {} handedOver = some s ∧ s.ownedIds = [0] ∧
      (s.idleIds ++ s.ownedIds).Nodup := by
  obtain ⟨s, ran, held⟩ : ∃ s, Transition.run (step {}) {} handedOver = some s ∧ s.ownedIds = [0] :=
    Transition.exists_run (by decide)
  exact ⟨s, ran, held, (ownership ⟨handedOver, ran⟩).2⟩

end System

end PgMux
