import PgMux.Pool.Poll
import PgMux.Pool.Accounting

set_option autoImplicit false

namespace PgMux

namespace Task

def connectWeight : Task → Nat
  | .connecting _ => 1
  | _ => 0

def connectsFor (key : PoolKey) : Task → Nat
  | .connecting call => if call.key = key then 1 else 0
  | _ => 0

def resetsFor (key : PoolKey) : Task → Nat
  | .resetting call _ => if call.key = key then 1 else 0
  | _ => 0

def loads (key : PoolKey) : Task → Nat
  | .connecting call | .holding call _ | .resetting call _ => if call.key = key then 1 else 0
  | _ => 0

theorem connectWeight_counts : Counts connectWeight := by
  intro task weightless
  cases task <;> simp_all [Weightless, connectWeight]

theorem connectsFor_counts (key : PoolKey) : Counts (connectsFor key) := by
  intro task weightless
  cases task <;> simp_all [Weightless, connectsFor]

theorem loads_counts (key : PoolKey) : Counts (loads key) := by
  intro task weightless
  cases task <;> simp_all [Weightless, loads]

theorem loads_eq (key : PoolKey) (task : Task) :
    task.holdsFor key + task.resetsFor key + task.connectsFor key = task.loads key := by
  cases task <;> simp [holdsFor, resetsFor, connectsFor, loads]

end Task

namespace System

open PoolManager

def connects (s : System) : Nat := Tally.overList Task.connectWeight s.tasks

def connectsFor (s : System) (key : PoolKey) : Nat := Tally.overList (Task.connectsFor key) s.tasks

def resetsFor (s : System) (key : PoolKey) : Nat := Tally.overList (Task.resetsFor key) s.tasks

/-- The backend connections of a key: held by callers, being reset, or idle. -/
def live (s : System) (key : PoolKey) : Nat :=
  s.held key + s.resetsFor key + (s.manager.pool key).idle.length

/-- The check of `acquire` lets a caller of the key connect. All idle connections have expired then,
and are evicted before the limits are compared. -/
def Starts (cfg : PoolConfig) (s : System) (key : PoolKey) : Prop :=
  s.nextIdle cfg key = none ∧
    s.manager.totalServerConnections.value - (s.manager.pool key).idle.length < cfg.maxTotalConnections ∧
    (s.manager.pool key).activeCount.value < cfg.maxConnectionsPerPool

def OnStart (cfg : PoolConfig) (holds : System → PoolKey → Prop) (s : System) : Action → Prop
  | .poll i => ∀ call ∈ s.asking i, s.Starts cfg call.key → holds s call.key
  | _ => True

instance (cfg : PoolConfig) (s : System) (key : PoolKey) : Decidable (s.Starts cfg key) :=
  inferInstanceAs (Decidable (_ ∧ _ ∧ _))

instance (cfg : PoolConfig) (holds : System → PoolKey → Prop) [∀ s key, Decidable (holds s key)]
    (s : System) (a : Action) : Decidable (OnStart cfg holds s a) :=
  match a with
  | .poll i => inferInstanceAs (Decidable (∀ call ∈ s.asking i, s.Starts cfg call.key → holds s call.key))
  | .tick _ | .call _ | .expire _ | .connected _ _ | .release _ | .reset _ _ => isTrue trivial

def WithinTotal (cfg : PoolConfig) (s : System) : Prop :=
  s.manager.totalServerConnections.value ≤ cfg.maxTotalConnections

/-- When a caller starts to connect, the limit has room for it beside all connects in progress. -/
def RoomLeft (cfg : PoolConfig) : System → Action → Prop :=
  OnStart cfg fun s key =>
    s.manager.totalServerConnections.value - (s.manager.pool key).idle.length + s.connects <
      cfg.maxTotalConnections

def WithinPools (cfg : PoolConfig) (s : System) : Prop :=
  ∀ key, s.live key ≤ cfg.maxConnectionsPerPool

def RoomBesideResets (cfg : PoolConfig) : System → Action → Prop :=
  OnStart cfg fun s key =>
    (s.manager.pool key).activeCount.value + s.resetsFor key < cfg.maxConnectionsPerPool

def Serial (s : System) : Prop := ∀ key, s.connectsFor key ≤ 1

def succeeds (i : Nat) : Action := .connected i (.ok ())

def load (s : System) : Nat := s.manager.totalServerConnections.value + s.connects

def loadFor (s : System) (key : PoolKey) : Nat := s.live key + s.connectsFor key

theorem Balanced.idle_le {s : System} (balanced : Balanced s) (key : PoolKey) :
    (s.manager.pool key).idle.length ≤ s.manager.totalServerConnections.value := by
  have part := le_overTable_pool poolSize (fun _ => rfl) s.manager key
  rw [balanced.total]
  simp only [poolSize, pooled] at part ⊢
  omega

theorem evict_total {m : PoolManager} {v : Nat} (key : PoolKey) (n : Nat)
    (counter : m.totalServerConnections = ⟨v, false⟩) (within : n ≤ v) :
    (m.evict key n).totalServerConnections = ⟨v - n, false⟩ :=
  (forget_iterate m n v counter within).1

theorem forget_total {m : PoolManager} {v : Nat} (counter : m.totalServerConnections = ⟨v, false⟩)
    (some : 0 < v) : m.forget.totalServerConnections = ⟨v - 1, false⟩ :=
  (forget_iterate m 1 v counter some).1

theorem move_load {s t : System} (balanced : Balanced s) (moved : Move s t) : t.load ≤ s.load := by
  have connecting := Task.connectWeight_counts
  cases moved with
  | tick elapsed | record metrics gauge | adjust key pool idle active => exact Nat.le_refl _
  | spawn call =>
    have same := connecting.spawn s.tasks call
    simp only [load, connects, same, Nat.le_refl]
  | notify i =>
    have same := connecting.notify s.tasks i
    simp only [load, connects, same, Nat.le_refl]
  | settle i old new here before after =>
    have same := connecting.settle here before after
    simp only [load, connects, same, Nat.le_refl]
  | evict key n within =>
    have room := balanced.idle_le key
    have fewer := evict_total key n balanced.total
      (by rw [balanced.total] at room; exact within.trans room)
    simp only [load, connects, fewer, balanced.total]
    omega
  | reuse i old call conn rest here before front =>
    have same := connecting.take (.holding call conn.stream) here before
    simp only [load, connects, same]
    exact Nat.le_refl _
  | connected i call here =>
    have moved := Tally.overList_set Task.connectWeight
      (.holding call ⟨s.opened.length, call.key, call.password, call.extraParams⟩) here
    simp only [Task.connectWeight] at moved
    simp only [load, connects, PoolManager.connected, AtomicU64.fetchAdd]
    omega
  | refused i call error here =>
    have moved := connecting.give (.failed call error) here trivial
    simp only [load, connects, PoolManager.refused, setPool]
    omega
  | panicked i call here =>
    have moved := Tally.overList_set Task.connectWeight (.panicked call) here
    simp only [Task.connectWeight] at moved
    simp only [load, connects]
    omega
  | release i call stream here =>
    have moved := Tally.overList_set Task.connectWeight (.resetting call stream) here
    simp only [Task.connectWeight] at moved
    simp only [load, connects, setPool]
    omega
  | lost i call stream here gone =>
    have there := balanced.present call.key (held_pos here)
    simp [gone] at there
  | push i call stream here =>
    have moved := connecting.give (.released call) here trivial
    simp only [load, connects, pushIdle, setPool]
    omega
  | drop i call stream here =>
    have moved := connecting.give (.released call) here trivial
    have one : 1 ≤ s.resets := Tally.le_overList Task.resetWeight here
    have fewer := forget_total balanced.total (by omega)
    simp only [load, connects, fewer, balanced.total]
    omega

theorem loadFor_eq (s : System) (key : PoolKey) :
    s.loadFor key = Tally.overList (Task.loads key) s.tasks + (s.manager.pool key).idle.length := by
  have sum : Tally.overList (Task.loads key) s.tasks =
      s.held key + s.resetsFor key + s.connectsFor key := by
    rw [held, resetsFor, connectsFor, ← Tally.overList_add, ← Tally.overList_add]
    simp only [Task.loads_eq]
  rw [loadFor, live, sum]
  omega

theorem loadFor_change {s : System} {i : Nat} {old : Task} (new : Task) (changed : PoolKey) (pool : Pool)
    (m : PoolManager) (opened : List TcpStream) (here : s.tasks[i]? = some old)
    (pools : m.pools = (s.manager.setPool changed pool).pools) (key : PoolKey) :
    System.loadFor { s with manager := m, tasks := s.tasks.set i new, opened := opened } key +
        old.loads key + (if key = changed then (s.manager.pool changed).idle.length else 0) =
      s.loadFor key + new.loads key + if key = changed then pool.idle.length else 0 := by
  have balance := Tally.overList_set (Task.loads key) new here
  have same : m.pool key = (s.manager.setPool changed pool).pool key := by
    simp only [PoolManager.pool, pools]
  simp only [loadFor_eq, same, pool_setPool_apply]
  split
  · rename_i at_key
    subst at_key
    omega
  · omega

theorem loadFor_tasks {s : System} (tasks : List Task) (key : PoolKey)
    (same : Tally.overList (Task.loads key) tasks = Tally.overList (Task.loads key) s.tasks) :
    System.loadFor { s with tasks := tasks } key = s.loadFor key := by
  simp only [loadFor_eq, same]

theorem move_loadFor {s t : System} (moved : Move s t) (key : PoolKey) : t.loadFor key ≤ s.loadFor key := by
  have loads := Task.loads_counts key
  cases moved with
  | tick elapsed | record metrics gauge => exact Nat.le_refl _
  | spawn call => exact (loadFor_tasks _ key (loads.spawn s.tasks call)).le
  | notify i => exact (loadFor_tasks _ key (loads.notify s.tasks i)).le
  | settle i old new here before after => exact (loadFor_tasks _ key (loads.settle here before after)).le
  | adjust changed pool idle active =>
    simp only [loadFor_eq, pool_setPool_apply]
    split <;> simp_all
  | evict changed n within =>
    simp only [loadFor_eq, PoolManager.evict, pool_setPool_apply]
    split
    · simp_all
    · simp [PoolManager.pool]
  | reuse i old call conn rest here before front =>
    have balance := loadFor_change (.holding call conn.stream) call.key _
      (s.manager.takeFirst call.key) s.opened here rfl key
    rw [loads old before] at balance
    simp only [Task.loads, front, List.length_cons, List.tail_cons, eq_comm] at balance
    split_ifs at balance <;> omega
  | connected i call here =>
    have balance := loadFor_change
      (.holding call ⟨s.opened.length, call.key, call.password, call.extraParams⟩) call.key _
      (s.manager.connected call.key)
      (s.opened ++ [⟨s.opened.length, call.key, call.password, call.extraParams⟩]) here rfl key
    simp only [Task.loads] at balance
    omega
  | refused i call error here =>
    have balance := loadFor_change (.failed call error) call.key _ (s.manager.refused call.key)
      s.opened here rfl key
    simp only [Task.loads] at balance
    omega
  | panicked i call here =>
    have balance := Tally.overList_set (Task.loads key) (.panicked call) here
    simp only [Task.loads] at balance
    simp only [loadFor_eq]
    omega
  | release i call stream here =>
    have balance := loadFor_change (.resetting call stream) call.key
      { s.manager.pool call.key with activeCount := (s.manager.pool call.key).activeCount.fetchSub }
      _ s.opened here rfl key
    simp only [Task.loads] at balance
    exact (Nat.add_right_cancel (Nat.add_right_cancel balance)).le
  | push i call stream here =>
    have balance := loadFor_change (.released call) call.key _ (s.manager.pushIdle call.key stream s.now)
      s.opened here rfl key
    simp only [Task.loads, List.length_append, List.length_singleton, eq_comm] at balance
    split_ifs at balance <;> omega
  | lost i call stream here gone | drop i call stream here =>
    have balance := loads.give (.released call) here trivial
    simp only [loadFor_eq, PoolManager.forget, PoolManager.pool]
    omega

theorem step_load {cfg : PoolConfig} {s t : System} {a : Action} (balanced : Balanced s)
    (stepped : step cfg s a = some t) (polls : ∀ i, a ≠ .poll i) :
    t.load ≤ s.load ∧ ∀ key, t.loadFor key ≤ s.loadFor key := by
  obtain moved | ⟨⟨i, is⟩, -⟩ := step_moves cfg s t a stepped
  · have along : Balanced t ∧ t.load ≤ s.load ∧ ∀ key, t.loadFor key ≤ s.loadFor key := by
      refine @moves_invariant (fun u => Balanced u ∧ u.load ≤ s.load ∧
        ∀ key, u.loadFor key ≤ s.loadFor key) ?_ s t ⟨balanced, Nat.le_refl _, fun _ => Nat.le_refl _⟩ moved
      rintro u v ⟨before, load, loadFor⟩ move
      exact ⟨balanced_move u v before move, (move_load before move).trans load,
        fun key => (move_loadFor move key).trans (loadFor key)⟩
    exact along.2
  · exact absurd is (polls i)

theorem evict_idle (m : PoolManager) (key other : PoolKey) (n : Nat) :
    ((m.evict key n).pool other).idle =
      if other = key then (m.pool key).idle.drop n else (m.pool other).idle := by
  rw [PoolManager.evict, pool_setPool_apply]
  split
  · rfl
  · simp [PoolManager.pool]

theorem takeFirst_idle (m : PoolManager) (key other : PoolKey) :
    ((m.takeFirst key).pool other).idle =
      if other = key then (m.pool key).idle.tail else (m.pool other).idle := by
  have same := pool_setPool_apply m key other { m.pool key with
    idle := (m.pool key).idle.tail
    activeCount := (m.pool key).activeCount.fetchAdd
    totalAcquired := (m.pool key).totalAcquired + 1 }
  refine (congrArg Pool.idle same).trans ?_
  split <;> rfl

theorem takeFirst_total (m : PoolManager) (key : PoolKey) :
    (m.takeFirst key).totalServerConnections = m.totalServerConnections := rfl

theorem starts_iff {cfg : PoolConfig} {s : System} (balanced : Balanced s) {m : PoolManager}
    (alike : Alike s.manager m) (key : PoolKey) :
    s.Starts cfg key ↔ (m.pool key).idle.dropWhile (expired cfg s.now) = [] ∧
      HasRoom cfg key (m.evict key (m.pool key).idle.length) := by
  have within := balanced.idle_le key
  have total := balanced.total
  rw [total] at within
  have evicted := evict_total key (m.pool key).idle.length (alike.total.trans total)
    (by rwa [alike.idle])
  have active : ((m.evict key (m.pool key).idle.length).pool key).activeCount =
      (s.manager.pool key).activeCount := by simp [PoolManager.evict, alike.active]
  have emptied : ((m.evict key (m.pool key).idle.length).pool key).idle = [] := by
    simp [PoolManager.evict]
  rw [HasRoom, evicted, active, emptied]
  simp only [Starts, nextIdle, List.head?_eq_none_iff, total, alike.idle, List.length_nil, Nat.add_zero]

theorem polled_load {cfg : PoolConfig} {now : Instant} {call : AcquireCall} {m after : PoolManager}
    {task : Task} {v : Nat} (counted : m.totalServerConnections = ⟨v, false⟩)
    (within : (m.pool call.key).idle.length ≤ v) (polled : Polled cfg now call m after task) :
    (¬ ((m.pool call.key).idle.dropWhile (expired cfg now) = [] ∧
          HasRoom cfg call.key (m.evict call.key (m.pool call.key).idle.length)) ∧
        after.totalServerConnections.value + task.connectWeight ≤ v ∧
        ∀ key, (after.pool key).idle.length + task.loads key ≤ (m.pool key).idle.length) ∨
      (((m.pool call.key).idle.dropWhile (expired cfg now) = [] ∧
          HasRoom cfg call.key (m.evict call.key (m.pool call.key).idle.length)) ∧
        task = .connecting call ∧
        after.totalServerConnections.value = v - (m.pool call.key).idle.length ∧
        ∀ key, (after.pool key).idle = if key = call.key then [] else (m.pool key).idle) := by
  cases polled with
  | reuse conn rest n fresh dropped =>
    have bound : rest.length + 1 + n = (m.pool call.key).idle.length := by
      have length := congrArg List.length dropped
      simp only [List.length_drop, List.length_cons] at length
      omega
    have fewer := evict_total call.key n counted (by omega)
    refine .inl ⟨by simp [fresh], ?_, fun key => ?_⟩
    · rw [takeFirst_total, fewer]
      exact Nat.sub_le v n
    · rw [takeFirst_idle, evict_idle, evict_idle, if_pos rfl, dropped]
      by_cases same : key = call.key
      · subst same
        simp only [if_pos, List.tail_cons, Task.loads]
        omega
      · simp [if_neg same, Task.loads, Ne.symm same]
  | start _ empty room alike =>
    refine .inr ⟨⟨empty, room⟩, rfl, ?_, fun key => ?_⟩
    · rw [alike.total, evict_total call.key _ counted within]
    · rw [alike.idle, evict_idle, List.drop_length]
  | wait _ _ empty full alike away =>
    refine .inl ⟨fun starts => full starts.2, ?_, fun key => ?_⟩
    · rw [alike.total, evict_total call.key _ counted within, Task.connectWeight_counts task away.weightless]
      exact Nat.sub_le _ _
    · rw [alike.idle, evict_idle, List.drop_length, Task.loads_counts key task away.weightless]
      split
      · exact Nat.zero_le _
      · exact Nat.le_refl _

theorem poll_load {cfg : PoolConfig} {s t : System} {i : Nat} (balanced : Balanced s)
    (stepped : step cfg s (.poll i) = some t) :
    ∃ call, s.asking i = some call ∧
      ((¬ s.Starts cfg call.key ∧ t.load ≤ s.load ∧ ∀ key, t.loadFor key ≤ s.loadFor key) ∨
        (s.Starts cfg call.key ∧
          t.load = s.manager.totalServerConnections.value - (s.manager.pool call.key).idle.length +
            s.connects + 1 ∧
          t.loadFor call.key + (s.manager.pool call.key).idle.length = s.loadFor call.key + 1 ∧
          t.connectsFor call.key = s.connectsFor call.key + 1 ∧
          ∀ key, key ≠ call.key → t.loadFor key = s.loadFor key)) := by
  obtain ⟨old, call, before, new, here, asks, weightless, alike, polled, -, tasks⟩ := poll_polled stepped
  have within := balanced.idle_le call.key
  rw [← alike.idle] at within
  have result := polled_load (alike.total.trans (by rw [balanced.total])) within polled
  have later : t.load = t.manager.totalServerConnections.value + s.connects + new.connectWeight := by
    rw [load, connects, tasks, Task.connectWeight_counts.take new here weightless]
    exact (Nat.add_assoc _ _ _).symm
  have laterFor (key : PoolKey) : t.loadFor key + (s.manager.pool key).idle.length =
      s.loadFor key + new.loads key + (t.manager.pool key).idle.length := by
    rw [loadFor_eq, loadFor_eq, tasks, (Task.loads_counts key).take new here weightless]
    omega
  refine ⟨call, asks, ?_⟩
  rw [starts_iff balanced alike call.key, later]
  simp only [alike.idle] at result ⊢
  obtain ⟨not, total, idle⟩ | ⟨starts, rfl, total, idle⟩ := result
  · refine .inl ⟨not, ?_, fun key => ?_⟩
    · rw [load]
      omega
    · have balance := laterFor key
      have less := idle key
      omega
  · refine .inr ⟨starts, ?_, ?_, ?_, fun key differs => ?_⟩
    · rw [total]
      rfl
    · have balance := laterFor call.key
      rw [idle, if_pos rfl] at balance
      simpa [Task.loads] using balance
    · rw [connectsFor, tasks, (Task.connectsFor_counts call.key).take _ here weightless]
      simp [Task.connectsFor, connectsFor]
    · have balance := laterFor key
      rw [idle, if_neg differs] at balance
      simpa [Task.loads, Ne.symm differs] using balance

theorem connected_load (cfg : PoolConfig) {s : System} {i : Nat} {call : AcquireCall}
    (here : s.tasks[i]? = some (.connecting call)) :
    ∃ t, step cfg s (succeeds i) = some t ∧ t.connects + 1 = s.connects ∧ t.load = s.load ∧
      (∀ key, t.loadFor key = s.loadFor key) ∧ ∀ key, t.connectsFor key ≤ s.connectsFor key := by
  obtain ⟨stream, is⟩ : ∃ stream : TcpStream,
      stream = ⟨s.opened.length, call.key, call.password, call.extraParams⟩ := ⟨_, rfl⟩
  have fewer := Tally.overList_set Task.connectWeight (.holding call stream) here
  simp only [Task.connectWeight, Nat.add_zero] at fewer
  refine ⟨{ s with
    manager := s.manager.connected call.key
    tasks := s.tasks.set i (.holding call stream)
    opened := s.opened ++ [stream] }, ?_, fewer, ?_, fun key => ?_, fun key => ?_⟩
  · simp [step, succeeds, here, is]
  · simp only [load, connects, PoolManager.connected, AtomicU64.fetchAdd]
    omega
  · have balance := loadFor_change (.holding call stream) call.key _ (s.manager.connected call.key)
      (s.opened ++ [stream]) here rfl key
    simp only [Task.loads] at balance
    omega
  · have balance := Tally.overList_set (Task.connectsFor key) (.holding call stream) here
    simp only [Task.connectsFor] at balance
    simp only [connectsFor]
    omega

theorem connectsFor_le (s : System) (key : PoolKey) : s.connectsFor key ≤ s.connects := by
  refine Tally.overList_le _ (fun task => ?_) s.tasks
  cases task with
  | connecting call =>
    simp only [Task.connectsFor, Task.connectWeight]
    split <;> omega
  | _ => exact Nat.le_refl _

theorem finish_connects (cfg : PoolConfig) (s : System) :
    ∃ (ids : List Nat) (t : System), Transition.run (step cfg) s (ids.map succeeds) = some t ∧ t.connects = 0 ∧
      t.load = s.load ∧ (∀ key, t.loadFor key = s.loadFor key) ∧
      (s.Serial → Transition.Always (step cfg) Serial s (ids.map succeeds)) := by
  induction pending : s.connects generalizing s with
  | zero => exact ⟨[], s, rfl, pending, rfl, fun _ => rfl, id⟩
  | succ n ih =>
    obtain ⟨i, task, here, some⟩ := Tally.exists_of_overList_pos Task.connectWeight
      (show 0 < Tally.overList Task.connectWeight s.tasks by simp only [connects] at pending; omega)
    cases task with
    | connecting call =>
      obtain ⟨t, stepped, fewer, load, loadFor, serial⟩ := connected_load cfg here
      obtain ⟨ids, u, reached, none, same, sameFor, always⟩ := ih t (by omega)
      refine ⟨i :: ids, u, ?_, none, same.trans load, fun key => (sameFor key).trans (loadFor key), ?_⟩
      · exact Transition.run_cons.mpr ⟨t, stepped, reached⟩
      · intro before
        refine ⟨before, fun other other_stepped => ?_⟩
        obtain rfl := Option.some.inj (stepped.symm.trans other_stepped)
        exact always fun key => (serial key).trans (before key)
    | _ => simp [Task.connectWeight] at some

theorem onStart_vacuous {cfg : PoolConfig} {holds : System → PoolKey → Prop} (s : System) (a : Action)
    (disabled : step cfg s a = none) : OnStart cfg holds s a := by
  cases a with
  | poll i =>
    intro call asks
    exact absurd disabled (poll_enabled cfg asks)
  | _ => trivial

theorem onStart_poll {cfg : PoolConfig} {holds : System → PoolKey → Prop} {s : System} {i : Nat}
    {call : AcquireCall} (asks : s.asking i = some call) :
    OnStart cfg holds s (.poll i) ↔ (s.Starts cfg call.key → holds s call.key) := by
  simp [OnStart, asks]

theorem step_withinTotal {cfg : PoolConfig} (s : System) (a : Action) (t : System)
    (balanced : Balanced s) (_ : Balanced t) (before : s.load ≤ cfg.maxTotalConnections)
    (stepped : step cfg s a = some t) : t.load ≤ cfg.maxTotalConnections ↔ RoomLeft cfg s a := by
  by_cases polls : ∃ i, a = .poll i
  · obtain ⟨i, rfl⟩ := polls
    obtain ⟨call, asks, ⟨not, less, -⟩ | ⟨starts, load, -⟩⟩ := poll_load balanced stepped
    · rw [RoomLeft, onStart_poll asks]
      exact iff_of_true (less.trans before) fun starts => absurd starts not
    · rw [RoomLeft, onStart_poll asks, load]
      simp only [starts, forall_const]
      omega
  · have free : RoomLeft cfg s a := by
      cases a <;> simp_all [RoomLeft, OnStart]
    exact iff_of_true ((step_load balanced stepped fun i is => polls ⟨i, is⟩).1.trans before) free

theorem withinTotal_of_roomLeft (cfg : PoolConfig) (actions : List Action) :
    (Transition.Along (step cfg) (RoomLeft cfg) {} actions →
      Transition.Always (step cfg) (WithinTotal cfg) {} actions) ∧
    (¬ Transition.Along (step cfg) (RoomLeft cfg) {} actions →
      ∃ (n : Nat) (ids : List Nat), ¬ Transition.Always (step cfg) (WithinTotal cfg) {}
        (actions.take n ++ ids.map succeeds)) := by
  have exact : Transition.Always (step cfg) (fun s => s.load ≤ cfg.maxTotalConnections) {} actions ↔
      Transition.Along (step cfg) (RoomLeft cfg) {} actions :=
    Transition.always_iff_along step_withinTotal onStart_vacuous
      (Transition.always (step_invariant balanced_move balanced_start cfg) actions balanced_initial)
      (Nat.zero_le _)
  constructor
  · intro along
    exact (exact.mpr along).mono fun s within => (Nat.le_add_right _ _).trans within
  · intro broken
    obtain ⟨n, u, reached, beyond⟩ := Transition.exists_of_not_always (mt exact.mp broken)
    obtain ⟨ids, v, finished, none, load, -⟩ := finish_connects cfg u
    refine ⟨n, ids, fun always => beyond ?_⟩
    have last := always.last (Transition.run_append.mpr ⟨u, reached, finished⟩)
    rw [← load, System.load, none]
    exact last

-- Two tenants pass the check together when there is room for one connection.
def checkedTogether : List Action :=
  [.call (tenant "testdb"), .call (tenant "otherdb"), .poll 0, .poll 1, succeeds 0, succeeds 1]

theorem not_withinTotal_checkedTogether :
    ¬ Transition.Always (step { maxTotalConnections := 1 })
      (WithinTotal { maxTotalConnections := 1 }) {} checkedTogether := by
  intro always
  obtain ⟨s, ran, beyond⟩ : ∃ s,
      Transition.run (step { maxTotalConnections := 1 }) {} checkedTogether = some s ∧
      s.manager.totalServerConnections.value = 2 := Transition.exists_run (by decide)
  have last : s.manager.totalServerConnections.value ≤ 1 := always.last ran
  omega

theorem step_withinPools {cfg : PoolConfig} (s : System) (a : Action) (t : System)
    (kept : Balanced s ∧ s.Serial) (next : Balanced t ∧ t.Serial)
    (before : ∀ key, s.loadFor key ≤ cfg.maxConnectionsPerPool) (stepped : step cfg s a = some t) :
    (∀ key, t.loadFor key ≤ cfg.maxConnectionsPerPool) ↔ RoomBesideResets cfg s a := by
  obtain ⟨balanced, -⟩ := kept
  by_cases polls : ∃ i, a = .poll i
  · obtain ⟨i, rfl⟩ := polls
    obtain ⟨call, asks, ⟨not, -, less⟩ | ⟨starts, -, load, connecting, others⟩⟩ :=
      poll_load balanced stepped
    · rw [RoomBesideResets, onStart_poll asks]
      exact iff_of_true (fun key => (less key).trans (before key)) fun starts => absurd starts not
    · rw [RoomBesideResets, onStart_poll asks, balanced.active]
      simp only [starts, forall_const]
      -- No other caller of the key is connecting, so the load is what is held and what is reset.
      have serial := next.2 call.key
      simp only [loadFor, live] at load
      constructor
      · intro within
        have room := within call.key
        simp only [loadFor, live] at room
        omega
      · intro room key
        by_cases same : key = call.key
        · subst same
          simp only [loadFor, live]
          omega
        · exact (others key same).le.trans (before key)
  · have free : RoomBesideResets cfg s a := by
      cases a <;> simp_all [RoomBesideResets, OnStart]
    refine iff_of_true (fun key => ?_) free
    exact ((step_load balanced stepped fun i is => polls ⟨i, is⟩).2 key).trans (before key)

theorem withinPools_of_roomBesideResets (cfg : PoolConfig) (actions : List Action)
    (serial : Transition.Always (step cfg) Serial {} actions) :
    (Transition.Along (step cfg) (RoomBesideResets cfg) {} actions →
      Transition.Always (step cfg) (WithinPools cfg) {} actions) ∧
    (¬ Transition.Along (step cfg) (RoomBesideResets cfg) {} actions →
      ∃ (n : Nat) (ids : List Nat),
        Transition.Always (step cfg) Serial {} (actions.take n ++ ids.map succeeds) ∧
        ¬ Transition.Always (step cfg) (WithinPools cfg) {} (actions.take n ++ ids.map succeeds)) := by
  have balanced :=
    Transition.always (step_invariant balanced_move balanced_start cfg) actions balanced_initial
  have exact : Transition.Always (step cfg)
        (fun s => ∀ key, s.loadFor key ≤ cfg.maxConnectionsPerPool) {} actions ↔
      Transition.Along (step cfg) (RoomBesideResets cfg) {} actions :=
    Transition.always_iff_along step_withinPools onStart_vacuous (balanced.and serial)
      (fun _ => Nat.zero_le _)
  constructor
  · intro along
    exact (exact.mpr along).mono fun s within key => (Nat.le_add_right _ _).trans (within key)
  · intro broken
    obtain ⟨n, u, reached, beyond⟩ := Transition.exists_of_not_always (mt exact.mp broken)
    obtain ⟨ids, v, finished, none, -, loadFor, still⟩ := finish_connects cfg u
    have one : u.Serial := (serial.take n).last reached
    refine ⟨n, ids, (serial.take n).append fun t ran => ?_, fun always => beyond fun key => ?_⟩
    · obtain rfl := Option.some.inj (reached.symm.trans ran)
      exact still one
    · have last := always.last (Transition.run_append.mpr ⟨u, reached, finished⟩) key
      have zero := connectsFor_le v key
      rw [← loadFor key, System.loadFor]
      omega

instance (cfg : PoolConfig) (s : System) (a : Action) : Decidable (RoomBesideResets cfg s a) :=
  inferInstanceAs (Decidable (OnStart cfg _ s a))

-- The reset is over before the next caller comes.
def letInAfterReset : List Action :=
  [.call (tenant "testdb"), .poll 0, succeeds 0, .release 0, .reset 0 (.error "Reset failed"),
    .call (tenant "testdb"), .poll 1, succeeds 1]

theorem withinPools_letInAfterReset :
    Transition.Always (step { maxConnectionsPerPool := 1 })
      (WithinPools { maxConnectionsPerPool := 1 }) {} letInAfterReset := by
  have one : Transition.Always (step { maxConnectionsPerPool := 1 }) (fun s => s.connects ≤ 1) {}
      letInAfterReset := by decide
  have serial := one.mono fun s few key => (connectsFor_le s key).trans few
  exact (withinPools_of_roomBesideResets _ letInAfterReset serial).1 (by decide)

-- A connection is given back and is being reset while the next caller is let in.
def letInDuringReset : List Action :=
  [.call (tenant "testdb"), .poll 0, succeeds 0, .release 0, .call (tenant "testdb"), .poll 1, succeeds 1]

theorem serial_letInDuringReset :
    Transition.Always (step { maxConnectionsPerPool := 1 }) Serial {} letInDuringReset := by
  have one : Transition.Always (step { maxConnectionsPerPool := 1 }) (fun s => s.connects ≤ 1) {}
      letInDuringReset := by decide
  exact one.mono fun s few key => (connectsFor_le s key).trans few

theorem not_withinPools_letInDuringReset :
    Transition.Always (step { maxConnectionsPerPool := 1 }) Serial {} letInDuringReset ∧
      ¬ Transition.Always (step { maxConnectionsPerPool := 1 })
        (WithinPools { maxConnectionsPerPool := 1 }) {} letInDuringReset := by
  refine ⟨serial_letInDuringReset, fun always => ?_⟩
  obtain ⟨s, ran, beyond⟩ : ∃ s,
      Transition.run (step { maxConnectionsPerPool := 1 }) {} letInDuringReset = some s ∧
      s.live (tenant "testdb").key = 2 := Transition.exists_run (by decide)
  have last : s.live (tenant "testdb").key ≤ 1 := always.last ran _
  omega

end System

end PgMux
