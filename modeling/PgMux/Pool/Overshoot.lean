import PgMux.Pool.Capacity

set_option autoImplicit false

namespace PgMux

namespace System

open PoolManager Transition

theorem start_connects {cfg : PoolConfig} {s t : System} {i : Nat} {key : PoolKey}
    (stepped : step cfg s (.poll i) = some t) (started : t.connectsFor key = s.connectsFor key + 1) :
    t.connects = s.connects + 1 := by
  obtain ⟨old, call, before, new, here, -, weightless, -, -, -, tasks⟩ := poll_polled stepped
  have each := (Task.connectsFor_counts key).take new here weightless
  have all := Task.connectWeight_counts.take new here weightless
  have one : new.connectsFor key = 1 := by
    rw [connectsFor, tasks, each, connectsFor] at started
    omega
  rw [connects, tasks, all, connects]
  cases new with
  | connecting other => rfl
  | _ => simp [Task.connectsFor] at one

theorem step_load_le {cfg : PoolConfig} {c : Nat} (s : System) (a : Action) (t : System) (balanced : Balanced s)
    (few : t.connects ≤ c) (before : s.load ≤ cfg.maxTotalConnections - 1 + c)
    (stepped : step cfg s a = some t) : t.load ≤ cfg.maxTotalConnections - 1 + c := by
  by_cases polls : ∃ i, a = .poll i
  · obtain ⟨i, rfl⟩ := polls
    obtain ⟨call, -, rest⟩ := poll_load balanced stepped
    rcases rest with ⟨-, less, -⟩ | ⟨⟨-, room, -⟩, load, -, connecting, -⟩
    · exact less.trans before
    · have more := start_connects stepped connecting
      omega
  · exact (step_load balanced stepped fun i is => polls ⟨i, is⟩).1.trans before

theorem step_loadFor_le {cfg : PoolConfig} {c r : Nat} (s : System) (a : Action) (t : System)
    (balanced : Balanced s) (few : ∀ key, t.connectsFor key ≤ c ∧ s.resetsFor key ≤ r)
    (before : ∀ key, s.loadFor key ≤ cfg.maxConnectionsPerPool - 1 + c + r)
    (stepped : step cfg s a = some t) (key : PoolKey) :
    t.loadFor key ≤ cfg.maxConnectionsPerPool - 1 + c + r := by
  by_cases polls : ∃ i, a = .poll i
  · obtain ⟨i, rfl⟩ := polls
    obtain ⟨call, -, rest⟩ := poll_load balanced stepped
    rcases rest with ⟨-, -, less⟩ | ⟨⟨-, -, room⟩, -, load, connecting, others⟩
    · exact (less key).trans (before key)
    · by_cases same : key = call.key
      · subst same
        obtain ⟨fewer, resets⟩ := few call.key
        -- What is held counts against the limit, and what is being reset does not.
        simp only [balanced.active] at room
        simp only [loadFor, live] at load ⊢
        omega
      · exact (others key same).le.trans (before key)
  · exact ((step_load balanced stepped fun i is => polls ⟨i, is⟩).2 key).trans (before key)

def Within (c r : Nat) (s : System) : Prop := s.connects ≤ c ∧ ∀ key, s.resetsFor key ≤ r

structure Loaded (key : PoolKey) (total active resets pending : Nat) (s : System) : Prop where
  total : s.manager.totalServerConnections = ⟨total, false⟩
  active : (s.manager.pool key).activeCount = ⟨active, false⟩
  idle : (s.manager.pool key).idle = []
  resets : s.resetsFor key = resets
  others : ∀ other, other ≠ key → s.resetsFor other = 0
  connects : s.connects = pending
  connectsFor : s.connectsFor key = pending

def Passes (cfg : PoolConfig) (c r : Nat) (s : System) (actions : List Action) (t : System) : Prop :=
  run (step cfg) s actions = some t ∧ Always (step cfg) (Within c r) s actions

theorem Loaded.within {key : PoolKey} {total active resets pending c r : Nat} {s : System}
    (loaded : Loaded key total active resets pending s) (few : pending ≤ c) (some : resets ≤ r) :
    Within c r s := by
  refine ⟨loaded.connects ▸ few, fun other => ?_⟩
  by_cases same : other = key
  · rw [same, loaded.resets]
    exact some
  · rw [loaded.others other same]
    exact Nat.zero_le r

theorem Passes.append {cfg : PoolConfig} {c r : Nat} {s t u : System} {first second : List Action}
    (one : Passes cfg c r s first t) (other : Passes cfg c r t second u) : Passes cfg c r s (first ++ second) u := by
  refine ⟨run_append.mpr ⟨t, one.1, other.1⟩, one.2.append fun v ran => ?_⟩
  obtain rfl := Option.some.inj (one.1.symm.trans ran)
  exact other.2

theorem Passes.single {cfg : PoolConfig} {c r : Nat} {s t : System} {a : Action}
    (stepped : step cfg s a = some t) (before : Within c r s) (after : Within c r t) : Passes cfg c r s [a] t := by
  refine ⟨run_cons.mpr ⟨t, stepped, rfl⟩, before, fun u same => ?_⟩
  obtain rfl := Option.some.inj (stepped.symm.trans same)
  exact after

section Reaching

variable (cfg : PoolConfig) {call : AcquireCall} {total active resets pending c r : Nat} {s : System}

theorem Loaded.start (loaded : Loaded call.key total active resets pending s)
    (room : total < cfg.maxTotalConnections) (roomFor : active < cfg.maxConnectionsPerPool)
    (few : pending < c) (some : resets ≤ r) :
    ∃ t, Passes cfg c r s [.call call, .poll s.tasks.length] t ∧ t.tasks = s.tasks ++ [.connecting call] ∧
      Loaded call.key total active resets (pending + 1) t := by
  let called : System := { s with tasks := s.tasks ++ [.called call] }
  have sums (weight : Task → Nat) (counts : Task.Counts weight) :
      Tally.overList weight called.tasks = Tally.overList weight s.tasks := counts.spawn s.tasks call
  have same (key : PoolKey) : called.resetsFor key = s.resetsFor key :=
    sums _ fun task weightless => by cases task <;> simp_all [Task.Weightless, Task.resetsFor]
  have waits : Loaded call.key total active resets pending called :=
    ⟨loaded.total, loaded.active, loaded.idle, (same _).trans loaded.resets,
      fun other differs => (same other).trans (loaded.others other differs),
      (sums _ Task.connectWeight_counts).trans loaded.connects,
      (sums _ (Task.connectsFor_counts _)).trans loaded.connectsFor⟩
  have here : called.tasks[s.tasks.length]? = Option.some (.called call) := by simp [called]
  have fits : HasRoom cfg call.key called.manager := by
    rw [HasRoom, waits.total, waits.active, waits.idle]
    exact ⟨room, roomFor⟩
  obtain ⟨m, polls, all⟩ := poll_starts cfg here loaded.idle fits
  let t : System := { called with manager := m, tasks := called.tasks.set s.tasks.length (.connecting call) }
  have placed : t.tasks = s.tasks ++ [.connecting call] := by simp [t, called]
  have grown (weight : Task → Nat) : Tally.overList weight t.tasks =
      Tally.overList weight s.tasks + weight (.connecting call) := by rw [placed, Tally.overList_snoc]
  have ends : Loaded call.key total active resets (pending + 1) t :=
    ⟨all.total.trans loaded.total, (all.active _).trans loaded.active, (all.idle _).trans loaded.idle,
      (grown _).trans loaded.resets, fun key differs => (grown _).trans (loaded.others key differs),
      (grown _).trans (congrArg (· + 1) loaded.connects),
      (grown _).trans (by simp [Task.connectsFor, ← loaded.connectsFor, System.connectsFor])⟩
  refine ⟨t, ?_, placed, ends⟩
  have spawned : Passes cfg c r s [.call call] called :=
    .single rfl (loaded.within few.le some) (waits.within few.le some)
  exact spawned.append (.single polls (waits.within few.le some) (ends.within few some))

theorem Loaded.succeed {before : List Task} (loaded : Loaded call.key total active resets pending s)
    (last : s.tasks = before ++ [.connecting call]) (few : pending ≤ c) (some : resets ≤ r) :
    ∃ t stream, Passes cfg c r s [succeeds before.length] t ∧ t.tasks = before ++ [.holding call stream] ∧
      Loaded call.key (total + 1) (active + 1) resets (pending - 1) t := by
  have here : s.tasks[before.length]? = Option.some (.connecting call) := by simp [last]
  let stream : TcpStream := ⟨s.opened.length, call.key, call.password, call.extraParams⟩
  let t : System := { s with
    manager := s.manager.connected call.key
    tasks := s.tasks.set before.length (.holding call stream)
    opened := s.opened ++ [stream] }
  have stepped : step cfg s (succeeds before.length) = Option.some t := by simp [step, succeeds, here, t, stream]
  have moved (weight : Task → Nat) := Tally.overList_set weight (.holding call stream) here
  have resetting (key : PoolKey) : t.resetsFor key = s.resetsFor key := moved (Task.resetsFor key)
  have fewer : t.connects + 1 = s.connects := moved Task.connectWeight
  have fewerFor : t.connectsFor call.key + 1 = s.connectsFor call.key := by
    simpa [Task.connectsFor, System.connectsFor, t] using moved (Task.connectsFor call.key)
  have ends : Loaded call.key (total + 1) (active + 1) resets (pending - 1) t := by
    refine ⟨?_, ?_, ?_, (resetting _).trans loaded.resets,
      fun other differs => (resetting other).trans (loaded.others other differs), ?_, ?_⟩
    · simp [t, PoolManager.connected, AtomicU64.fetchAdd, loaded.total]
    · simp [t, connected_pool, AtomicU64.fetchAdd, loaded.active]
    · simp [t, connected_pool, loaded.idle]
    · rw [← loaded.connects, ← fewer, Nat.add_sub_cancel]
    · rw [← loaded.connectsFor, ← fewerFor, Nat.add_sub_cancel]
  refine ⟨t, stream, ?_, by simp [t, last], ends⟩
  exact .single stepped (loaded.within few some) (ends.within ((Nat.sub_le pending 1).trans few) some)

theorem Loaded.giveBack {before : List Task} {stream : TcpStream}
    (loaded : Loaded call.key total (active + 1) resets pending s)
    (present : (s.manager.pools.lookup call.key).isSome)
    (last : s.tasks = before ++ [.holding call stream]) (few : pending ≤ c) (some : resets < r) :
    ∃ t, Passes cfg c r s [.release before.length] t ∧ Loaded call.key total active (resets + 1) pending t := by
  have here : s.tasks[before.length]? = Option.some (.holding call stream) := by simp [last]
  obtain ⟨pool, found⟩ := Option.isSome_iff_exists.mp present
  have same := pool_of_lookup found
  let t : System := { s with
    manager := s.manager.setPool call.key { pool with activeCount := pool.activeCount.fetchSub }
    tasks := s.tasks.set before.length (.resetting call stream) }
  have stepped : step cfg s (.release before.length) = Option.some t := by
    simp [step, here, beginRelease, found, t]
  have moved (weight : Task → Nat) := Tally.overList_set weight (.resetting call stream) here
  have resetting : t.resetsFor call.key = s.resetsFor call.key + 1 := by
    simpa [Task.resetsFor, System.resetsFor, t] using moved (Task.resetsFor call.key)
  have elsewhere (other : PoolKey) (differs : other ≠ call.key) : t.resetsFor other = s.resetsFor other := by
    simpa [Task.resetsFor, System.resetsFor, t, Ne.symm differs] using moved (Task.resetsFor other)
  have ends : Loaded call.key total active (resets + 1) pending t := by
    refine ⟨loaded.total, ?_, ?_, resetting.trans (congrArg (· + 1) loaded.resets),
      fun other differs => (elsewhere other differs).trans (loaded.others other differs),
      (moved Task.connectWeight).trans loaded.connects, (moved (Task.connectsFor _)).trans loaded.connectsFor⟩
    · simp [t, ← same, loaded.active, AtomicU64.fetchSub]
    · simp [t, ← same, loaded.idle]
  exact ⟨t, .single stepped (loaded.within few some.le) (ends.within few some), ends⟩

theorem Loaded.admit (loaded : Loaded call.key total active resets pending s)
    (room : total < cfg.maxTotalConnections) (roomFor : active < cfg.maxConnectionsPerPool)
    (few : pending < c) (some : resets ≤ r) :
    ∃ actions t stream, Passes cfg c r s actions t ∧ t.tasks = s.tasks ++ [.holding call stream] ∧
      Loaded call.key (total + 1) (active + 1) resets pending t := by
  obtain ⟨t, started, tasks, loaded⟩ := loaded.start cfg room roomFor few some
  obtain ⟨u, stream, finished, tasks, loaded⟩ := loaded.succeed cfg tasks few some
  exact ⟨_, u, stream, started.append finished, tasks, loaded⟩

end Reaching

section Whole

variable (cfg : PoolConfig) {c r : Nat} (call : AcquireCall)

theorem loaded_initial (key : PoolKey) : Loaded key 0 0 0 0 {} :=
  ⟨rfl, rfl, rfl, rfl, fun _ _ => rfl, rfl, rfl⟩

theorem passes_initial : Passes cfg c r {} [] {} := ⟨rfl, Nat.zero_le c, fun _ => Nat.zero_le r⟩

theorem pass_resets (some : 0 < c) (roomFor : 0 < cfg.maxConnectionsPerPool) (n : Nat) (few : n ≤ r)
    (room : n ≤ cfg.maxTotalConnections) :
    ∃ actions s, Passes cfg c r {} actions s ∧ Loaded call.key n 0 n 0 s := by
  induction n with
  | zero => exact ⟨[], {}, passes_initial cfg, loaded_initial call.key⟩
  | succ n ih =>
    obtain ⟨actions, s, reached, loaded⟩ := ih (by omega) (by omega)
    obtain ⟨more, t, stream, admitted, tasks, loaded⟩ := loaded.admit (r := r) cfg (by omega) roomFor some (by omega)
    have balanced := reachable_balanced ⟨_, (reached.append admitted).1⟩
    have holds : t.tasks[s.tasks.length]? = Option.some (.holding call stream) := by simp [tasks]
    obtain ⟨u, released, loaded⟩ := loaded.giveBack (c := c) (r := r) cfg
      (balanced.present call.key (held_pos holds)) tasks (Nat.zero_le c) (by omega)
    exact ⟨_, u, (reached.append admitted).append released, loaded⟩

theorem pass_held (some : 0 < c) (m : Nat) (roomFor : m ≤ cfg.maxConnectionsPerPool) (pool : 0 < cfg.maxConnectionsPerPool)
    (room : r + m ≤ cfg.maxTotalConnections) :
    ∃ actions s, Passes cfg c r {} actions s ∧ Loaded call.key (r + m) m r 0 s := by
  induction m with
  | zero => exact pass_resets cfg call some pool r (Nat.le_refl r) room
  | succ m ih =>
    obtain ⟨actions, s, reached, loaded⟩ := ih (by omega) (by omega)
    obtain ⟨more, t, stream, admitted, -, loaded⟩ := loaded.admit cfg (by omega) (by omega) some (Nat.le_refl r)
    exact ⟨_, t, reached.append admitted, loaded⟩

theorem pass_connects (some : 0 < c) (m n : Nat) (roomFor : m < cfg.maxConnectionsPerPool)
    (room : r + m < cfg.maxTotalConnections) (few : n ≤ c) :
    ∃ actions s, Passes cfg c r {} actions s ∧ Loaded call.key (r + m) m r n s := by
  induction n with
  | zero => exact pass_held cfg call some m roomFor.le (Nat.zero_lt_of_lt roomFor) room.le
  | succ n ih =>
    obtain ⟨actions, s, reached, loaded⟩ := ih (by omega)
    obtain ⟨t, started, -, loaded⟩ := loaded.start cfg room roomFor few (Nat.le_refl r)
    exact ⟨_, t, reached.append started, loaded⟩

end Whole

theorem succeeds_within {cfg : PoolConfig} {c r : Nat} (s : System) (a : Action) (t : System)
    (within : Within c r s) (finishes : ∃ i, a = succeeds i) (stepped : step cfg s a = some t) : Within c r t := by
  obtain ⟨i, rfl⟩ := finishes
  cases step_steps stepped with
  | connected _ call here =>
    have moved (weight : Task → Nat) := Tally.overList_set weight
      (.holding call ⟨s.opened.length, call.key, call.password, call.extraParams⟩) here
    have fewer := moved Task.connectWeight
    refine ⟨le_trans ?_ within.1, fun key => le_of_eq_of_le (moved (Task.resetsFor key)) (within.2 key)⟩
    exact (Nat.le_add_right _ 1).trans fewer.le

theorem Passes.finish {cfg : PoolConfig} {c r : Nat} {s : System} {actions : List Action}
    (reached : Passes cfg c r {} actions s) :
    ∃ more t, Passes cfg c r {} (actions ++ more) t ∧ t.connects = 0 ∧ t.load = s.load ∧
      ∀ key, t.loadFor key = s.loadFor key := by
  rcases finish_connects cfg s with ⟨ids, t, finished, none, load, loadFor, -⟩
  refine ⟨ids.map succeeds, t, reached.append ⟨finished, ?_⟩, none, load, loadFor⟩
  refine always_of_along succeeds_within (along_of_forall ?_ s) (reached.2.last reached.1)
  simp only [List.forall_mem_map]
  exact fun i _ _ => ⟨i, rfl⟩

theorem always_balanced (cfg : PoolConfig) (actions : List Action) : Always (step cfg) Balanced {} actions :=
  always (step_invariant balanced_move balanced_start cfg) actions balanced_initial

/-- The total goes beyond the limit by one less than the number of connects that are in progress
together, and by no more. -/
theorem total_overshoot (cfg : PoolConfig) (c : Nat) :
    (∀ actions, Always (step cfg) (fun s => s.connects ≤ c) {} actions →
      Always (step cfg) (fun s => s.manager.totalServerConnections.value ≤ cfg.maxTotalConnections - 1 + c)
        {} actions) ∧
    (0 < cfg.maxTotalConnections → 0 < cfg.maxConnectionsPerPool → 0 < c →
      ∃ actions s, run (step cfg) {} actions = some s ∧
        Always (step cfg) (fun s => s.connects ≤ c) {} actions ∧
        s.manager.totalServerConnections.value = cfg.maxTotalConnections - 1 + c) := by
  constructor
  · intro actions few
    have loads : Always (step cfg) (fun s => s.load ≤ cfg.maxTotalConnections - 1 + c) {} actions := by
      refine Always.also ?_ ((always_balanced cfg actions).and few) (Nat.zero_le _)
      intro s a t now later before stepped
      exact step_load_le s a t now.1 later.2 before stepped
    exact loads.mono fun s within => (Nat.le_add_right _ s.connects).trans within
  · intro limit pool some
    -- All connections but one are being reset, where the pool does not count them.
    obtain ⟨actions, s, reached, loaded⟩ := pass_connects (r := cfg.maxTotalConnections - 1) cfg
      (tenant "testdb") some 0 c pool (by omega) (Nat.le_refl c)
    obtain ⟨more, t, ended, none, load, -⟩ := reached.finish
    refine ⟨_, t, ended.1, ended.2.mono fun _ within => within.1, ?_⟩
    simp only [System.load, none, loaded.total, loaded.connects] at load
    exact load

theorem total_overshoot_checkedTogether :
    Always (step { maxTotalConnections := 1 }) (fun s => s.manager.totalServerConnections.value ≤ 2) {}
        checkedTogether ∧
      ∃ actions s, run (step { maxTotalConnections := 1 }) {} actions = some s ∧
        Always (step { maxTotalConnections := 1 }) (fun s => s.connects ≤ 3) {} actions ∧
        s.manager.totalServerConnections.value = 3 :=
  ⟨(total_overshoot { maxTotalConnections := 1 } 2).1 checkedTogether (by decide),
    (total_overshoot { maxTotalConnections := 1 } 3).2 (by decide) (by decide) (by decide)⟩

end System

end PgMux
