import PgMux.Pool.IdleQueue

set_option autoImplicit false

namespace PgMux

namespace System

open PoolManager

theorem Owned.id_lt {s : System} (owned : Owned s) {key : PoolKey} {conn : PooledConnection}
    (member : conn ∈ (s.manager.pool key).idle) : conn.stream.id < s.opened.length := by
  have once := owned.once conn.stream.id
  have within := le_overTable_pool (idleOf conn.stream.id) (fun _ => rfl) s.manager key
  have present : 0 < idleOf conn.stream.id key (s.manager.pool key) :=
    List.countP_pos_iff.mpr ⟨conn, member, decide_eq_true rfl⟩
  by_contra beyond
  rw [if_neg beyond, owners] at once
  omega

/-- The pools, with the instant at which `connect_backend` opened each connection, and the age that every
reused connection had when `acquire` returned it. -/
structure Lives where
  sys : System := {}
  born : Nat → Instant := fun _ => 0
  handed : List (TcpStream × Nat) := []

namespace Lives

def birth (s : Lives) : Action → Nat → Instant
  | .connected _ (.ok ()) => Function.update s.born s.sys.opened.length s.sys.now
  | _ => s.born

-- A poll that ends with a connection in hand has taken it from the idle queue.
def reused (s : Lives) (after : System) : Action → List (TcpStream × Nat)
  | .poll i =>
    match after.tasks[i]? with
    | some (.holding _ stream) => [(stream, s.sys.now - s.born stream.id)]
    | _ => []
  | _ => []

def step (cfg : PoolConfig) (s : Lives) (a : Action) : Option Lives :=
  (s.sys.step cfg a).map fun after => ⟨after, s.birth a, s.handed ++ s.reused after a⟩

def Young (cfg : PoolConfig) (s : Lives) : Prop :=
  ∀ entry ∈ s.handed, entry.2 ≤ fromSecs cfg.maxConnectionLifetimeSecs

/-- A connection is given back only while it can wait in the queue, for as long as an idle connection is kept
there, within its lifetime. -/
def ReturnedInTime (cfg : PoolConfig) (s : Lives) : Action → Prop
  | .reset i (.ok ()) => ∀ call stream, s.sys.tasks[i]? = some (.resetting call stream) →
      (s.sys.now - s.born stream.id) +
          min (fromSecs cfg.idleTimeoutSecs) (fromSecs cfg.maxConnectionLifetimeSecs) ≤
        fromSecs cfg.maxConnectionLifetimeSecs
  | _ => True

instance (cfg : PoolConfig) (s : Lives) (a : Action) : Decidable (ReturnedInTime cfg s a) :=
  match a with
  | .reset i (.ok ()) =>
    match here : s.sys.tasks[i]? with
    | some (.resetting call stream) =>
      decidable_of_iff ((s.sys.now - s.born stream.id) +
          min (fromSecs cfg.idleTimeoutSecs) (fromSecs cfg.maxConnectionLifetimeSecs) ≤
        fromSecs cfg.maxConnectionLifetimeSecs) (by simp [ReturnedInTime, here])
    | none | some (.called _) | some (.waiting _ _ _) | some (.connecting _) | some (.holding _ _)
    | some (.failed _ _) | some (.released _) | some (.panicked _) => isTrue (by simp [ReturnedInTime, here])
  | .reset _ (.error _) | .tick _ | .call _ | .poll _ | .expire _ | .connected _ _ | .release _ => isTrue trivial

/-- An idle connection was opened before it was last given back, and was given back in time. -/
structure Dated (cfg : PoolConfig) (born : Nat → Instant) (now : Instant) (conn : PooledConnection) : Prop where
  born_le : born conn.stream.id ≤ conn.createdAt
  past : conn.createdAt ≤ now
  stamped : conn.lastUsed = conn.createdAt
  left : (conn.createdAt - born conn.stream.id) +
      min (fromSecs cfg.idleTimeoutSecs) (fromSecs cfg.maxConnectionLifetimeSecs) ≤
    fromSecs cfg.maxConnectionLifetimeSecs

structure Inv (cfg : PoolConfig) (s : Lives) : Prop where
  owned : Owned s.sys
  past : ∀ id, s.born id ≤ s.sys.now
  idle : ∀ key, ∀ conn ∈ (s.sys.manager.pool key).idle, Dated cfg s.born s.sys.now conn
  young : Young cfg s

variable {cfg : PoolConfig}

theorem step_sys {s t : Lives} {a : Action} (stepped : step cfg s a = some t) :
    s.sys.step cfg a = some t.sys ∧ t.born = s.birth a ∧ t.handed = s.handed ++ s.reused t.sys a := by
  obtain ⟨after, ran, rfl⟩ := Option.map_eq_some_iff.mp stepped
  exact ⟨ran, rfl, rfl⟩

theorem run_sys (s : Lives) (actions : List Action) :
    (Transition.run (step cfg) s actions).map Lives.sys = Transition.run (System.step cfg) s.sys actions :=
  Transition.run_map (fun _ _ => by simp [step, Function.comp_def]) s actions

theorem birth_of_known {s : Lives} {id : Nat} (known : id < s.sys.opened.length) (a : Action) :
    s.birth a id = s.born id := by
  unfold birth
  split
  · exact Function.update_of_ne known.ne _ _
  · rfl

theorem birth_le {s : Lives} (past : ∀ id, s.born id ≤ s.sys.now) (a : Action) (id : Nat) :
    s.birth a id ≤ s.sys.now := by
  unfold birth
  split
  · rw [Function.update_apply]
    split
    · exact le_rfl
    · exact past id
  · exact past id

theorem Dated.later {born other : Nat → Instant} {now last : Instant} {conn : PooledConnection}
    (dated : Dated cfg born now conn) (same : other conn.stream.id = born conn.stream.id) (later : now ≤ last) :
    Dated cfg other last conn :=
  ⟨same ▸ dated.born_le, dated.past.trans later, dated.stamped, same ▸ dated.left⟩

theorem Dated.age {born : Nat → Instant} {now : Instant} {conn : PooledConnection} (dated : Dated cfg born now conn)
    (fit : expired cfg now conn = false) :
    now - born conn.stream.id ≤ fromSecs cfg.maxConnectionLifetimeSecs := by
  simp only [expired, Bool.or_eq_false_iff, decide_eq_false_iff_not, not_lt, dated.stamped] at fit
  have waited : now - conn.createdAt ≤
      min (fromSecs cfg.idleTimeoutSecs) (fromSecs cfg.maxConnectionLifetimeSecs) := le_min fit.2 fit.1
  calc now - born conn.stream.id
      = (conn.createdAt - born conn.stream.id) + (now - conn.createdAt) := by
        rw [Nat.add_comm, Nat.sub_add_sub_cancel dated.past dated.born_le]
    _ ≤ (conn.createdAt - born conn.stream.id) +
        min (fromSecs cfg.idleTimeoutSecs) (fromSecs cfg.maxConnectionLifetimeSecs) :=
      Nat.add_le_add_left waited _
    _ ≤ fromSecs cfg.maxConnectionLifetimeSecs := dated.left

theorem mem_reused {s t : Lives} {a : Action} (stepped : step cfg s a = some t) (entry : TcpStream × Nat) :
    entry ∈ s.reused t.sys a ↔ ∃ i, a = .poll i ∧ ∃ call ∈ s.sys.asking i, ∃ conn ∈ s.sys.nextIdle cfg call.key,
      entry = (conn.stream, s.sys.now - s.born conn.stream.id) := by
  obtain ⟨ran, -, -⟩ := step_sys stepped
  cases a with
  | poll i =>
    obtain ⟨old, call, new, here, asks, -, tasks, taken, fresh⟩ := poll_task ran
    have placed : t.sys.tasks[i]? = some new := by
      rw [tasks, List.getElem?_set_self (List.getElem?_eq_some_iff.mp here).1]
    rw [reused, placed]
    cases next : s.sys.nextIdle cfg call.key with
    | none =>
      have nothing := fresh next
      constructor
      · intro member
        cases new with
        | holding other stream => exact absurd rfl (nothing other stream)
        | _ => simp at member
      · rintro ⟨j, same, other, asked, conn, is, -⟩
        obtain rfl := Action.poll.inj same
        obtain rfl := Option.some.inj (asks.symm.trans asked)
        rw [next] at is
        cases is
    | some conn =>
      rw [taken conn next]
      constructor
      · intro member
        exact ⟨i, rfl, call, asks, conn, next, List.mem_singleton.mp member⟩
      · rintro ⟨j, same, other, asked, found, is, rfl⟩
        obtain rfl := Action.poll.inj same
        obtain rfl := Option.some.inj (asks.symm.trans asked)
        obtain rfl := Option.some.inj (next.symm.trans is)
        exact List.mem_singleton.mpr rfl
  | _ => simp [reused]

theorem dated_pushed {s : Lives} {a : Action} (inv : Inv cfg s) (inTime : ReturnedInTime cfg s a) {key : PoolKey}
    {conn : PooledConnection} (added : conn ∈ s.sys.pushed key a) : Dated cfg s.born s.sys.now conn := by
  obtain ⟨i, call, stream, rfl, here, -, rfl⟩ := pushed_cases added
  exact ⟨inv.past _, le_rfl, rfl, inTime call stream here⟩

theorem step_inv (s : Lives) (a : Action) (t : Lives) (inv : Inv cfg s) (inTime : ReturnedInTime cfg s a)
    (stepped : step cfg s a = some t) : Inv cfg t := by
  obtain ⟨ran, born, handed⟩ := step_sys stepped
  have later := step_now ran
  refine ⟨step_invariant owned_move owned_start cfg s.sys a t.sys inv.owned ran, fun id => ?_, fun key conn member => ?_,
    fun entry member => ?_⟩
  · rw [born]
    exact (birth_le inv.past a id).trans later
  · obtain ⟨n, idle, -⟩ := idle_step ran key
    rw [idle] at member
    rw [born]
    rcases List.mem_append.mp member with old | added
    · have before := List.mem_of_mem_drop old
      exact (inv.idle key conn before).later (birth_of_known (inv.owned.id_lt before) a) later
    · obtain ⟨i, call, stream, rfl, -⟩ := pushed_cases added
      exact (dated_pushed inv inTime added).later rfl later
  · rw [handed] at member
    rcases List.mem_append.mp member with old | new
    · exact inv.young entry old
    · obtain ⟨i, -, call, -, conn, next, rfl⟩ := (mem_reused stepped entry).mp new
      have idle : conn ∈ (s.sys.manager.pool call.key).idle :=
        (List.dropWhile_sublist _).subset (List.mem_of_mem_head? next)
      have fit := List.head?_dropWhile_not (expired cfg s.sys.now) (s.sys.manager.pool call.key).idle
      rw [← nextIdle, next] at fit
      exact (inv.idle call.key conn idle).age fit

theorem young_of_returnedInTime (cfg : PoolConfig) (actions : List Action)
    (inTime : Transition.Along (step cfg) (ReturnedInTime cfg) {} actions) :
    Transition.Always (step cfg) (Young cfg) {} actions := by
  have start : Inv cfg {} :=
    ⟨owned_initial, fun _ => le_rfl, fun _ _ member => by simp [PoolManager.pool] at member, nofun⟩
  exact (Transition.always_of_along step_inv inTime start).mono fun s inv => inv.young

-- The connection is given back after eight of its ten seconds and reused after ten.
def reusedTwice : List Action :=
  [.call (tenant "testdb"), .poll 0, .connected 0 (.ok ()), .tick (fromSecs 4), .release 0, .reset 0 (.ok ()),
    .tick (fromSecs 1), .call (tenant "testdb"), .poll 1, .tick (fromSecs 3), .release 1, .reset 1 (.ok ()),
    .tick (fromSecs 2), .call (tenant "testdb"), .poll 2]

theorem young_of_returnedInTime_reusedTwice :
    Transition.Always (step { idleTimeoutSecs := 2, maxConnectionLifetimeSecs := 10 })
      (Young { idleTimeoutSecs := 2, maxConnectionLifetimeSecs := 10 }) {} reusedTwice ∧
      ∃ s, Transition.run (step { idleTimeoutSecs := 2, maxConnectionLifetimeSecs := 10 }) {} reusedTwice = some s ∧
        s.handed.map Prod.snd = [fromSecs 5, fromSecs 10] :=
  ⟨young_of_returnedInTime _ reusedTwice (by decide), Transition.exists_run (by decide)⟩

-- Ten seconds may a connection live; it is given back after eight and reused after sixteen.
def shortLife : PoolConfig := { maxConnectionLifetimeSecs := 10 }

def renewed : List Action :=
  [.call (tenant "testdb"), .poll 0, .connected 0 (.ok ()), .tick (fromSecs 8), .release 0, .reset 0 (.ok ()),
    .tick (fromSecs 8), .call (tenant "testdb"), .poll 1]

theorem not_young_renewed : ¬ ∀ cfg actions, Transition.Always (step cfg) (Young cfg) {} actions := by
  intro always
  obtain ⟨s, ran, old⟩ : ∃ s, Transition.run (step shortLife) {} renewed = some s ∧
      s.handed.map Prod.snd = [fromSecs 16] := Transition.exists_run (by decide)
  have young := (always shortLife renewed).last ran
  obtain ⟨entry, handed, age⟩ := List.map_eq_singleton_iff.mp old
  have within := young entry (by simp [handed])
  rw [age] at within
  exact absurd within (by decide)

end Lives

end System

end PgMux
