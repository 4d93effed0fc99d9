import PgMux.Pool.Deadlines

set_option autoImplicit false

namespace PgMux

namespace System

open PoolManager

/-- The pools, and which callers are parked in the `select!` of the global limit. -/
structure Congestion where
  sys : System := {}
  atGlobal : Nat → Bool := fun _ => false

namespace Congestion

-- Parking leaves the counter as the last pass of the loop has read it.
def parkedAt (cfg : PoolConfig) (s : Congestion) (after : System) : Action → Nat → Bool
  | .poll i => Function.update s.atGlobal i
      (decide (cfg.maxTotalConnections ≤ after.manager.totalServerConnections.value))
  | _ => s.atGlobal

def step (cfg : PoolConfig) (s : Congestion) (a : Action) : Option Congestion :=
  (s.sys.step cfg a).map fun after => ⟨after, s.parkedAt cfg after a⟩

def TimedOut (s : Congestion) (after : System) : Action → Prop
  | .poll i => ∃ call, after.tasks[i]? = some (.failed call .globalLimit)
  | .expire i => s.atGlobal i = true
  | _ => False

def Spares (cfg : PoolConfig) (s : Congestion) (a : Action) : Prop :=
  ∀ t, step cfg s a = some t → s.TimedOut t.sys a → ∀ key, ¬ Overdue cfg t.sys.now t.sys.manager key

/-- When the deadline of a caller comes at the global limit, no idle connection of another key is overdue.
A caller that wakes up evicts those of its own key; one that sleeps until the deadline does not, and then none
of its own is overdue either. -/
def OthersFresh (cfg : PoolConfig) (s : Congestion) : Action → Prop
  | .poll i => ∀ task ∈ s.sys.tasks[i]?, ∀ call ∈ task.asking, task.outOfTime cfg s.sys.now = true →
      s.sys.nextIdle cfg call.key = none →
      cfg.maxTotalConnections ≤
        s.sys.manager.totalServerConnections.value - (s.sys.manager.pool call.key).idle.length →
      ∀ key, key ≠ call.key → ¬ Overdue cfg s.sys.now s.sys.manager key
  | .expire i => ∀ call deadline notified, s.sys.tasks[i]? = some (.waiting call deadline notified) →
      deadline ≤ s.sys.now → s.atGlobal i = true → ∀ key, ¬ Overdue cfg s.sys.now s.sys.manager key
  | _ => True

variable {cfg : PoolConfig}

theorem step_of_sys {s : Congestion} {a : Action} {after : System} (ran : s.sys.step cfg a = some after) :
    step cfg s a = some ⟨after, s.parkedAt cfg after a⟩ := by
  rw [step, ran, Option.map_some]

theorem run_sys (s : Congestion) (actions : List Action) :
    (Transition.run (step cfg) s actions).map Congestion.sys = Transition.run (System.step cfg) s.sys actions :=
  Transition.run_map (fun _ _ => by simp [step, Function.comp_def]) s actions

theorem spares_iff {s : Congestion} {a : Action} {after : System} (ran : s.sys.step cfg a = some after) :
    Spares cfg s a ↔ (s.TimedOut after a → ∀ key, ¬ Overdue cfg after.now after.manager key) := by
  simp [Spares, step_of_sys ran]

theorem poll_spares {s : Congestion} (balanced : Balanced s.sys) (i : Nat) :
    Spares cfg s (.poll i) ↔ OthersFresh cfg s (.poll i) := by
  cases ran : s.sys.step cfg (.poll i) with
  | none =>
    refine iff_of_true (by simp [Spares, step, ran]) fun task here call asks => ?_
    have asking : s.sys.asking i = some call := Option.bind_eq_some_iff.mpr ⟨task, here, asks⟩
    exact absurd ran (poll_enabled cfg asking)
  | some after =>
    obtain ⟨task, call, -, -, here, asking, -⟩ := poll_polled ran
    have asks : task.asking = some call := by simpa [System.asking, here] using asking
    rw [spares_iff ran, TimedOut, poll_globalLimit balanced here asks ran]
    constructor
    · intro spared other there asker asked late none full key differs overdue
      obtain rfl := Option.some.inj (here.symm.trans there)
      obtain rfl := Option.some.inj (asks.symm.trans asked)
      exact spared ⟨late, none, full⟩ key ((poll_overdue asking ran none key).mpr ⟨differs, overdue⟩)
    · rintro fresh ⟨late, none, full⟩ key overdue
      obtain ⟨differs, before⟩ := (poll_overdue asking ran none key).mp overdue
      exact fresh task here call asks late none full key differs before

theorem expire_spares (s : Congestion) (i : Nat) :
    Spares cfg s (.expire i) ↔ OthersFresh cfg s (.expire i) := by
  cases ran : s.sys.step cfg (.expire i) with
  | none =>
    refine iff_of_true (by simp [Spares, step, ran]) fun call deadline notified here late => ?_
    simp [System.step, here, late] at ran
  | some after =>
    rw [spares_iff ran, TimedOut]
    cases step_steps ran with
    | expire _ call deadline notified here late =>
      simp only [expire_overdue]
      constructor
      · intro spared _ _ _ _ _
        exact spared
      · intro fresh
        exact fresh call deadline notified here late

theorem spares_iff_othersFresh (s : Congestion) (a : Action) (balanced : Balanced s.sys) :
    Spares cfg s a ↔ OthersFresh cfg s a := by
  cases a with
  | poll i => exact poll_spares balanced i
  | expire i => exact expire_spares s i
  | _ => simp [Spares, TimedOut, OthersFresh]

theorem balanced_step (s : Congestion) (a : Action) (t : Congestion) (balanced : Balanced s.sys)
    (stepped : step cfg s a = some t) : Balanced t.sys := by
  obtain ⟨after, ran, rfl⟩ := Option.map_eq_some_iff.mp stepped
  exact step_invariant balanced_move balanced_start cfg s.sys a after balanced ran

def deadline (cfg : PoolConfig) (now : Instant) : Task → Option Instant
  | .called _ => some (now + fromMillis cfg.acquireTimeoutMs)
  | .waiting _ deadline _ => some deadline
  | _ => none

/-- The times of the calls and of the returns. Nobody is left parked for longer than `slack` beyond its deadline. A
caller comes to the global limit, and a connection is given back while one is parked there, only when no idle
connection will be overdue by then; the caller evicts those of its own key itself. -/
def Foreseen (cfg : PoolConfig) (slack : Nat) (s : Congestion) : Action → Prop
  | .tick elapsed => ∀ i call last, s.sys.due i = some (call, last) → s.sys.now + elapsed ≤ last + slack
  | .poll i => ∀ task ∈ s.sys.tasks[i]?, ∀ call ∈ task.asking, ∀ last ∈ deadline cfg s.sys.now task,
      s.sys.nextIdle cfg call.key = none →
      cfg.maxTotalConnections ≤
        s.sys.manager.totalServerConnections.value - (s.sys.manager.pool call.key).idle.length →
      ∀ key, key ≠ call.key → FreshUntil cfg s.sys.manager key (last + slack)
  | .reset _ (.ok ()) => ∀ i call last, s.sys.due i = some (call, last) → s.atGlobal i = true →
      last + slack ≤ s.sys.now + fromSecs cfg.idleTimeoutSecs
  | _ => True

theorem forall_due (s : System) (holds : Nat → AcquireCall → Instant → Prop) :
    (∀ i < s.tasks.length, ∀ waiting ∈ s.due i, holds i waiting.1 waiting.2) ↔
      ∀ i call last, s.due i = some (call, last) → holds i call last := by
  constructor
  · intro each i call last waits
    obtain ⟨task, here, -⟩ := Option.bind_eq_some_iff.mp waits
    exact each i (List.getElem?_eq_some_iff.mp here).1 (call, last) waits
  · exact fun each i _ waiting waits => each i waiting.1 waiting.2 waits

theorem forall_freshUntil {m : PoolManager} {own : PoolKey} {last : Instant} :
    (∀ key ∈ m.pools.keys, key ≠ own → FreshUntil cfg m key last) ↔ ∀ key, key ≠ own → FreshUntil cfg m key last := by
  refine ⟨fun each key differs conn idle => ?_, fun each key _ => each key⟩
  by_cases known : key ∈ m.pools.keys
  · exact each key known differs conn idle
  · rw [PoolManager.pool, AList.lookup_eq_none.mpr known] at idle
    cases idle

instance (slack : Nat) (s : Congestion) (a : Action) : Decidable (Foreseen cfg slack s a) :=
  match a with
  | .tick elapsed => decidable_of_iff _ (forall_due s.sys fun _ _ last => s.sys.now + elapsed ≤ last + slack)
  | .poll i =>
    decidable_of_iff (∀ task ∈ s.sys.tasks[i]?, ∀ call ∈ task.asking, ∀ last ∈ deadline cfg s.sys.now task,
      s.sys.nextIdle cfg call.key = none →
      cfg.maxTotalConnections ≤
        s.sys.manager.totalServerConnections.value - (s.sys.manager.pool call.key).idle.length →
      ∀ key ∈ s.sys.manager.pools.keys, key ≠ call.key → FreshUntil cfg s.sys.manager key (last + slack))
      (by simp only [Foreseen, forall_freshUntil])
  | .reset _ (.ok ()) =>
    decidable_of_iff _ (forall_due s.sys fun i _ last => s.atGlobal i = true →
      last + slack ≤ s.sys.now + fromSecs cfg.idleTimeoutSecs)
  | .reset _ (.error _) | .call _ | .expire _ | .connected _ _ | .release _ => isTrue trivial

structure Kept (cfg : PoolConfig) (slack : Nat) (s : Congestion) : Prop where
  balanced : Balanced s.sys
  punctual : ∀ i call last, s.sys.due i = some (call, last) → s.sys.now ≤ last + slack
  fresh : ∀ i call last, s.sys.due i = some (call, last) → s.atGlobal i = true →
    ∀ key, FreshUntil cfg s.sys.manager key (last + slack)

variable {slack : Nat}

theorem Kept.othersFresh {s : Congestion} (kept : Kept cfg slack s) {a : Action} (foreseen : Foreseen cfg slack s a) :
    OthersFresh cfg s a := by
  cases a with
  | poll i =>
    intro task here call asks late none full key differs
    obtain ⟨last, due, inTime⟩ : ∃ last ∈ deadline cfg s.sys.now task, s.sys.now ≤ last + slack := by
      cases task with
      | called other =>
        exact ⟨_, rfl, (Nat.le_add_right _ _).trans (Nat.le_add_right _ _)⟩
      | waiting other last notified =>
        exact ⟨last, rfl, kept.punctual i other last (by simp [System.due, Option.mem_def.mp here, Task.due])⟩
      | _ => cases asks
    exact (foreseen task here call asks last due none full key differs).not_overdue inTime
  | expire i =>
    intro call last notified here late parked key
    have due : s.sys.due i = some (call, last) := by simp [System.due, here, Task.due]
    exact (kept.fresh i call last due parked key).not_overdue (kept.punctual i call last due)
  | _ => trivial

theorem step_punctual {s : Congestion} {after : System} {a : Action} (kept : Kept cfg slack s)
    (foreseen : Foreseen cfg slack s a) (ran : s.sys.step cfg a = some after) {i : Nat} {call : AcquireCall}
    {last : Instant} (waits : after.due i = some (call, last)) : after.now ≤ last + slack := by
  cases a with
  | tick elapsed =>
    obtain rfl := Option.some.inj ran
    exact foreseen i call last waits
  | _ =>
    rw [now_of_step ran (by simp)]
    rcases step_due ran waits with before | ⟨-, rfl⟩
    · exact kept.punctual i call last before
    · exact (Nat.le_add_right _ _).trans (Nat.le_add_right _ _)

theorem poll_parked {s after : System} {i : Nat} (balanced : Balanced s) (ran : s.step cfg (.poll i) = some after)
    {call : AcquireCall} {last : Instant} (waits : after.due i = some (call, last)) :
    ∃ task caller, s.tasks[i]? = some task ∧ task.asking = some caller ∧ last ∈ deadline cfg s.now task ∧
      s.nextIdle cfg caller.key = none ∧
      after.manager.totalServerConnections.value =
        s.manager.totalServerConnections.value - (s.manager.pool caller.key).idle.length ∧
      (after.manager.pool caller.key).idle = [] ∧
      ∀ key, key ≠ caller.key → (after.manager.pool key).idle = (s.manager.pool key).idle := by
  obtain ⟨old, caller, before, new, here, asking, -, alike, polled, -, tasks⟩ := poll_polled ran
  obtain ⟨others, own⟩ := poll_queue asking ran
  have placed : after.tasks[i]? = some new := by
    rw [tasks, List.getElem?_set_self (List.getElem?_eq_some_iff.mp here).1]
  have due : new.due = some (call, last) := by simpa [System.due, placed] using waits
  have set : last ∈ deadline cfg s.now old := by
    rcases step_due ran waits with earlier | ⟨begun, rfl⟩
    · cases old <;> simp_all [System.due, Task.due, deadline]
    · cases old <;> simp_all [begins, deadline]
  have within := balanced.idle_le caller.key
  rw [balanced.total] at within
  have left := evict_total caller.key (before.pool caller.key).idle.length (alike.total.trans balanced.total)
    (by rwa [alike.idle])
  refine ⟨old, caller, here, by simpa [System.asking, here] using asking, set, ?_⟩
  rw [nextIdle, List.head?_eq_none_iff]
  rw [alike.idle] at left
  generalize after.manager = m at *
  cases polled with
  | reuse conn rest n fresh dropped => cases due
  | start _ empty room same => cases due
  | wait _ _ empty full same away =>
    rw [alike.idle] at empty
    rw [empty] at own
    refine ⟨empty, ?_, own.1, others⟩
    rw [same.total, alike.idle, left, balanced.total]

theorem poll_fresh {s : Congestion} {after : System} {i : Nat} (balanced : Balanced s.sys)
    (foreseen : Foreseen cfg slack s (.poll i)) (ran : s.sys.step cfg (.poll i) = some after) {call : AcquireCall}
    {last : Instant} (waits : after.due i = some (call, last))
    (full : cfg.maxTotalConnections ≤ after.manager.totalServerConnections.value) (key : PoolKey) :
    FreshUntil cfg after.manager key (last + slack) := by
  obtain ⟨task, caller, here, asks, due, none, total, emptied, others⟩ := poll_parked balanced ran waits
  intro conn idle
  by_cases own : key = caller.key
  · rw [own, emptied] at idle
    cases idle
  · rw [others key own] at idle
    exact foreseen task here caller asks last due none (total ▸ full) key own conn idle

theorem step_fresh {s t : Congestion} {a : Action} (kept : Kept cfg slack s) (foreseen : Foreseen cfg slack s a)
    (stepped : step cfg s a = some t) {i : Nat} {call : AcquireCall} {last : Instant}
    (waits : t.sys.due i = some (call, last)) (parked : t.atGlobal i = true) (key : PoolKey) :
    FreshUntil cfg t.sys.manager key (last + slack) := by
  obtain ⟨after, ran, rfl⟩ := Option.map_eq_some_iff.mp stepped
  by_cases polled : a = .poll i
  · subst polled
    refine poll_fresh kept.balanced foreseen ran waits ?_ key
    simpa [parkedAt] using parked
  · have before : s.sys.due i = some (call, last) := by
      rcases step_due ran waits with earlier | ⟨begun, -⟩
      · exact earlier
      · cases a with
        | poll j =>
          have same : i = j := by
            simp only [begins] at begun
            split at begun
            · simpa [eq_comm] using begun
            · cases begun
          exact absurd (congrArg Action.poll same.symm) polled
        | _ => cases begun
    have stayed : s.atGlobal i = true := by
      cases a with
      | poll j =>
        have differs : i ≠ j := fun same => polled (congrArg Action.poll same.symm)
        simpa [parkedAt, Function.update_of_ne differs] using parked
      | _ => exact parked
    intro conn member
    obtain ⟨n, idle, -⟩ := idle_step ran key
    rw [idle] at member
    rcases List.mem_append.mp member with old | added
    · exact kept.fresh i call last before stayed key conn (List.mem_of_mem_drop old)
    · obtain ⟨j, other, stream, rfl, -, -, rfl⟩ := pushed_cases added
      exact foreseen i call last before stayed

theorem kept_step (s : Congestion) (a : Action) (t : Congestion) (kept : Kept cfg slack s)
    (foreseen : Foreseen cfg slack s a) (stepped : step cfg s a = some t) : Kept cfg slack t := by
  have ran : s.sys.step cfg a = some t.sys := by
    obtain ⟨after, ran, rfl⟩ := Option.map_eq_some_iff.mp stepped
    exact ran
  exact ⟨balanced_step s a t kept.balanced stepped, fun i call last => step_punctual kept foreseen ran,
    fun i call last => step_fresh kept foreseen stepped⟩

theorem spares_of_foreseen (cfg : PoolConfig) (slack : Nat) (actions : List Action)
    (foreseen : Transition.Along (step cfg) (Foreseen cfg slack) {} actions) :
    Transition.Along (step cfg) (Spares cfg) {} actions := by
  have start : Kept cfg slack {} := ⟨balanced_initial, by simp [System.due], by simp [System.due]⟩
  refine foreseen.strengthen (fun s a kept meets => ?_) kept_step start
  exact (spares_iff_othersFresh s a kept.balanced).mpr (kept.othersFresh meets)

-- The second tenant waits in vain, but not beside a connection that has been idle for too long.
def givenBackAtOnce : List Action :=
  [.call (tenant "testdb"), .poll 0, .connected 0 (.ok ()), .release 0, .reset 0 (.ok ()),
    .call (tenant "otherdb"), .poll 1, .tick (fromSecs 5), .expire 1]

theorem spares_of_foreseen_givenBackAtOnce :
    Transition.Along (step { maxTotalConnections := 1 }) (Spares { maxTotalConnections := 1 }) {} givenBackAtOnce ∧
      ∃ s, Transition.run (step { maxTotalConnections := 1 }) {} givenBackAtOnce = some s ∧
        s.sys.tasks[1]? = some (.failed (tenant "otherdb") .timeout) :=
  ⟨spares_of_foreseen _ 0 givenBackAtOnce (by decide), Transition.exists_run (by decide)⟩

-- One connection for everybody: the first tenant leaves it idle, and the second one waits for it in vain.
def oneConnection : PoolConfig := { maxTotalConnections := 1, idleTimeoutSecs := 300, acquireTimeoutMs := 5000 }

def starved : List Action :=
  [.call (tenant "testdb"), .poll 0, .connected 0 (.ok ()), .release 0, .reset 0 (.ok ()), .tick (fromSecs 301),
    .call (tenant "otherdb"), .poll 1, .tick (fromSecs 5), .expire 1]

theorem not_spares_starved :
    ¬ ∀ cfg actions, Transition.Along (step cfg) (Spares cfg) {} actions := by
  intro spared
  obtain ⟨s, ran, here, late, limited, overdue⟩ : ∃ s,
      Transition.run (step oneConnection) {} (starved.take 9) = some s ∧
      s.sys.tasks[1]? = some (.waiting (tenant "otherdb") (fromSecs 306) false) ∧
      fromSecs 306 ≤ s.sys.now ∧ s.atGlobal 1 = true ∧
      ∃ conn ∈ (s.sys.manager.pool (tenant "testdb").key).idle,
        fromSecs oneConnection.idleTimeoutSecs < s.sys.now - conn.lastUsed :=
    Transition.exists_run (by decide)
  have kept := (spared oneConnection starved).guard ran rfl
  exact (expire_spares s 1).mp kept _ _ _ here late limited (tenant "testdb").key overdue

end Congestion

end System

end PgMux
