import PgMux.Pool.IdleQueue

set_option autoImplicit false

/-!
# The life of a connection

What a pool is for, seen from one of its connections: it is opened, lent to one caller after the other, and
reset in between. The pools with all their callers refine this automaton.
-/

namespace PgMux

open Transition

inductive Custody where
  | unopened
  | held (i : Nat)
  | resetting (i : Nat)
  | idle
  | closed
deriving DecidableEq, Repr

inductive LifeEvent where
  | opened (i : Nat)
  | released (i : Nat)
  | cleaned (i : Nat)
  | spoiled (i : Nat)
  | lent (i : Nat)
  | expired
deriving DecidableEq, Repr

namespace Custody

def step : Custody → LifeEvent → Option Custody
  | .unopened, .opened i => some (.held i)
  | .held i, .released j => if j = i then some (.resetting i) else none
  | .resetting i, .cleaned j => if j = i then some .idle else none
  | .resetting i, .spoiled j => if j = i then some .closed else none
  | .idle, .lent i => some (.held i)
  | .idle, .expired => some .closed
  | _, _ => none

theorem into_resetting {v : Custody} {event : LifeEvent} {i : Nat} (stepped : step v event = some (.resetting i)) :
    v = .held i ∧ event = .released i := by
  cases v <;> cases event <;> simp_all [step]

theorem into_idle {v : Custody} {event : LifeEvent} (stepped : step v event = some .idle) :
    ∃ i, v = .resetting i ∧ event = .cleaned i := by
  cases v <;> cases event <;> simp_all [step]

theorem lent_idle {v w : Custody} {i : Nat} (stepped : step v (.lent i) = some w) : v = .idle := by
  cases v <;> simp_all [step]

theorem run_last {events : List LifeEvent} {v : Custody} (ran : run step .unopened events = some v)
    (opened : v ≠ .unopened) :
    ∃ before event u, events = before ++ [event] ∧ run step .unopened before = some u ∧ step u event = some v := by
  rcases List.eq_nil_or_concat events with rfl | ⟨before, event, rfl⟩
  · exact absurd (Option.some.inj ran).symm opened
  · rw [List.concat_eq_append, run_append] at ran
    obtain ⟨u, first, last⟩ := ran
    obtain ⟨w, stepped, same⟩ := run_cons.mp last
    obtain rfl := Option.some.inj same
    exact ⟨before, event, u, List.concat_eq_append .., first, stepped⟩

theorem lent_after_reset {events before after : List LifeEvent} {v : Custody} {j : Nat}
    (ran : run step .unopened events = some v) (split : events = before ++ .lent j :: after) :
    ∃ i prior, before = prior ++ [.released i, .cleaned i] := by
  rw [split, run_append] at ran
  obtain ⟨u, ran, rest⟩ := ran
  obtain ⟨w, lent, -⟩ := run_cons.mp rest
  obtain rfl := lent_idle lent
  obtain ⟨first, event, u, rfl, earlier, cleaned⟩ := run_last ran (by simp)
  obtain ⟨i, rfl, rfl⟩ := into_idle cleaned
  obtain ⟨prior, event, u, rfl, -, released⟩ := run_last earlier (by simp)
  obtain ⟨-, rfl⟩ := into_resetting released
  exact ⟨i, prior, by simp⟩

end Custody

def Task.custody (id i : Nat) : Task → Option Custody
  | .holding _ stream => if stream.id = id then some (.held i) else none
  | .resetting _ stream => if stream.id = id then some (.resetting i) else none
  | _ => none

theorem Task.custody_notify (id i : Nat) (task : Task) : task.notify.custody id i = task.custody id i := by
  cases task <;> rfl

theorem Task.owns_of_custody {id i : Nat} {task : Task} {v : Custody} (stands : task.custody id i = some v) :
    task.owns id = 1 := by
  cases task <;> simp_all [Task.custody, Task.owns, Task.stream?]

theorem Task.custody_weightless {task : Task} (weightless : task.Weightless) (id i : Nat) :
    task.custody id i = none := by
  cases task <;> simp_all [Task.Weightless, Task.custody]

namespace System

open PoolManager

def custodyAt (s : System) (id i : Nat) : Option Custody := (s.tasks[i]?).bind (Task.custody id i)

def Stands (s : System) (id : Nat) : Custody → Prop
  | .unopened => s.opened.length ≤ id
  | .held i => s.custodyAt id i = some (.held i)
  | .resetting i => s.custodyAt id i = some (.resetting i)
  | .idle => id ∈ s.idleIds
  | .closed => id < s.opened.length ∧ id ∉ s.idleIds ∧ ∀ i, s.custodyAt id i = none

def life (id : Nat) (s : System) (a : Action) (t : System) : List LifeEvent :=
  match a with
  | .connected _ (.error _) | .tick _ | .call _ | .expire _ => []
  | .connected i (.ok ()) => if s.opened.length = id then [.opened i] else []
  | .poll i =>
    if t.custodyAt id i = some (.held i) then [.lent i]
    else if id ∈ s.idleIds ∧ id ∉ t.idleIds then [.expired]
    else []
  | .release i => if s.custodyAt id i = some (.held i) then [.released i] else []
  | .reset i result =>
    if s.custodyAt id i = some (.resetting i) then
      match result with
      | .ok () => [.cleaned i]
      | .error _ => [.spoiled i]
    else []

theorem mem_idleIds {s : System} {id : Nat} :
    id ∈ s.idleIds ↔ ∃ key, ∃ conn ∈ (s.manager.pool key).idle, conn.stream.id = id := by
  rw [idleIds, List.mem_flatMap]
  constructor
  · rintro ⟨⟨key, pool⟩, member, waits⟩
    obtain ⟨conn, inside, is⟩ := List.mem_map.mp waits
    have found : s.manager.pools.lookup key = some pool := AList.mem_lookup_iff.mpr member
    exact ⟨key, conn, by rwa [pool_of_lookup found], is⟩
  · rintro ⟨key, conn, inside, is⟩
    cases found : s.manager.pools.lookup key with
    | none => simp [PoolManager.pool, found] at inside
    | some pool =>
      rw [pool_of_lookup found] at inside
      exact ⟨⟨key, pool⟩, AList.mem_lookup_iff.mp found, List.mem_map.mpr ⟨conn, inside, is⟩⟩

theorem custodyAt_some {s : System} {id i : Nat} {v : Custody} (stands : s.custodyAt id i = some v) :
    ∃ task, s.tasks[i]? = some task ∧ task.custody id i = some v :=
  Option.bind_eq_some_iff.mp stands

theorem Owned.held_apart {s : System} (owned : Owned s) {id i : Nat} {v : Custody} (stands : s.custodyAt id i = some v) :
    id < s.opened.length ∧ id ∉ s.idleIds ∧ ∀ j, j ≠ i → s.custodyAt id j = none := by
  obtain ⟨task, here, mine⟩ := custodyAt_some stands
  have once := owned.once id
  have least := Tally.le_overList (Task.owns id) here
  rw [Task.owns_of_custody mine] at least
  rw [owners, ← count_idleIds] at once
  refine ⟨?_, fun idle => ?_, fun j differs => ?_⟩
  · split at once <;> omega
  · have waits := List.count_pos_iff.mpr idle
    split at once <;> omega
  · by_contra there
    obtain ⟨w, stands⟩ := Option.ne_none_iff_exists'.mp there
    obtain ⟨other, there, theirs⟩ := custodyAt_some stands
    have both := Tally.add_le_overList (Task.owns id) differs here there
    rw [Task.owns_of_custody mine, Task.owns_of_custody theirs] at both
    split at once <;> omega

theorem Owned.idle_apart {s : System} (owned : Owned s) {id : Nat} (idle : id ∈ s.idleIds) :
    id < s.opened.length ∧ ∀ i, s.custodyAt id i = none := by
  have once := owned.once id
  have waits := List.count_pos_iff.mpr idle
  rw [owners, ← count_idleIds] at once
  refine ⟨?_, fun i => ?_⟩
  · split at once <;> omega
  · by_contra there
    obtain ⟨v, stands⟩ := Option.ne_none_iff_exists'.mp there
    exact (owned.held_apart stands).2.1 idle

theorem Owned.stands_held {s : System} (owned : Owned s) {id i : Nat} {v w : Custody}
    (stands : s.custodyAt id i = some v) (other : s.Stands id w) : w = v := by
  obtain ⟨known, waits, alone⟩ := owned.held_apart stands
  have same {j : Nat} (there : s.custodyAt id j = some w) : w = v := by
    by_cases differs : j = i
    · subst differs
      exact Option.some.inj (there.symm.trans stands)
    · rw [alone j differs] at there
      cases there
  cases w with
  | unopened => exact absurd known (Nat.not_lt.mpr other)
  | held j => exact same other
  | resetting j => exact same other
  | idle => exact absurd other waits
  | closed =>
    rw [other.2.2 i] at stands
    cases stands

theorem Owned.stands_idle {s : System} (owned : Owned s) {id : Nat} {w : Custody} (idle : id ∈ s.idleIds)
    (other : s.Stands id w) : w = .idle := by
  cases w with
  | unopened => exact absurd (owned.idle_apart idle).1 (Nat.not_lt.mpr other)
  | held j => exact absurd idle (owned.held_apart other).2.1
  | resetting j => exact absurd idle (owned.held_apart other).2.1
  | idle => rfl
  | closed => exact absurd idle other.2.1

theorem Owned.stands_unique {s : System} (owned : Owned s) {id : Nat} {u v : Custody} (one : s.Stands id u)
    (other : s.Stands id v) : u = v := by
  cases v with
  | held i => exact owned.stands_held other one
  | resetting i => exact owned.stands_held other one
  | idle => exact owned.stands_idle other one
  | unopened =>
    cases u with
    | held i => exact (owned.stands_held one other).symm
    | resetting i => exact (owned.stands_held one other).symm
    | idle => exact (owned.stands_idle one other).symm
    | unopened => rfl
    | closed => exact absurd one.1 (Nat.not_lt.mpr other)
  | closed =>
    cases u with
    | held i => exact (owned.stands_held one other).symm
    | resetting i => exact (owned.stands_held one other).symm
    | idle => exact (owned.stands_idle one other).symm
    | unopened => exact absurd other.1 (Nat.not_lt.mpr one)
    | closed => rfl

structure Unaffected (id : Nat) (s t : System) : Prop where
  opened : t.opened.length ≤ id ↔ s.opened.length ≤ id
  tasks : ∀ i, t.custodyAt id i = s.custodyAt id i
  idle : id ∈ t.idleIds ↔ id ∈ s.idleIds

theorem Unaffected.stands {id : Nat} {s t : System} (unaffected : Unaffected id s t) {v : Custody} (stands : s.Stands id v) :
    t.Stands id v := by
  cases v with
  | unopened => exact unaffected.opened.mpr stands
  | held i => exact (unaffected.tasks i).trans stands
  | resetting i => exact (unaffected.tasks i).trans stands
  | idle => exact unaffected.idle.mpr stands
  | closed =>
    obtain ⟨known, waits, alone⟩ := stands
    refine ⟨?_, fun idle => waits (unaffected.idle.mp idle), fun i => (unaffected.tasks i).trans (alone i)⟩
    exact Nat.not_le.mp fun unknown => absurd known (Nat.not_lt.mpr (unaffected.opened.mp unknown))

theorem Unaffected.trans {id : Nat} {s t u : System} (first : Unaffected id s t) (second : Unaffected id t u) :
    Unaffected id s u :=
  ⟨second.opened.trans first.opened, fun i => (second.tasks i).trans (first.tasks i), second.idle.trans first.idle⟩

theorem custodyAt_set {s t : System} {i : Nat} {old new : Task} (here : s.tasks[i]? = some old)
    (set : t.tasks = s.tasks.set i new) (id j : Nat) :
    t.custodyAt id j = if j = i then new.custody id i else s.custodyAt id j := by
  rw [custodyAt, set]
  split
  · rename_i same
    subst same
    rw [List.getElem?_set_self (List.getElem?_eq_some_iff.mp here).1]
    rfl
  · rename_i differs
    rw [List.getElem?_set_ne (Ne.symm differs)]
    rfl

theorem custodyAt_notifyOne (s : System) (key : PoolKey) (id i : Nat) :
    (s.notifyOne key).custodyAt id i = s.custodyAt id i := by
  rw [custodyAt, notifyOne]
  split
  · rename_i j rest queue
    simp only [List.getElem?_modify]
    rw [custodyAt]
    cases s.tasks[i]? with
    | none => rfl
    | some task =>
      simp only [Option.map_eq_map, Option.map_some, Option.bind_some]
      split
      · exact Task.custody_notify id i task
      · rfl
  · rfl

theorem idleIds_congr {s t : System} (same : ∀ key, (t.manager.pool key).idle = (s.manager.pool key).idle) (id : Nat) :
    id ∈ t.idleIds ↔ id ∈ s.idleIds := by
  simp only [mem_idleIds, same]

theorem unaffected_notifyOne (id : Nat) (s : System) (key : PoolKey) : Unaffected id s (s.notifyOne key) :=
  ⟨by rw [notifyOne_opened], custodyAt_notifyOne s key id, idleIds_congr (notifyOne_idle s key) id⟩

inductive Lived (id : Nat) (s t : System) : List LifeEvent → Prop
  | aside (unaffected : Unaffected id s t) : Lived id s t []
  | event (u w : Custody) (event : LifeEvent) (before : s.Stands id u) (stepped : Custody.step u event = some w)
      (after : t.Stands id w) : Lived id s t [event]

theorem Lived.then {id : Nat} {s t u : System} {events : List LifeEvent} (lived : Lived id s t events)
    (unaffected : Unaffected id t u) : Lived id s u events := by
  cases lived with
  | aside before => exact .aside (before.trans unaffected)
  | event v w event before stepped after => exact .event v w event before stepped (unaffected.stands after)

theorem custodyAt_here {s : System} {i : Nat} {task : Task} (here : s.tasks[i]? = some task) (id : Nat) :
    s.custodyAt id i = task.custody id i := by
  rw [custodyAt, here, Option.bind_some]

theorem polled_custody {cfg : PoolConfig} {now : Instant} {call : AcquireCall} {m after : PoolManager} {new : Task}
    (polled : Polled cfg now call m after new) (id i : Nat) :
    new.custody id i = some (.held i) ∨ new.custody id i = none := by
  cases polled with
  | reuse conn rest n fresh dropped =>
    by_cases mine : conn.stream.id = id
    · exact .inl (if_pos mine)
    · exact .inr (if_neg mine)
  | start _ empty room alike => exact .inr rfl
  | wait _ _ empty full alike away => exact .inr (Task.custody_weightless away.weightless id i)

theorem poll_lived {cfg : PoolConfig} {s t : System} {i : Nat} (owned : Owned s) (stepped : step cfg s (.poll i) = some t)
    (id : Nat) : Lived id s t (life id s (.poll i) t) := by
  obtain ⟨old, call, before, new, here, asks, weightless, -, polled, opened, set⟩ := poll_polled stepped
  have custody := custodyAt_set here set id
  have fewer (waits : id ∈ t.idleIds) : id ∈ s.idleIds := by
    obtain ⟨key, conn, inside, is⟩ := mem_idleIds.mp waits
    obtain ⟨n, idle, -⟩ := idle_step stepped key
    have none : s.pushed key (.poll i) = [] := rfl
    rw [idle, none, List.append_nil] at inside
    exact mem_idleIds.mpr ⟨key, conn, List.mem_of_mem_drop inside, is⟩
  have ends : t.custodyAt id i = some (.held i) ∨ t.custodyAt id i = none := by
    rw [custody i, if_pos rfl]
    exact polled_custody polled id i
  rw [life]
  split_ifs with lent gone
  · refine .event .idle (.held i) _ ?_ rfl lent
    obtain ⟨task, there, mine⟩ := custodyAt_some lent
    obtain ⟨-, queue⟩ := poll_queue asks stepped
    cases fresh : (s.manager.pool call.key).idle.dropWhile (expired cfg s.now) with
    | nil =>
      simp only [fresh] at queue
      cases task with
      | holding other stream => exact absurd there (queue.2 other stream)
      | resetting other stream => simp [Task.custody] at mine
      | _ => cases mine
    | cons conn rest =>
      simp only [fresh] at queue
      obtain rfl := Option.some.inj (there.symm.trans queue.2)
      have inside : conn ∈ (s.manager.pool call.key).idle :=
        (List.dropWhile_suffix _).subset (fresh ▸ List.mem_cons_self ..)
      refine mem_idleIds.mpr ⟨call.key, conn, inside, ?_⟩
      by_contra other
      simp [Task.custody, other] at mine
  · obtain ⟨known, alone⟩ := owned.idle_apart gone.1
    refine .event .idle .closed _ gone.1 rfl ⟨by rwa [opened], gone.2, fun j => ?_⟩
    by_cases same : j = i
    · subst same
      exact ends.resolve_left lent
    · rw [custody j, if_neg same]
      exact alone j
  · refine .aside ⟨by rw [opened], fun j => ?_, fewer, fun waits => ?_⟩
    · by_cases same : j = i
      · subst same
        rw [ends.resolve_left lent, custodyAt_here here, Task.custody_weightless weightless]
      · rw [custody j, if_neg same]
    · by_contra lost
      exact gone ⟨waits, lost⟩

theorem unaffected_set {s t : System} {i : Nat} {old new : Task} (here : s.tasks[i]? = some old)
    (set : ∀ id j, t.custodyAt id j = if j = i then new.custody id i else s.custodyAt id j) {id : Nat}
    (was : old.custody id i = none) (is : new.custody id i = none) (opened : t.opened = s.opened)
    (idle : id ∈ t.idleIds ↔ id ∈ s.idleIds) : Unaffected id s t := by
  refine ⟨by rw [opened], fun j => ?_, idle⟩
  rw [set id j]
  split
  · rename_i same
    rw [same, is, custodyAt_here here, was]
  · rfl

theorem release_lived {cfg : PoolConfig} {s t : System} {i : Nat} (balanced : Balanced s)
    (stepped : step cfg s (.release i) = some t) (id : Nat) : Lived id s t (life id s (.release i) t) := by
  cases step_steps stepped with
  | release _ call stream pool here present =>
    have idle := idleIds_congr (s := s) (t := { s with
      manager := s.manager.setPool call.key { pool with activeCount := pool.activeCount.fetchSub }
      tasks := s.tasks.set i (.resetting call stream) }) (fun key => by
        rw [pool_setPool_apply]
        split
        · rename_i same
          rw [same, pool_of_lookup present]
        · rfl) id
    rw [life, custodyAt_here here]
    by_cases mine : stream.id = id
    · have holds : (Task.holding call stream).custody id i = some (.held i) := if_pos mine
      rw [if_pos holds]
      refine .event (.held i) (.resetting i) _ ((custodyAt_here here id).trans holds) (if_pos rfl) ?_
      rw [Stands, custodyAt_set here rfl, if_pos rfl]
      exact if_pos mine
    · have other : (Task.holding call stream).custody id i = none := if_neg mine
      have after : (Task.resetting call stream).custody id i = none := if_neg mine
      rw [if_neg (by simp [other])]
      exact .aside (unaffected_set here (custodyAt_set here rfl) other after rfl idle)
  | lost _ call stream here gone =>
    have present := balanced.present call.key (held_pos here)
    rw [gone] at present
    cases present

theorem reset_lived {cfg : PoolConfig} {s t : System} {i : Nat} {result : Except String Unit} (owned : Owned s)
    (stepped : step cfg s (.reset i result) = some t) (id : Nat) :
    Lived id s t (life id s (.reset i result) t) := by
  have mine {call : AcquireCall} {stream : TcpStream} (here : s.tasks[i]? = some (.resetting call stream)) :
      s.custodyAt id i = if stream.id = id then some (.resetting i) else none := custodyAt_here here id
  cases step_steps stepped with
  | push _ call stream here =>
    refine Lived.then ?_ (unaffected_notifyOne id _ call.key)
    rw [life, mine here]
    by_cases at_id : stream.id = id
    · rw [if_pos at_id, if_pos rfl]
      refine .event (.resetting i) .idle _ ((mine here).trans (if_pos at_id)) (if_pos rfl) ?_
      refine mem_idleIds.mpr ⟨call.key, ⟨stream, s.now, s.now⟩, ?_, at_id⟩
      rw [pushIdle_idle, if_pos rfl]
      exact List.mem_append_right _ (List.mem_singleton_self _)
    · rw [if_neg at_id, if_neg (by simp)]
      refine .aside (unaffected_set here (custodyAt_set here rfl) (if_neg at_id) rfl rfl ?_)
      simp only [mem_idleIds, pushIdle_idle]
      refine exists_congr fun key => ⟨?_, fun ⟨conn, inside, is⟩ => ⟨conn, List.mem_append_left _ inside, is⟩⟩
      rintro ⟨conn, inside, is⟩
      rcases List.mem_append.mp inside with inside | inside
      · exact ⟨conn, inside, is⟩
      · split at inside
        · rw [List.mem_singleton.mp inside] at is
          exact absurd is at_id
        · cases inside
  | drop _ call stream cause here =>
    have custody := custodyAt_set (t := { s with
      manager := s.manager.forget
      tasks := s.tasks.set i (.released call) }) here rfl id
    have idle := idleIds_congr (s := s) (t := { s with
      manager := s.manager.forget
      tasks := s.tasks.set i (.released call) }) (fun _ => rfl) id
    rw [life, mine here]
    by_cases at_id : stream.id = id
    · have stands := (mine here).trans (if_pos at_id)
      obtain ⟨known, waits, alone⟩ := owned.held_apart stands
      rw [if_pos at_id, if_pos rfl]
      refine .event (.resetting i) .closed _ stands (if_pos rfl) ⟨known, fun there => waits (idle.mp there), fun j => ?_⟩
      rw [custody j]
      split
      · rfl
      · rename_i differs
        exact alone j differs
    · rw [if_neg at_id, if_neg (by simp)]
      exact .aside (unaffected_set here (custodyAt_set here rfl) (if_neg at_id) rfl rfl idle)

theorem step_lived {cfg : PoolConfig} {s t : System} {a : Action} (owned : Owned s) (balanced : Balanced s)
    (stepped : step cfg s a = some t) (id : Nat) : Lived id s t (life id s a t) := by
  cases step_steps stepped with
  | begin i | wake i => exact poll_lived owned stepped id
  | release i | lost i => exact release_lived balanced stepped id
  | push i | drop i => exact reset_lived owned stepped id
  | tick elapsed => exact .aside ⟨Iff.rfl, fun _ => rfl, Iff.rfl⟩
  | call call =>
    refine .aside ⟨Iff.rfl, fun j => ?_, Iff.rfl⟩
    rw [custodyAt, custodyAt]
    rcases Nat.lt_trichotomy j s.tasks.length with less | rfl | more
    · rw [List.getElem?_append_left less]
    · simp [Task.custody]
    · have beyond : (s.tasks ++ [Task.called call])[j]? = none := by simp; omega
      have none : s.tasks[j]? = none := by simp; omega
      rw [beyond, none]
  | expire i call deadline notified here late =>
    have leaves : Unaffected id s (s.leaving i call) :=
      unaffected_set here (custodyAt_set here rfl) rfl rfl rfl (idleIds_congr (leaving_idle s i call) id)
    rw [timeOut_eq]
    split
    · exact .aside (leaves.trans (unaffected_notifyOne id _ call.key))
    · exact .aside leaves
  | connected i call here =>
    have custody := custodyAt_set (t := { s with
      manager := s.manager.connected call.key
      tasks := s.tasks.set i (.holding call ⟨s.opened.length, call.key, call.password, call.extraParams⟩)
      opened := s.opened ++ [⟨s.opened.length, call.key, call.password, call.extraParams⟩] }) here rfl id
    rw [life]
    split
    · rename_i fresh
      refine .event .unopened (.held i) _ fresh.le rfl ?_
      rw [Stands, custody i, if_pos rfl]
      exact if_pos fresh
    · rename_i known
      refine .aside ⟨?_, fun j => ?_, idleIds_congr (fun key => ?_) id⟩
      · simp only [List.length_append, List.length_singleton]
        omega
      · rw [custody j]
        split
        · rename_i same
          rw [same, custodyAt_here here]
          exact if_neg known
        · rfl
      · rw [connected_pool]
        split
        · rename_i same
          rw [same]
        · rfl
  | panicked i call here => exact .aside (unaffected_set here (custodyAt_set here rfl) rfl rfl rfl (idleIds_congr (fun _ => rfl) id))
  | refused i call cause here =>
    have same := alike_setPool s.manager call.key { s.manager.pool call.key with
      totalErrors := (s.manager.pool call.key).totalErrors + 1 } rfl rfl
    exact .aside (unaffected_set here (custodyAt_set here rfl) rfl rfl rfl (idleIds_congr same.idle id))

structure Follows (id : Nat) (s : System) (v : Custody) : Prop where
  owned : Owned s
  balanced : Balanced s
  stands : s.Stands id v

theorem step_follows {cfg : PoolConfig} (id : Nat) (s : System) (a : Action) (t : System) (v : Custody)
    (follows : Follows id s v) (stepped : step cfg s a = some t) :
    ∃ w, run Custody.step v (life id s a t) = some w ∧ Follows id t w := by
  obtain ⟨owned, balanced, stands⟩ := follows
  have owned' := step_invariant owned_move owned_start _ _ _ _ owned stepped
  have balanced' := step_invariant balanced_move balanced_start _ _ _ _ balanced stepped
  have lived := step_lived owned balanced stepped id
  generalize life id s a t = events at lived ⊢
  cases lived with
  | aside unaffected => exact ⟨v, rfl, owned', balanced', unaffected.stands stands⟩
  | event u w event before moved after =>
    obtain rfl := owned.stands_unique stands before
    exact ⟨w, run_cons.mpr ⟨w, moved, rfl⟩, owned', balanced', after⟩

/-- Every run of the pools, seen from one connection, is a run of its life, and whenever it is lent to a caller,
the last two things that happened to it are that its last holder released it and that this reset succeeded. -/
theorem custody_refines (cfg : PoolConfig) (id : Nat) (actions : List Action) :
    Always (recorded (step cfg) (life id)) (fun r =>
      (∃ v, run Custody.step .unopened r.events = some v ∧ r.state.Stands id v) ∧
        ∀ before j after, r.events = before ++ .lent j :: after →
          ∃ i prior, before = prior ++ [.released i, .cleaned i]) ⟨{}, []⟩ actions := by
  have start : Follows id {} .unopened := ⟨owned_initial, balanced_initial, Nat.zero_le id⟩
  refine (recorded_simulates (step_follows id) start actions).mono ?_
  rintro r ⟨v, ran, follows⟩
  exact ⟨⟨v, ran, follows.stands⟩, fun before j after split => Custody.lent_after_reset ran split⟩

-- The second caller is lent what the first one has opened; its reset fails.
example : (run (recorded (step {}) (life 0)) ⟨{}, []⟩ [.call (tenant "testdb"), .poll 0, .connected 0 (.ok ()),
      .release 0, .reset 0 (.ok ()), .call (tenant "testdb"), .poll 1, .release 1, .reset 1 (.error "")]).map
        Recorded.events =
      some [.opened 0, .released 0, .cleaned 0, .lent 1, .released 1, .spoiled 1] := by decide

end System

end PgMux
