import PgMux.Pool.FailedAcquire
import PgMux.Pool.Ownership

set_option autoImplicit false

namespace PgMux

def AcquireCall.opens (call : AcquireCall) (id : Nat) : TcpStream :=
  ⟨id, call.key, call.password, call.extraParams⟩

def Task.caller : Task → AcquireCall
  | .called call | .waiting call _ _ | .connecting call | .holding call _ | .resetting call _ | .failed call _
  | .released call | .panicked call => call

namespace System

open PoolManager

theorem caller_notify (task : Task) : task.notify.caller = task.caller := by
  cases task <;> rfl

theorem acquireLoop_caller (cfg : PoolConfig) (now : Instant) (i : Nat) (call : AcquireCall) (deadline : Instant)
    (fuel : Nat) (m : PoolManager) : (acquireLoop cfg now i call deadline fuel m).2.caller = call := by
  induction fuel generalizing m with
  | zero => rfl
  | succ fuel ih =>
    simp only [acquireLoop]
    split
    · rfl
    · rfl
    · rfl
    · split
      · exact ih _
      · rfl

theorem callers_set {tasks : List Task} {i : Nat} {old new : Task} (here : tasks[i]? = some old)
    (same : new.caller = old.caller) : (tasks.set i new).map Task.caller = tasks.map Task.caller := by
  obtain ⟨bound, rfl⟩ := List.getElem?_eq_some_iff.mp here
  rw [List.map_set, same, ← List.getElem_map Task.caller (h := by simpa using bound), List.set_getElem_self]

theorem callers_notifyOne (s : System) (key : PoolKey) :
    (s.notifyOne key).tasks.map Task.caller = s.tasks.map Task.caller := by
  rw [notifyOne]
  split
  · apply List.ext_getElem?
    intro j
    simp only [List.getElem?_map, List.getElem?_modify]
    cases s.tasks[j]? with
    | none => rfl
    | some task =>
      simp only [Option.map_eq_map, Option.map_some]
      split
      · rw [caller_notify]
      · rfl
  · rfl

def newCallers : Action → List AcquireCall
  | .call call => [call]
  | .tick _ | .poll _ | .expire _ | .connected _ _ | .release _ | .reset _ _ => []

theorem step_callers {cfg : PoolConfig} {s t : System} {a : Action} (stepped : step cfg s a = some t) :
    t.tasks.map Task.caller = s.tasks.map Task.caller ++ newCallers a := by
  have same {tasks : List Task} {i : Nat} {old new : Task} (here : tasks[i]? = some old)
      (same : new.caller = old.caller) : (tasks.set i new).map Task.caller = tasks.map Task.caller ++ [] :=
    (callers_set here same).trans (List.append_nil _).symm
  cases step_steps stepped with
  | tick elapsed => exact (List.append_nil _).symm
  | call call => exact List.map_append
  | begin i call here | wake i call deadline here =>
    rw [resume_tasks]
    exact same here (acquireLoop_caller ..)
  | expire i call deadline notified here late =>
    rw [timeOut_eq]
    split
    · rw [callers_notifyOne]
      exact same here rfl
    · exact same here rfl
  | push i call stream here =>
    rw [callers_notifyOne]
    exact same here rfl
  | connected i call here => exact same here rfl
  | refused i call error here => exact same here rfl
  | panicked i call here => exact same here rfl
  | release i call stream pool here present => exact same here rfl
  | lost i call stream here gone => exact same here rfl
  | drop i call stream cause here => exact same here rfl

def callsOf (actions : List Action) : List AcquireCall := actions.flatMap newCallers

theorem step_opened {cfg : PoolConfig} {s t : System} {a : Action} (stepped : step cfg s a = some t) :
    t.opened = s.opened ∨ ∃ task ∈ s.tasks, t.opened = s.opened ++ [task.caller.opens s.opened.length] := by
  cases step_steps stepped with
  | connected i call here => exact .inr ⟨_, List.mem_of_getElem? here, rfl⟩
  | expire i call deadline notified here late =>
    left
    rw [timeOut_eq]
    split
    · exact notifyOne_opened _ _
    · rfl
  | push i call stream here => exact .inl (notifyOne_opened _ _)
  | _ => exact .inl rfl

structure Made (calls : List AcquireCall) (s : System) : Prop where
  callers : ∀ call ∈ s.tasks.map Task.caller, call ∈ calls
  opened : ∀ stream ∈ s.opened, ∃ call ∈ calls, stream = call.opens stream.id

theorem step_made {cfg : PoolConfig} {calls : List AcquireCall} (s : System) (a : Action) (t : System)
    (made : s.Made calls) (among : ∀ call ∈ newCallers a, call ∈ calls) (stepped : step cfg s a = some t) :
    t.Made calls := by
  constructor
  · rw [step_callers stepped]
    intro call member
    rcases List.mem_append.mp member with old | new
    · exact made.callers call old
    · exact among call new
  · rcases step_opened stepped with same | ⟨task, member, same⟩
    · rw [same]
      exact made.opened
    · rw [same]
      intro stream inside
      rcases List.mem_append.mp inside with old | new
      · exact made.opened stream old
      · obtain rfl := List.mem_singleton.mp new
        exact ⟨task.caller, made.callers _ (List.mem_map_of_mem member), rfl⟩

theorem always_made (cfg : PoolConfig) (actions : List Action) :
    Transition.Always (step cfg) (Made (callsOf actions)) {} actions := by
  refine Transition.always_of_along step_made (Transition.along_of_forall ?_ _) ⟨nofun, nofun⟩
  intro a inside s call member
  exact List.mem_flatMap_of_mem inside member

def Matched (fits : AcquireCall → TcpStream → Prop) (s : System) : Prop :=
  ∀ (i : Nat) (call : AcquireCall) (stream : TcpStream), s.tasks[i]? = some (.holding call stream) →
    stream ∈ s.opened ∧ stream.key = call.key ∧ fits call stream

/-- The connection opened for one of the calls would do for each other call with the same key. -/
def Agree (fits : AcquireCall → TcpStream → Prop) (calls : List AcquireCall) : Prop :=
  ∀ call ∈ calls, ∀ other ∈ calls, other.key = call.key → ∀ id, fits call (other.opens id)

theorem Made.matched {fits : AcquireCall → TcpStream → Prop} {calls : List AcquireCall} {s : System}
    (made : s.Made calls) (owned : Owned s) (agree : Agree fits calls) : s.Matched fits := by
  intro i call stream here
  obtain ⟨known, key⟩ := owned.here here
  have caller : call ∈ calls := made.callers call (List.mem_map_of_mem (List.mem_of_getElem? here))
  obtain ⟨other, asked, same⟩ := made.opened stream known
  refine ⟨known, key, ?_⟩
  rw [same] at key ⊢
  exact agree call caller other asked key stream.id

theorem run_calls (cfg : PoolConfig) (s : System) (calls : List AcquireCall) :
    Transition.run (step cfg) s (calls.map .call) = some { s with tasks := s.tasks ++ calls.map .called } := by
  induction calls generalizing s with
  | nil => simp
  | cons call rest ih =>
    rw [List.map_cons, Transition.run_cons]
    exact ⟨_, rfl, by simpa using ih { s with tasks := s.tasks ++ [.called call] }⟩

theorem callsOf_map (calls : List AcquireCall) : callsOf (calls.map .call) = calls := by
  simp [callsOf, List.flatMap_map, newCallers]

theorem opens_first (cfg : PoolConfig) {calls : List AcquireCall} {j : Nat} {other : AcquireCall}
    (giver : calls[j]? = some other) (room : 0 < cfg.maxTotalConnections) (roomFor : 0 < cfg.maxConnectionsPerPool) :
    ∃ t, Transition.run (step cfg) {} (calls.map .call ++ [.poll j, .connected j (.ok ())]) = some t ∧
      t.now = 0 ∧ t.tasks = (calls.map Task.called).set j (.holding other (other.opens 0)) ∧
      (t.manager.pool other.key).idle = [] := by
  let asked : System := { tasks := calls.map .called }
  have here : asked.tasks[j]? = some (.called other) := by simp [asked, giver]
  have bound : j < calls.length := (List.getElem?_eq_some_iff.mp giver).1
  obtain ⟨m, started, alike⟩ := poll_starts cfg here rfl ⟨room, by simpa [asked, PoolManager.pool] using roomFor⟩
  refine ⟨{ asked with
    manager := m.connected other.key
    tasks := (calls.map Task.called).set j (.holding other (other.opens 0))
    opened := [other.opens 0] }, ?_, rfl, rfl, ?_⟩
  · refine Transition.run_append.mpr ⟨asked, run_calls cfg {} calls, ?_⟩
    refine Transition.run_cons.mpr ⟨_, started, Transition.run_cons.mpr ⟨_, ?_, rfl⟩⟩
    simp [step, asked, bound, AcquireCall.opens]
  · rw [connected_pool, if_pos rfl]
    exact alike.idle other.key

theorem gives_back (cfg : PoolConfig) {s : System} {i j : Nat} {call other : AcquireCall} {stream : TcpStream}
    (here : s.tasks[j]? = some (.holding other stream)) (waits : s.tasks[i]? = some (.called call)) (apart : j ≠ i)
    (present : (s.manager.pools.lookup other.key).isSome) (empty : (s.manager.pool other.key).idle = []) :
    ∃ t, Transition.run (step cfg) s [.release j, .reset j (.ok ())] = some t ∧ t.now = s.now ∧
      t.tasks[i]? = some (.called call) ∧ (t.manager.pool other.key).idle = [⟨stream, s.now, s.now⟩] := by
  obtain ⟨pool, found⟩ := Option.isSome_iff_exists.mp present
  have same := pool_of_lookup found
  have bound : j < s.tasks.length := (List.getElem?_eq_some_iff.mp here).1
  let resetting : System := { s with
    manager := s.manager.setPool other.key { pool with activeCount := pool.activeCount.fetchSub }
    tasks := s.tasks.set j (.resetting other stream) }
  let released : System := { resetting with
    manager := resetting.manager.pushIdle other.key stream s.now
    tasks := resetting.tasks.set j (.released other) }
  have begins : step cfg s (.release j) = some resetting := by simp [step, here, beginRelease, found, resetting]
  have ends : step cfg resetting (.reset j (.ok ())) = some (released.notifyOne other.key) := by
    simp [step, resetting, released, bound]
  refine ⟨released.notifyOne other.key, ?_, notifyOne_now _ _, ?_, ?_⟩
  · exact Transition.run_cons.mpr ⟨_, begins, Transition.run_cons.mpr ⟨_, ends, rfl⟩⟩
  · have still : released.tasks[i]? = some (.called call) := by simp [released, resetting, apart, waits]
    rw [notifyOne]
    split
    · simp only [List.getElem?_modify, still, Option.map_eq_map, Option.map_some]
      split <;> rfl
    · exact still
  · rw [(alike_notifyOne released other.key).idle]
    simp [released, resetting, pushIdle, ← same, empty]

theorem hands_over (cfg : PoolConfig) {calls : List AcquireCall} {i j : Nat} {call other : AcquireCall}
    (taker : calls[i]? = some call) (giver : calls[j]? = some other) (apart : j ≠ i) (same : other.key = call.key)
    (room : 0 < cfg.maxTotalConnections) (roomFor : 0 < cfg.maxConnectionsPerPool) :
    ∃ actions t, callsOf actions = calls ∧ Transition.run (step cfg) {} actions = some t ∧
      t.tasks[i]? = some (.holding call (other.opens 0)) := by
  obtain ⟨s, opened, start, tasks, empty⟩ := opens_first cfg giver room roomFor
  have holds : s.tasks[j]? = some (.holding other (other.opens 0)) := by
    rw [tasks, List.getElem?_set_self (by simpa using (List.getElem?_eq_some_iff.mp giver).1)]
  have waits : s.tasks[i]? = some (.called call) := by simp [tasks, apart, taker]
  have present := (reachable_balanced ⟨_, opened⟩).present other.key (held_pos holds)
  obtain ⟨t, returned, now, waits, idle⟩ := gives_back cfg holds waits apart present empty
  have asks : t.asking i = some call := by simp [asking, waits, Task.asking]
  have next : t.nextIdle cfg call.key = some ⟨other.opens 0, s.now, s.now⟩ := by
    simp [nextIdle, ← same, idle, expired, now]
  obtain ⟨u, polled⟩ := Option.ne_none_iff_exists'.mp (poll_enabled cfg asks)
  obtain ⟨old, caller, new, there, asked, -, tasks, taken, -⟩ := poll_task polled
  obtain rfl := Option.some.inj (asks.symm.trans asked)
  refine ⟨_, u, ?_, Transition.run_append.mpr ⟨t, Transition.run_append.mpr ⟨s, opened, returned⟩,
    Transition.run_cons.mpr ⟨u, polled, Transition.run_nil u⟩⟩, ?_⟩
  · have made := callsOf_map calls
    rw [callsOf] at made ⊢
    simp [made, newCallers]
  · rw [tasks, List.getElem?_set_self (List.getElem?_eq_some_iff.mp there).1, taken _ next]

theorem unserved_of_noRoom {cfg : PoolConfig} (full : cfg.maxTotalConnections = 0 ∨ cfg.maxConnectionsPerPool = 0)
    (actions : List Action) :
    Transition.Always (step cfg) (fun s => Balanced s ∧ s.load = 0) {} actions := by
  refine Transition.always ?_ actions ⟨balanced_initial, rfl⟩
  intro s a t ⟨balanced, unloaded⟩ stepped
  refine ⟨step_invariant balanced_move balanced_start cfg s a t balanced stepped, ?_⟩
  by_cases polls : ∃ i, a = .poll i
  · obtain ⟨i, rfl⟩ := polls
    obtain ⟨call, -, ⟨-, less, -⟩ | ⟨⟨-, room, roomFor⟩, -⟩⟩ := poll_load balanced stepped
    · omega
    · omega
  · have less := (step_load balanced stepped fun i is => polls ⟨i, is⟩).1
    omega

theorem Balanced.none_held {s : System} (balanced : Balanced s) (unloaded : s.load = 0) {i : Nat} {call : AcquireCall}
    {stream : TcpStream} : s.tasks[i]? ≠ some (.holding call stream) := by
  intro here
  have one := held_pos here
  have part := le_overTable_pool poolSize (fun _ => rfl) s.manager call.key
  simp only [load, balanced.total, pooled] at unloaded
  simp only [poolSize, balanced.active] at part
  omega

theorem always_matched {fits : AcquireCall → TcpStream → Prop} {cfg : PoolConfig} {actions : List Action}
    (agree : Agree fits (callsOf actions)) : Transition.Always (step cfg) (Matched fits) {} actions := by
  have owned := Transition.always (step_invariant owned_move owned_start cfg) actions owned_initial
  exact ((always_made cfg actions).and owned).mono fun s both => both.1.matched both.2 agree

/-- Whatever the order of the steps, callers get connections that stand in the relation to their calls: this is so
exactly when calls for one key agree with each other, or nobody can get a connection. -/
theorem matched_iff {fits : AcquireCall → TcpStream → Prop} (own : ∀ call id, fits call (call.opens id))
    (blind : ∀ call other id, fits call (AcquireCall.opens other 0) → fits call (other.opens id)) (cfg : PoolConfig)
    (calls : List AcquireCall) :
    (∀ actions, callsOf actions = calls → Transition.Always (step cfg) (Matched fits) {} actions) ↔
      Agree fits calls ∨ cfg.maxTotalConnections = 0 ∨ cfg.maxConnectionsPerPool = 0 := by
  constructor
  · intro matched
    by_contra! ⟨differ, room, roomFor⟩
    simp only [Agree, not_forall] at differ
    obtain ⟨call, member, other, inside, same, id, unfit⟩ := differ
    obtain ⟨i, taker⟩ := List.mem_iff_getElem?.mp member
    obtain ⟨j, giver⟩ := List.mem_iff_getElem?.mp inside
    have apart : j ≠ i := by
      rintro rfl
      obtain rfl := Option.some.inj (giver.symm.trans taker)
      exact unfit (own _ id)
    obtain ⟨actions, t, called, ran, holds⟩ := hands_over cfg taker giver apart same (Nat.pos_of_ne_zero room)
      (Nat.pos_of_ne_zero roomFor)
    exact unfit (blind call other id ((matched actions called).last ran i call _ holds).2.2)
  · rintro (agree | full) actions rfl
    · exact always_matched agree
    · refine (unserved_of_noRoom full actions).mono fun s held i call stream here => ?_
      exact absurd here (held.1.none_held held.2)

end System

end PgMux
