import Mathlib.Data.List.TakeWhile
import PgMux.Pool.Wakeups

set_option autoImplicit false

namespace PgMux

-- The call of a caller that has no connection in hand and never had one.
def Task.unserved : Task → Option AcquireCall
  | .called call | .waiting call _ _ | .connecting call | .failed call _ => some call
  | _ => none

-- The call of a caller whose `acquire` has begun.
def Task.begun : Task → Option AcquireCall
  | .called _ => none
  | .waiting call _ _ | .connecting call | .holding call _ | .resetting call _ | .failed call _
  | .released call | .panicked call => some call

theorem Task.unserved_notify (task : Task) : task.notify.unserved = task.unserved := by
  cases task <;> rfl

theorem Task.begun_notify (task : Task) : task.notify.begun = task.begun := by
  cases task <;> rfl

theorem Task.unserved_eq {task : Task} {call other : AcquireCall} (begun : task.begun = some call)
    (unserved : task.unserved = some other) : call = other := by
  cases task with
  | called call => cases begun
  | holding call stream | resetting call stream | released call | panicked call => cases unserved
  | waiting call deadline notified | connecting call | failed call error =>
    exact Option.some.inj (begun.symm.trans unserved)

namespace PoolManager

def has (m : PoolManager) (key : PoolKey) : Bool := (m.pools.lookup key).isSome

def Adds (key : PoolKey) (m n : PoolManager) : Prop :=
  ∀ other, n.has other = (m.has other || decide (other = key))

theorem Adds.of_pools {key : PoolKey} {m n : PoolManager} (pool : Pool)
    (pools : n.pools = (m.setPool key pool).pools) : Adds key m n := by
  intro other
  by_cases same : other = key
  · subst same
    simp [has, pools, setPool]
  · simp [has, pools, setPool, AList.lookup_insert_ne same, same]

theorem Adds.trans {key : PoolKey} {m n o : PoolManager} (first : Adds key m n) (second : Adds key n o) :
    Adds key m o := by
  intro other
  rw [second other, first other, Bool.or_assoc, Bool.or_self]

theorem adds_entry (m : PoolManager) (key : PoolKey) : Adds key m (m.entry key) := by
  rw [entry]
  split
  · rename_i pool present
    intro other
    by_cases same : other = key
    · subst same
      simp [has, present]
    · simp [same]
  · exact .of_pools {} rfl

theorem adds_evict (m : PoolManager) (key : PoolKey) (n : Nat) : Adds key m (m.evict key n) :=
  .of_pools { m.pool key with idle := (m.pool key).idle.drop n } (by simp [evict, setPool])

theorem adds_bail (m : PoolManager) (key : PoolKey) (error : AcquireError) : Adds key m (m.bail key error).1 :=
  .of_pools { m.pool key with totalErrors := (m.pool key).totalErrors + 1 } rfl

theorem adds_checkCapacity {key : PoolKey} {m n : PoolManager} (adds : Adds key m n) (cfg : PoolConfig)
    (now deadline : Instant) : Adds key m (checkCapacity cfg now key deadline n).1 := by
  simp only [checkCapacity]
  split_ifs
  · exact adds.trans (adds_bail n key .globalLimit)
  · exact adds
  · exact adds.trans (adds_bail n key .perPoolLimit)
  · exact adds
  · exact adds

theorem adds_attempt (cfg : PoolConfig) (now : Instant) (key : PoolKey) (deadline : Instant) (m : PoolManager) :
    Adds key m (attempt cfg now key deadline m).1 := by
  have evicted := adds_evict m key ((m.pool key).idle.takeWhile (expired cfg now)).length
  rw [attempt_eq]
  dsimp only
  split
  · exact evicted.trans (.of_pools _ rfl)
  · exact adds_checkCapacity evicted cfg now deadline

end PoolManager

namespace System

open PoolManager

theorem adds_acquireLoop (cfg : PoolConfig) (now : Instant) (i : Nat) (call : AcquireCall) (deadline : Instant)
    (fuel : Nat) (m : PoolManager) : Adds call.key m (acquireLoop cfg now i call deadline fuel m).1 := by
  induction fuel generalizing m with
  | zero => exact .of_pools _ rfl
  | succ fuel ih =>
    have passed := adds_attempt cfg now call.key deadline m
    simp only [acquireLoop]
    cases pass : attempt cfg now call.key deadline m with
    | mk after result =>
      rw [pass] at passed
      cases result with
      | reuse stream | connect | bail error => exact passed
      | wait =>
        dsimp only
        split
        · exact (passed.trans (.of_pools _ rfl)).trans (ih _)
        · exact passed.trans (.of_pools _ rfl)

theorem adds_notifyOne (s : System) (key : PoolKey) : Adds key s.manager (s.notifyOne key).manager := by
  rw [notifyOne]
  split
  · exact .of_pools _ rfl
  · exact .of_pools _ rfl

theorem acquireLoop_begun (cfg : PoolConfig) (now : Instant) (i : Nat) (call : AcquireCall) (deadline : Instant)
    (fuel : Nat) (m : PoolManager) : (acquireLoop cfg now i call deadline fuel m).2.begun = some call := by
  induction fuel generalizing m with
  | zero => rfl
  | succ fuel ih =>
    simp only [acquireLoop]
    split
    · rfl
    · rfl
    · rfl
    · split
      · exact ih _
      · rfl

-- The pools before and after a step of `acquire`.
structure Change where
  now : Instant
  before : PoolManager
  after : PoolManager

/-- No pool loses or gains a connection but by the eviction of expired ones of the key, each with its
decrement of the total. -/
structure Spared (cfg : PoolConfig) (key : PoolKey) (change : Change) : Prop where
  active : ∀ other, (change.after.pool other).activeCount = (change.before.pool other).activeCount
  others : ∀ other, other ≠ key → (change.after.pool other).idle = (change.before.pool other).idle
  evicted : ∃ gone, (change.before.pool key).idle = gone ++ (change.after.pool key).idle ∧
    (∀ conn ∈ gone, expired cfg change.now conn) ∧
    change.before.totalServerConnections.value = change.after.totalServerConnections.value + gone.length

-- Nor is there a pool more or less.
structure Untouched (cfg : PoolConfig) (key : PoolKey) (change : Change) : Prop extends Spared cfg key change where
  pools : ∀ other, change.after.has other = change.before.has other

-- Nor is there a pool more or less, but for the pool of the key itself.
structure Contained (cfg : PoolConfig) (key : PoolKey) (change : Change) : Prop extends Spared cfg key change where
  pools : Adds key change.before change.after

theorem Spared.of_alike (cfg : PoolConfig) (key : PoolKey) (now : Instant) {m n : PoolManager} (alike : Alike m n) :
    Spared cfg key ⟨now, m, n⟩ where
  active := alike.active
  others other _ := alike.idle other
  evicted := ⟨[], (alike.idle key).symm, nofun, congrArg AtomicU64.value alike.total.symm⟩

theorem Spared.of_evicted {cfg : PoolConfig} {key : PoolKey} {now : Instant} {m n o : PoolManager}
    (first : Alike m n) (empty : (n.pool key).idle.dropWhile (expired cfg now) = [])
    (second : Alike (n.evict key (n.pool key).idle.length) o) {v : Nat}
    (counted : m.totalServerConnections = ⟨v, false⟩) (within : (m.pool key).idle.length ≤ v) :
    Spared cfg key ⟨now, m, o⟩ where
  active other := by
    rw [second.active, ← first.active, PoolManager.evict, pool_setPool_apply]
    split
    · rename_i same
      rw [same]
    · simp [PoolManager.pool]
  others other differs := by
    rw [second.idle, evict_idle, if_neg differs, first.idle]
  evicted := by
    refine ⟨(m.pool key).idle, ?_, fun conn member => ?_, ?_⟩
    · rw [second.idle, evict_idle, if_pos rfl, List.drop_length, List.append_nil]
    · rw [← first.idle] at member
      exact List.dropWhile_eq_nil_iff.mp empty conn member
    · rw [← first.idle] at within
      rw [second.total, evict_total key _ (first.total.trans counted) within, counted, ← first.idle]
      exact (Nat.sub_add_cancel within).symm

theorem resume_tasks (cfg : PoolConfig) (s : System) (i : Nat) (call : AcquireCall) (deadline : Instant)
    (m : PoolManager) : (s.resume cfg i call deadline m).tasks =
      s.tasks.set i (acquireLoop cfg s.now i call deadline 2 m).2 := rfl

-- A pass of the loop that does not end with a connection in hand.
theorem resume_contained {cfg : PoolConfig} {s : System} (balanced : Balanced s) {m : PoolManager}
    {call other : AcquireCall} (alike : Alike s.manager m) (i : Nat) (deadline : Instant)
    (adds : Adds call.key s.manager (acquireLoop cfg s.now i call deadline 2 m).1)
    (unserved : (acquireLoop cfg s.now i call deadline 2 m).2.unserved = some other) :
    Contained cfg call.key ⟨s.now, s.manager, (s.resume cfg i call deadline m).manager⟩ := by
  have within := balanced.idle_le call.key
  rw [balanced.total] at within
  have polled := acquireLoop_polled cfg s.now i call deadline 1 m
  refine ⟨?_, adds⟩
  rw [resume]
  generalize acquireLoop cfg s.now i call deadline 2 m = result at polled unserved
  obtain ⟨after, task⟩ := result
  cases polled with
  | reuse conn rest n fresh dropped => cases unserved
  | start _ empty room same => exact .of_evicted alike empty same balanced.total within
  | wait _ _ empty full same away => exact .of_evicted alike empty same balanced.total within

theorem timeOut_contained (cfg : PoolConfig) (s : System) (i : Nat) (call : AcquireCall) (notified : Bool) :
    Contained cfg call.key ⟨s.now, s.manager, (s.timeOut i call notified).manager⟩ := by
  have alike : Alike s.manager (s.leaving i call).manager :=
    (alike_bail s.manager call.key .timeout).trans (alike_setPool _ call.key _ rfl rfl)
  have adds : Adds call.key s.manager (s.leaving i call).manager :=
    (adds_bail s.manager call.key .timeout).trans (.of_pools _ rfl)
  rw [timeOut_eq]
  split
  · exact ⟨.of_alike cfg call.key s.now (alike.trans (alike_notifyOne _ call.key)),
      adds.trans (adds_notifyOne _ call.key)⟩
  · exact ⟨.of_alike cfg call.key s.now alike, adds⟩

theorem refused_contained (cfg : PoolConfig) (now : Instant) (m : PoolManager) (key : PoolKey) :
    Contained cfg key ⟨now, m, m.refused key⟩ := by
  have same := alike_setPool m key { m.pool key with totalErrors := (m.pool key).totalErrors + 1 } rfl rfl
  exact ⟨.of_alike cfg key now ⟨same.total, same.idle, same.active⟩, .of_pools _ rfl⟩

def unserved (s : System) (i : Nat) : Option AcquireCall := s.tasks[i]?.bind Task.unserved

-- The caller that takes the step.
def actor : Action → Option Nat
  | .tick _ | .call _ => none
  | .poll i | .expire i | .connected i _ | .release i | .reset i _ => some i

-- The caller whose `acquire` takes the step.
def acquirer : Action → Option Nat
  | .poll i | .expire i | .connected i _ => some i
  | _ => none

inductive Turn : Task → Task → Prop
  | began (call : AcquireCall) (new : Task) (begun : new.begun = some call) : Turn (.called call) new
  | woke (call : AcquireCall) (deadline : Instant) (new : Task) (begun : new.begun = some call) :
      Turn (.waiting call deadline true) new
  | late (call : AcquireCall) (deadline : Instant) (notified : Bool) :
      Turn (.waiting call deadline notified) (.failed call .timeout)
  | connected (call : AcquireCall) (stream : TcpStream) : Turn (.connecting call) (.holding call stream)
  | refused (call : AcquireCall) (error : AcquireError) : Turn (.connecting call) (.failed call error)
  | panicked (call : AcquireCall) : Turn (.connecting call) (.panicked call)
  | release (call : AcquireCall) (stream : TcpStream) : Turn (.holding call stream) (.resetting call stream)
  | lost (call : AcquireCall) (stream : TcpStream) : Turn (.holding call stream) (.released call)
  | reset (call : AcquireCall) (stream : TcpStream) : Turn (.resetting call stream) (.released call)

section View

variable {A : Type} {view : Task → Option A} (blind : ∀ task, view task.notify = view task)

include blind

theorem view_notifyOne (s : System) (key : PoolKey) (j : Nat) :
    (s.notifyOne key).tasks[j]?.bind view = s.tasks[j]?.bind view := by
  rw [notifyOne]
  split
  · simp only [List.getElem?_modify]
    cases s.tasks[j]? with
    | none => rfl
    | some task =>
      simp only [Option.bind_some]
      split
      · exact blind task
      · rfl
  · rfl

theorem view_step {cfg : PoolConfig} {s t : System} {a : Action} (stepped : step cfg s a = some t) {j : Nat}
    (known : j < s.tasks.length) :
    t.tasks[j]?.bind view = s.tasks[j]?.bind view ∨
      actor a = some j ∧ ∃ old new, s.tasks[j]? = some old ∧ Turn old new ∧ t.tasks[j]?.bind view = view new := by
  have settled {i : Nat} {old : Task} (u : System) (new : Task) (here : s.tasks[i]? = some old)
      (tasks : u.tasks = s.tasks.set i new) (turn : Turn old new) :
      u.tasks[j]?.bind view = s.tasks[j]?.bind view ∨
        some i = some j ∧ ∃ old new, s.tasks[j]? = some old ∧ Turn old new ∧ u.tasks[j]?.bind view = view new := by
    rw [view_set view new here tasks]
    split
    · rename_i at_i
      exact .inr ⟨congrArg some at_i.symm, old, new, at_i ▸ here, turn, rfl⟩
    · exact .inl rfl
  cases step_steps stepped with
  | tick elapsed => exact .inl rfl
  | call other => exact .inl (by rw [List.getElem?_append_left known])
  | begin i call here =>
    exact settled _ _ here (resume_tasks cfg s i call _ _) (.began call _ (acquireLoop_begun ..))
  | wake i call deadline here =>
    exact settled _ _ here (resume_tasks cfg s i call _ _) (.woke call deadline _ (acquireLoop_begun ..))
  | expire i call deadline notified here late =>
    have left := settled (s.leaving i call) _ here rfl (.late call deadline notified)
    rw [timeOut_eq]
    split
    · rwa [view_notifyOne blind]
    · exact left
  | connected i call here => exact settled _ _ here rfl (.connected call _)
  | refused i call error here => exact settled _ _ here rfl (.refused call _)
  | panicked i call here => exact settled _ _ here rfl (.panicked call)
  | release i call stream pool here present => exact settled _ _ here rfl (.release call stream)
  | lost i call stream here gone => exact settled _ _ here rfl (.lost call stream)
  | push i call stream here =>
    rw [view_notifyOne blind]
    exact settled { s with
      manager := s.manager.pushIdle call.key stream s.now
      tasks := s.tasks.set i (.released call) } _ here rfl (.reset call stream)
  | drop i call stream cause here => exact settled _ _ here rfl (.reset call stream)

end View

theorem unserved_of_step {cfg : PoolConfig} {s t : System} {a : Action} (stepped : step cfg s a = some t)
    {j : Nat} {call : AcquireCall} (unserved : t.unserved j = some call) (known : j < s.tasks.length) :
    s.unserved j = some call := by
  obtain same | ⟨-, old, new, here, turn, seen⟩ := view_step Task.unserved_notify stepped known
  · exact same.symm.trans unserved
  · rw [System.unserved, here]
    replace seen : new.unserved = some call := seen.symm.trans unserved
    cases turn with
    | began other _ begun => exact congrArg some (Task.unserved_eq begun seen)
    | woke other deadline _ begun => exact congrArg some (Task.unserved_eq begun seen)
    | late other deadline notified => exact seen
    | connected other stream => cases seen
    | refused other error => exact seen
    | panicked other => cases seen
    | release other stream => cases seen
    | lost other stream => cases seen
    | reset other stream => cases seen

theorem acquirer_known {cfg : PoolConfig} {s t : System} {a : Action} (stepped : step cfg s a = some t) {i : Nat}
    (own : acquirer a = some i) : i < s.tasks.length := by
  cases step_steps stepped with
  | begin j call here | wake j call deadline here | expire j call deadline notified here late
  | connected j call here | refused j call error here | panicked j call here =>
    obtain rfl := Option.some.inj own
    exact (List.getElem?_eq_some_iff.mp here).1
  | _ => cases own

theorem tasks_length_notifyOne (s : System) (key : PoolKey) : (s.notifyOne key).tasks.length = s.tasks.length := by
  rw [notifyOne]
  split
  · exact List.length_modify _ _ _
  · rfl

theorem tasks_grow {cfg : PoolConfig} {s t : System} {a : Action} (stepped : step cfg s a = some t) :
    t.tasks.length = s.tasks.length ∨ ∃ call, t.tasks = s.tasks ++ [.called call] := by
  cases step_steps stepped with
  | call call => exact .inr ⟨call, rfl⟩
  | expire i call deadline notified here late =>
    refine .inl ?_
    rw [timeOut_eq]
    split
    · simp [tasks_length_notifyOne, leaving]
    · simp [leaving]
  | push i call stream here => exact .inl (by simp [tasks_length_notifyOne])
  | _ => exact .inl (by simp [resume])

-- A step of an `acquire` that has not returned a connection by then.
theorem own_contained {cfg : PoolConfig} {s t : System} {a : Action} (balanced : Balanced s)
    (stepped : step cfg s a = some t) {i : Nat} (own : acquirer a = some i) {call : AcquireCall}
    (unserved : t.unserved i = some call) : Contained cfg call.key ⟨s.now, s.manager, t.manager⟩ := by
  cases step_steps stepped with
  | begin j other here =>
    obtain rfl := Option.some.inj own
    rw [System.unserved, view_set Task.unserved _ here (resume_tasks cfg s j other _ _), if_pos rfl] at unserved
    obtain rfl := Task.unserved_eq (acquireLoop_begun ..) unserved
    refine resume_contained balanced (alike_entry s.manager other.key) j _ ?_ unserved
    exact (adds_entry s.manager other.key).trans (adds_acquireLoop cfg s.now j other _ 2 _)
  | wake j other deadline here =>
    obtain rfl := Option.some.inj own
    rw [System.unserved, view_set Task.unserved _ here (resume_tasks cfg s j other _ _), if_pos rfl] at unserved
    obtain rfl := Task.unserved_eq (acquireLoop_begun ..) unserved
    refine resume_contained balanced (.refl s.manager) j deadline ?_ unserved
    exact adds_acquireLoop cfg s.now j other deadline 2 s.manager
  | expire j other deadline notified here late =>
    obtain rfl := Option.some.inj own
    have same := unserved_of_step stepped unserved (acquirer_known stepped rfl)
    rw [System.unserved, here] at same
    obtain rfl := Option.some.inj same
    exact timeOut_contained cfg s j other notified
  | connected j other here | panicked j other here =>
    obtain rfl := Option.some.inj own
    rw [System.unserved, view_set Task.unserved _ here rfl, if_pos rfl] at unserved
    cases unserved
  | refused j other cause here =>
    obtain rfl := Option.some.inj own
    rw [System.unserved, view_set Task.unserved _ here rfl, if_pos rfl] at unserved
    obtain rfl := Option.some.inj unserved
    exact refused_contained cfg s.now s.manager other.key
  | _ => cases own

theorem has_setPool {m : PoolManager} {key : PoolKey} (present : m.has key) (other : PoolKey) (pool : Pool) :
    (m.setPool other pool).has key :=
  lookup_setPool_isSome pool present

theorem has_move (key : PoolKey) (s t : System) (present : s.manager.has key) (moved : Move s t) :
    t.manager.has key := by
  cases moved with
  | tick elapsed | spawn call | notify i | settle i old new here before after | record metrics gauge
  | panicked i call here | lost i call stream here gone | drop i call stream here => exact present
  | adjust other pool idle active => exact has_setPool present other pool
  | evict other n within =>
    refine has_setPool ?_ other _
    rwa [has, forget_pools]
  | reuse i old call conn rest here before front => exact has_setPool present call.key _
  | connected i call here => exact has_setPool present call.key _
  | refused i call error here => exact has_setPool present call.key _
  | release i call stream here => exact has_setPool present call.key _
  | push i call stream here => exact has_setPool present call.key _

theorem has_start (key : PoolKey) (s t : System) (present : s.manager.has key) (started : Start s t) :
    t.manager.has key := by
  cases started with
  | mk i old call here before => exact present

def begun (s : System) (i : Nat) : Option AcquireCall := s.tasks[i]?.bind Task.begun

-- Every `acquire` that has begun has its pool.
def Registered (s : System) : Prop := ∀ i call, s.begun i = some call → s.manager.has call.key

theorem has_of_begin {cfg : PoolConfig} {s t : System} {a : Action} (stepped : step cfg s a = some t) {j : Nat}
    (acts : actor a = some j) {call : AcquireCall} (here : s.tasks[j]? = some (.called call)) :
    t.manager.has call.key := by
  cases step_steps stepped with
  | tick elapsed | call other => cases acts
  | begin i other same =>
    obtain rfl := Option.some.inj acts
    obtain rfl := Task.called.inj (Option.some.inj (same.symm.trans here))
    have adds := (adds_entry s.manager other.key).trans
      (adds_acquireLoop cfg s.now i other (s.now + fromMillis cfg.acquireTimeoutMs) 2 _)
    rw [System.resume]
    simp [adds other.key]
  | wake i other deadline same | expire i other deadline notified same late | connected i other same
  | refused i other error same | panicked i other same | release i other stream pool same present
  | lost i other stream same gone | push i other stream same | drop i other stream cause same =>
    obtain rfl := Option.some.inj acts
    cases same.symm.trans here

theorem step_registered {cfg : PoolConfig} (s : System) (a : Action) (t : System) (registered : s.Registered)
    (stepped : step cfg s a = some t) : t.Registered := by
  intro j call begun
  have stays (present : s.manager.has call.key) : t.manager.has call.key :=
    step_invariant (has_move call.key) (has_start call.key) cfg s a t present stepped
  by_cases known : j < s.tasks.length
  · obtain same | ⟨acts, old, new, here, turn, seen⟩ := view_step Task.begun_notify stepped known
    · exact stays (registered j call (same.symm.trans begun))
    · replace seen : new.begun = some call := seen.symm.trans begun
      have before (begun : old.begun = some call) : t.manager.has call.key := by
        refine stays (registered j call ?_)
        rw [System.begun, here]
        exact begun
      cases turn with
      | began other _ begun =>
        obtain rfl := Option.some.inj (begun.symm.trans seen)
        exact has_of_begin stepped acts here
      | woke other deadline _ begun => exact before (begun.symm.trans seen)
      | late other deadline notified => exact before seen
      | connected other stream => exact before seen
      | refused other error => exact before seen
      | panicked other => exact before seen
      | release other stream => exact before seen
      | lost other stream => exact before seen
      | reset other stream => exact before seen
  -- A caller that is new has not begun.
  · rw [System.begun] at begun
    obtain same | ⟨other, added⟩ := tasks_grow stepped
    · rw [List.getElem?_eq_none (by omega)] at begun
      cases begun
    · rw [added, List.getElem?_append_right (by omega), List.getElem?_singleton] at begun
      split at begun
      · cases begun
      · cases begun

theorem reachable_registered {cfg : PoolConfig} {s : System} (reached : Reachable cfg s) : s.Registered := by
  obtain ⟨actions, ran⟩ := reached
  refine Transition.invariant step_registered ?_ ran
  intro i call begun
  cases begun

structure Footprints where
  sys : System := {}
  log : List (Nat × Change) := []

namespace Footprints

def print (s : Footprints) (after : System) (a : Action) : List (Nat × Change) :=
  (acquirer a).toList.map fun i => (i, ⟨s.sys.now, s.sys.manager, after.manager⟩)

def step (cfg : PoolConfig) (s : Footprints) (a : Action) : Option Footprints :=
  (s.sys.step cfg a).map fun after => ⟨after, s.log ++ s.print after a⟩

variable {cfg : PoolConfig}

-- The log is bookkeeping: the runs are those of the pools.
theorem run_sys (s : Footprints) (actions : List Action) :
    (Transition.run (step cfg) s actions).map Footprints.sys =
      Transition.run (System.step cfg) s.sys actions :=
  Transition.run_map (fun _ _ => by simp [step, Function.comp_def]) s actions

structure Inv (cfg : PoolConfig) (s : Footprints) : Prop where
  balanced : Balanced s.sys
  known : ∀ entry ∈ s.log, entry.1 < s.sys.tasks.length
  contained : ∀ entry ∈ s.log, ∀ call ∈ s.sys.unserved entry.1, Contained cfg call.key entry.2

theorem inv_start : Inv cfg {} := ⟨balanced_initial, nofun, nofun⟩

theorem inv_step (s : Footprints) (a : Action) (t : Footprints) (inv : Inv cfg s) (stepped : step cfg s a = some t) :
    Inv cfg t := by
  obtain ⟨after, ran, rfl⟩ := Option.map_eq_some_iff.mp stepped
  have longer : s.sys.tasks.length ≤ after.tasks.length := by
    obtain same | ⟨call, added⟩ := tasks_grow ran
    · exact same.ge
    · simp [added]
  have printed {entry : Nat × Change} (member : entry ∈ s.print after a) :
      acquirer a = some entry.1 ∧ entry.2 = ⟨s.sys.now, s.sys.manager, after.manager⟩ := by
    obtain ⟨i, own, rfl⟩ := List.mem_map.mp member
    exact ⟨Option.mem_toList.mp own, rfl⟩
  refine ⟨step_invariant balanced_move balanced_start cfg s.sys a after inv.balanced ran, ?_, ?_⟩
  · intro entry member
    obtain old | new := List.mem_append.mp member
    · exact (inv.known entry old).trans_le longer
    · exact (acquirer_known ran (printed new).1).trans_le longer
  · intro entry member call unserved
    obtain old | new := List.mem_append.mp member
    · exact inv.contained entry old call (unserved_of_step ran unserved (inv.known entry old))
    · obtain ⟨own, change⟩ := printed new
      rw [change]
      exact own_contained inv.balanced ran own unserved

/-- Whatever an `acquire` that fails has changed on its way, it has added no pool but an empty one of its own
key, and taken no connection from any pool but expired ones from its own. -/
theorem failed_contained {actions : List Action} {s : Footprints}
    (ran : Transition.run (step cfg) {} actions = some s) {i : Nat} {call : AcquireCall} {error : AcquireError}
    (failed : s.sys.tasks[i]? = some (.failed call error)) {change : Change} (own : (i, change) ∈ s.log) :
    Contained cfg call.key change := by
  refine (Transition.invariant inv_step inv_start ran).contained (i, change) own call ?_
  rw [System.unserved, failed]
  rfl

-- The second login finds the connection of the first one expired, and is refused.
def refusedAfterExpiry : List Action :=
  [.call (tenant "testdb"), .poll 0, .connected 0 (.ok ()), .release 0, .reset 0 (.ok ()), .tick (fromSecs 11),
    .call (tenant "testdb"), .poll 1, .connected 1 (.error (.backend .auth "password authentication failed"))]

theorem contained_refusedAfterExpiry :
    ∃ s, Transition.run (step { idleTimeoutSecs := 10 }) {} refusedAfterExpiry = some s ∧
      (∀ change, (1, change) ∈ s.log → Contained { idleTimeoutSecs := 10 } (tenant "testdb").key change) ∧
      s.log.map Prod.fst = [0, 0, 1, 1] ∧ s.sys.manager.totalServerConnections.value = 0 := by
  obtain ⟨s, ran, failed, steps, total⟩ : ∃ s,
      Transition.run (step { idleTimeoutSecs := 10 }) {} refusedAfterExpiry = some s ∧
        s.sys.tasks[1]? = some (.failed (tenant "testdb")
          (.connect (tenant "testdb").key "Backend error: password authentication failed")) ∧
        s.log.map Prod.fst = [0, 0, 1, 1] ∧ s.sys.manager.totalServerConnections.value = 0 :=
    Transition.exists_run (by decide)
  exact ⟨s, ran, fun change own => failed_contained ran failed own, steps, total⟩

-- One failed login to a database that nobody has asked for before.
def refusedLogin : List Action :=
  [.call (tenant "nosuchdb"), .poll 0, .connected 0 (.error (.backend .auth "password authentication failed"))]

theorem not_untouched_refusedLogin :
    ¬ ∀ cfg actions s i call error change, Transition.run (step cfg) {} actions = some s →
      s.sys.tasks[i]? = some (.failed call error) → (i, change) ∈ s.log → Untouched cfg call.key change := by
  intro untouched
  obtain ⟨s, ran, failed, added⟩ : ∃ s, Transition.run (step {}) {} refusedLogin = some s ∧
      s.sys.tasks[0]? = some (.failed (tenant "nosuchdb")
        (.connect (tenant "nosuchdb").key "Backend error: password authentication failed")) ∧
      s.log.any fun entry => entry.1 = 0 ∧ entry.2.before.has (tenant "nosuchdb").key = false ∧
        entry.2.after.has (tenant "nosuchdb").key = true := Transition.exists_run (by decide)
  obtain ⟨⟨i, change⟩, own, new⟩ := List.any_eq_true.mp added
  obtain ⟨rfl, absent, present⟩ := of_decide_eq_true new
  have same := (untouched {} refusedLogin s 0 _ _ change ran failed own).pools (tenant "nosuchdb").key
  rw [present, absent] at same
  cases same

end Footprints

end System

end PgMux
