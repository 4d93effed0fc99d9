import PgMux.Pool.Wakeups
import PgMux.Shared.History

set_option autoImplicit false

namespace PgMux

inductive Parking where
  | parks (key : PoolKey) (i : Nat)
  | wakes (key : PoolKey) (i : Nat)
deriving DecidableEq

namespace Parking

def parkedOn (key : PoolKey) : Parking → Option Nat
  | .parks other i => if other = key then some i else none
  | .wakes _ _ => none

def wokenFor (key : PoolKey) : Parking → Option Nat
  | .parks _ _ => none
  | .wakes other i => if other = key then some i else none

end Parking

def Task.notified : Task → Bool
  | .waiting _ _ true => true
  | _ => false

theorem Task.notified_of_parked {task : Task} {key : PoolKey} (parks : task.parked = some key) :
    task.notified = false ∧ task.notify.notified = true := by
  cases task with
  | waiting call deadline woken =>
    cases woken with
    | true => cases parks
    | false => exact ⟨rfl, rfl⟩
  | _ => cases parks

namespace System

open PoolManager Transition

def parking (s t : System) (j : Nat) : Option Parking :=
  match s.parked j with
  | none => (t.parked j).map fun key => .parks key j
  | some key => if t.tasks[j]?.any Task.notified then some (.wakes key j) else none

def parkings (s : System) (_ : Action) (t : System) : List Parking := (List.range t.tasks.length).filterMap (s.parking t)

def parksOf (key : PoolKey) (events : List Parking) : List Nat := events.filterMap (Parking.parkedOn key)

def wakesOf (key : PoolKey) (events : List Parking) : List Nat := events.filterMap (Parking.wokenFor key)

theorem filterMap_range_single {A : Type} {f : Nat → Option A} {i : Nat} (only : ∀ j, j ≠ i → f j = none) (n : Nat)
    (within : i < n) : (List.range n).filterMap f = (f i).toList := by
  induction n with
  | zero => exact absurd within (Nat.not_lt_zero i)
  | succ n ih =>
    rw [List.range_succ, List.filterMap_append]
    by_cases last : i = n
    · subst last
      have none : (List.range i).filterMap f = [] := by
        rw [List.filterMap_eq_nil_iff]
        exact fun j before => only j (Nat.ne_of_lt (List.mem_range.mp before))
      cases here : f i <;> simp [none, here]
    · simp [ih (by omega), only n (Ne.symm last)]

theorem parkings_single {s t : System} {a : Action} {i : Nat} (only : ∀ j, j ≠ i → s.parking t j = none)
    (within : i < t.tasks.length) : s.parkings a t = (s.parking t i).toList :=
  filterMap_range_single only _ within

theorem parkings_none {s t : System} {a : Action} (none : ∀ j, s.parking t j = none) : s.parkings a t = [] := by
  rw [parkings, List.filterMap_eq_nil_iff]
  exact fun j _ => none j

theorem parking_same {s t : System} {j : Nat} (same : t.tasks[j]? = s.tasks[j]?) : s.parking t j = none := by
  rw [parking]
  split
  · rename_i free
    rw [parked, same]
    rw [parked] at free
    rw [free, Option.map_none]
  · rename_i key waits
    obtain ⟨task, here, parks⟩ := Option.bind_eq_some_iff.mp waits
    rw [same, here, Option.any_some, (Task.notified_of_parked parks).1]
    rfl

theorem parking_settled {s t : System} {i : Nat} {new : Task} (here : t.tasks[i]? = some new)
    (after : new.parked = none) (unwoken : new.notified = false) : s.parking t i = none := by
  rw [parking]
  split
  · rw [parked_here here, after, Option.map_none]
  · rw [here, Option.any_some, unwoken]
    rfl

/-- What a step does to the queues: it takes callers out of them, puts one at the end of its queue, or wakes
the one that stands in front. -/
inductive Shifts (s t : System) : List Parking → Prop
  | left (fewer : ∀ key, (t.manager.queue key).Sublist (s.manager.queue key)) : Shifts s t []
  | joined (key : PoolKey) (i : Nat)
      (last : ∀ other, t.manager.queue other = s.manager.queue other ++ if other = key then [i] else []) :
      Shifts s t [.parks key i]
  | woken (key : PoolKey) (i : Nat)
      (front : ∀ other, ((if other = key then [i] else []) ++ t.manager.queue other).Sublist
        (s.manager.queue other)) : Shifts s t [.wakes key i]

theorem parking_set {s t : System} {i : Nat} (new : Task) (tasks : t.tasks = s.tasks.set i new) (j : Nat)
    (other : j ≠ i) : s.parking t j = none :=
  parking_same (by rw [tasks, List.getElem?_set_ne (Ne.symm other)])

theorem parkings_set {s t : System} {a : Action} {i : Nat} {old : Task} (new : Task) (here : s.tasks[i]? = some old)
    (tasks : t.tasks = s.tasks.set i new) (after : new.parked = none) (unwoken : new.notified = false) :
    s.parkings a t = [] := by
  refine parkings_none fun j => ?_
  by_cases at_i : j = i
  · subst at_i
    have placed : t.tasks[j]? = some new := by
      rw [tasks, List.getElem?_set_self (List.getElem?_eq_some_iff.mp here).1]
    exact parking_settled placed after unwoken
  · exact parking_set new tasks j at_i

theorem poll_shifts {cfg : PoolConfig} {s t : System} {i : Nat} (stepped : step cfg s (.poll i) = some t) :
    Shifts s t (s.parkings (.poll i) t) := by
  obtain ⟨old, call, new, here, before, -, tasks, queues⟩ := poll_queues stepped
  have bound : i < t.tasks.length := by
    rw [tasks, List.length_set]
    exact (List.getElem?_eq_some_iff.mp here).1
  have unparked : s.parked i = none := (parked_here here).trans before
  have placed : t.parked i = new.parked := by rw [parked_set new here tasks, if_pos rfl]
  have mine : s.parking t i = new.parked.map fun key => .parks key i := by rw [parking, unparked, placed]
  rw [parkings_single (parking_set new tasks) bound, mine]
  cases queues with
  | kept same free =>
    rw [free]
    exact .left fun key => by rw [same]
  | joined last waits =>
    rw [waits]
    refine .joined call.key i fun other => ?_
    rw [last]
    split
    · rename_i at_key
      rw [at_key]
    · rw [List.append_nil]

theorem settle_shifts {s t : System} {a : Action} {i : Nat} {old : Task} (new : Task) (here : s.tasks[i]? = some old)
    (tasks : t.tasks = s.tasks.set i new) (after : new.parked = none) (unwoken : new.notified = false)
    (fewer : ∀ key, (t.manager.queue key).Sublist (s.manager.queue key)) : Shifts s t (s.parkings a t) := by
  rw [parkings_set new here tasks after unwoken]
  exact .left fewer

theorem notifyOne_nobody {s : System} {key : PoolKey} (nobody : s.manager.queue key = []) :
    (s.notifyOne key).tasks = s.tasks ∧ (s.notifyOne key).manager.queue = s.manager.queue := by
  have empty : (s.manager.pool key).waiters.queue = [] := nobody
  rw [notifyOne]
  simp only [empty]
  exact ⟨trivial, queue_setPool_same _ key _ nobody.symm⟩

theorem notifyOne_first {s : System} {key : PoolKey} {i : Nat} {rest : List Nat}
    (first : s.manager.queue key = i :: rest) :
    (s.notifyOne key).tasks = s.tasks.modify i Task.notify ∧ ∀ other, (s.notifyOne key).manager.queue other =
      if other = key then rest else s.manager.queue other := by
  rw [queue] at first
  rw [notifyOne]
  simp only [first]
  exact ⟨trivial, fun other => queue_setPool _ key other _⟩

theorem notifyOne_shifts {s u : System} {a : Action} (queued : Queued u) {k : Nat} {old : Task} (new : Task)
    (here : s.tasks[k]? = some old) (tasks : u.tasks = s.tasks.set k new) (after : new.parked = none)
    (unwoken : new.notified = false) (fewer : ∀ key, (u.manager.queue key).Sublist (s.manager.queue key))
    (key : PoolKey) : Shifts s (u.notifyOne key) (s.parkings a (u.notifyOne key)) := by
  cases split : u.manager.queue key with
  | nil =>
    obtain ⟨same, queues⟩ := notifyOne_nobody split
    exact settle_shifts new here (same.trans tasks) after unwoken (queues ▸ fewer)
  | cons i rest =>
    obtain ⟨modified, queues⟩ := notifyOne_first split
    have waits : u.parked i = some key := (queued.each i key).mp (by simp [split])
    have parks := parked_set new here tasks
    have away : i ≠ k := by
      rintro rfl
      rw [parks, if_pos rfl, after] at waits
      cases waits
    have still : s.parked i = some key := by
      rw [← waits, parks, if_neg away]
    obtain ⟨task, there, waiting⟩ := Option.bind_eq_some_iff.mp waits
    have bound : i < (u.notifyOne key).tasks.length := by
      rw [modified, List.length_modify]
      exact (List.getElem?_eq_some_iff.mp there).1
    have only (j : Nat) (other : j ≠ i) : s.parking (u.notifyOne key) j = none := by
      have unmodified : (u.notifyOne key).tasks[j]? = (s.tasks.set k new)[j]? := by
        rw [modified, List.getElem?_modify_ne _ _ (Ne.symm other), tasks]
      by_cases at_k : j = k
      · subst at_k
        rw [List.getElem?_set_self (List.getElem?_eq_some_iff.mp here).1] at unmodified
        exact parking_settled unmodified after unwoken
      · rw [List.getElem?_set_ne (Ne.symm at_k)] at unmodified
        exact parking_same unmodified
    have mine : s.parking (u.notifyOne key) i = some (.wakes key i) := by
      simp [parking, still, modified, there, (Task.notified_of_parked waiting).2]
    rw [parkings_single only bound, mine]
    refine .woken key i fun other => ?_
    rw [queues]
    by_cases same : other = key
    · subst same
      simpa [split] using fewer other
    · simpa [same] using fewer other

theorem step_shifts {cfg : PoolConfig} {s t : System} {a : Action} (queued : Queued s)
    (stepped : step cfg s a = some t) : Shifts s t (s.parkings a t) := by
  have kept {u : System} (same : u.manager.queue = s.manager.queue) (key : PoolKey) :
      (u.manager.queue key).Sublist (s.manager.queue key) := by
    rw [same]
  by_cases polls : ∃ i, a = .poll i
  · rcases polls with ⟨i, rfl⟩
    exact poll_shifts stepped
  · cases step_steps stepped with
    | begin i | wake i => exact absurd ⟨i, rfl⟩ polls
    | tick elapsed =>
      have none : s.parkings (.tick elapsed) { s with now := s.now + elapsed } = [] :=
        parkings_none fun j => parking_same rfl
      rw [none]
      exact .left (kept rfl)
    | call call =>
      have none : s.parkings (.call call) { s with tasks := s.tasks ++ [.called call] } = [] := by
        refine parkings_none fun j => ?_
        by_cases known : j < s.tasks.length
        · exact parking_same (List.getElem?_append_left known)
        · by_cases last : j = s.tasks.length
          · have fresh : (s.tasks ++ [.called call])[j]? = some (.called call) := by simp [last]
            exact parking_settled fresh rfl rfl
          · refine parking_same ?_
            rw [List.getElem?_eq_none (by simp; omega), List.getElem?_eq_none (by omega)]
      rw [none]
      exact .left (kept rfl)
    | expire i call deadline notified here late =>
      have fewer (key : PoolKey) : ((s.leaving i call).manager.queue key).Sublist (s.manager.queue key) := by
        rw [leaving, queue_setPool, queue_bail s.manager call.key .timeout]
        split
        · rename_i same
          rw [same]
          exact List.erase_sublist
        · exact .refl _
      rw [timeOut_eq]
      split
      · exact notifyOne_shifts (queued.leaving here) _ here rfl rfl rfl fewer call.key
      · exact settle_shifts _ here rfl rfl rfl fewer
    | connected i call here =>
      exact settle_shifts _ here rfl rfl rfl (kept (queue_setPool_same _ _ _ rfl))
    | refused i call error here =>
      exact settle_shifts _ here rfl rfl rfl (kept (queue_setPool_same _ _ _ rfl))
    | panicked i call here => exact settle_shifts _ here rfl rfl rfl (kept rfl)
    | release i call stream pool here present =>
      refine settle_shifts _ here rfl rfl rfl (kept (queue_setPool_same _ _ _ ?_))
      rw [PoolManager.queue, pool_of_lookup present]
    | lost i call stream here gone => exact settle_shifts _ here rfl rfl rfl (kept rfl)
    | push i call stream here =>
      have same := queue_setPool_same s.manager call.key { s.manager.pool call.key with
        idle := (s.manager.pool call.key).idle ++ [⟨stream, s.now, s.now⟩] } rfl
      have pushed : Queued { s with
          manager := s.manager.pushIdle call.key stream s.now
          tasks := s.tasks.set i (.released call) } := queued.settle _ here rfl rfl rfl same
      exact notifyOne_shifts pushed _ here rfl rfl rfl (kept same) call.key
    | drop i call stream cause here => exact settle_shifts _ here rfl rfl rfl (kept rfl)

def InOrder (s : System) (events : List Parking) : Prop :=
  ∀ key, (wakesOf key events ++ s.manager.queue key).Sublist (parksOf key events)

theorem Shifts.inOrder {s t : System} {events turns : List Parking} (before : s.InOrder events)
    (shifts : Shifts s t turns) : t.InOrder (events ++ turns) := by
  intro key
  have order := before key
  cases shifts with
  | left fewer =>
    rw [List.append_nil]
    exact ((fewer key).append_left _).trans order
  | joined other i last =>
    have added := order.append (List.Sublist.refl (if key = other then [i] else []))
    rw [List.append_assoc, ← last] at added
    simp only [wakesOf, parksOf, List.filterMap_append] at added ⊢
    by_cases same : key = other
    · simpa [List.filterMap_cons, Parking.wokenFor, Parking.parkedOn, same] using added
    · simpa [List.filterMap_cons, Parking.wokenFor, Parking.parkedOn, same, Ne.symm same] using added
  | woken other i front =>
    have taken := ((front key).append_left (wakesOf key events)).trans order
    simp only [wakesOf, parksOf, List.filterMap_append] at taken ⊢
    by_cases same : key = other
    · simpa [List.filterMap_cons, Parking.wokenFor, Parking.parkedOn, same] using taken
    · simpa [List.filterMap_cons, Parking.wokenFor, Parking.parkedOn, same, Ne.symm same] using taken

theorem woken_in_order (cfg : PoolConfig) (actions : List Action) :
    Always (recorded (step cfg) parkings) (fun r => ∀ key, ∃ still : List Nat,
      (∀ i, i ∈ still ↔ r.state.parked i = some key) ∧ still.Nodup ∧
        (wakesOf key r.events ++ still).Sublist (parksOf key r.events)) ⟨{}, []⟩ actions := by
  have queued : Always (step cfg) Queued {} actions := always queued_step actions queued_initial
  have ordered : Always (recorded (step cfg) parkings) (fun r => r.state.InOrder r.events) ⟨{}, []⟩ actions := by
    refine always_history ?_ queued fun key => List.Sublist.refl _
    exact fun s a t events now _ before stepped => (step_shifts now stepped).inOrder before
  refine ((queued.recorded []).and ordered).mono fun r kept key => ?_
  exact ⟨r.state.manager.queue key, fun i => kept.1.each i key, kept.1.once key, kept.2 key⟩

end System

end PgMux
