import PgMux.Client.Seats
import PgMux.Pool.Capacity
import PgMux.Shared.History

set_option autoImplicit false

namespace PgMux

def Phase.broken : Phase → Bool
  | .returned (some _) => true
  | _ => false

def Client.servesFor (key : PoolKey) (client : Client) : Nat :=
  if client.phase.served = true ∧ client.settings.poolKey = key then 1 else 0

namespace Seat

def holdsFor (key : PoolKey) (seat : Seat) : Nat := if seat.kind = .holding ∧ seat.key = key then 1 else 0

def servesFor (key : PoolKey) (seat : Seat) : Nat := if seat.phase.served = true ∧ seat.key = key then 1 else 0

def brokenOff (old new : PoolKey × Phase) : Option PoolKey :=
  if old.2.served && new.2.broken then some old.1 else none

theorem brokenOff_same (stand : PoolKey × Phase) : brokenOff stand stand = none := by
  obtain ⟨key, phase⟩ := stand
  cases phase <;> simp [brokenOff, Phase.served, Phase.broken]

theorem brokenOff_stays (stands more : List (PoolKey × Phase)) :
    (stands.zip (stands ++ more)).filterMap (fun pair => brokenOff pair.1 pair.2) = [] := by
  induction stands with
  | nil => rfl
  | cons stand rest ih => simp [brokenOff_same, ih]

theorem brokenOff_set {stands : List (PoolKey × Phase)} {i : Nat} {old : PoolKey × Phase}
    (new : PoolKey × Phase) (here : stands[i]? = some old) :
    (stands.zip (stands.set i new)).filterMap (fun pair => brokenOff pair.1 pair.2) = (brokenOff old new).toList := by
  induction stands generalizing i with
  | nil => simp at here
  | cons stand rest ih =>
    cases i with
    | zero =>
      obtain rfl : stand = old := by simpa using here
      have stays := brokenOff_stays rest []
      rw [List.append_nil] at stays
      cases breaks : brokenOff stand new <;> simp [breaks, stays]
    | succ i => simpa [brokenOff_same] using ih (by simpa using here)

theorem Goes.accounted {tenant key : PoolKey} {old new : Seat} (goes : Goes tenant old new) :
    new.holdsFor key + old.servesFor key =
      old.holdsFor key + new.servesFor key +
        (brokenOff (old.key, old.phase) (new.key, new.phase)).toList.count key := by
  cases goes with
  | breaksOff phase served last =>
    have gone : (Phase.returned (some last)).served = false := rfl
    have broken : (Phase.returned (some last)).broken = true := rfl
    by_cases same : tenant = key <;> simp [holdsFor, servesFor, brokenOff, served, gone, broken, same]
  | _ => simp [holdsFor, servesFor, brokenOff, Phase.broken, Phase.served]

end Seat

namespace World

open Transition

def serving (w : World) (key : PoolKey) : Nat := Tally.overList (Client.servesFor key) w.clients

/-- The tenants of the clients that an error takes out of `handle_client` in a step, away from their connection. -/
def brokenOff (w : World) (_ : WorldAction) (t : World) : List PoolKey :=
  (w.clients.zip t.clients).filterMap fun pair =>
    if pair.1.phase.served && pair.2.phase.broken then some pair.1.settings.poolKey else none

theorem serving_seats {w : World} (length : w.clients.length = w.pools.tasks.length) (key : PoolKey) :
    w.serving key = Tally.overList (Seat.servesFor key) w.seats := by
  have same := congrArg (Tally.overList fun stand : PoolKey × Phase =>
    if stand.2.served = true ∧ stand.1 = key then 1 else 0) (stands_seats length)
  rw [Tally.overList, Tally.overList, List.map_map, List.map_map] at same
  exact same.symm

theorem held_seats {w : World} (length : w.clients.length = w.pools.tasks.length) (called : Called w) (key : PoolKey) :
    w.pools.held key = Tally.overList (Seat.holdsFor key) w.seats := by
  have same : w.seats.map (Seat.holdsFor key) = w.pools.tasks.map (Task.holdsFor key) := by
    rw [seats, List.map_zipWith]
    apply List.ext_getElem?
    intro i
    rw [List.getElem?_zipWith, List.getElem?_map]
    cases there : w.pools.tasks[i]? with
    | none => cases w.clients[i]? <;> rfl
    | some task =>
      have bound := (List.getElem?_eq_some_iff.mp there).1
      rw [← length] at bound
      have caller := called.caller (List.getElem?_eq_getElem bound) there
      rw [List.getElem?_eq_getElem bound]
      have owner := congrArg AcquireCall.key caller
      simp only [Client.call] at owner
      cases task <;> simp [Seat.holdsFor, Task.holdsFor, Task.kind, ← owner, Task.caller]
  rw [System.held, Tally.overList, Tally.overList, same]

theorem brokenOff_seats {w t : World} (a : WorldAction) (before : w.clients.length = w.pools.tasks.length)
    (after : t.clients.length = t.pools.tasks.length) :
    w.brokenOff a t =
      ((w.seats.map fun seat => (seat.key, seat.phase)).zip (t.seats.map fun seat => (seat.key, seat.phase))).filterMap
        fun pair => Seat.brokenOff pair.1 pair.2 := by
  rw [stands_seats before, stands_seats after, List.zip_map, List.filterMap_map]
  rfl

def Accounted (w : World) (lost : List PoolKey) : Prop := ∀ key, w.pools.held key = w.serving key + lost.count key

theorem step_accounted {cfg : Config} (w : World) (a : WorldAction) (t : World) (lost : List PoolKey)
    (before : Sound w ∧ Called w) (after : Sound t ∧ Called t) (accounted : Accounted w lost)
    (stepped : step cfg w a = some t) : Accounted t (lost ++ w.brokenOff a t) := by
  obtain ⟨⟨linked, -⟩, called⟩ := before
  obtain ⟨⟨linked', -⟩, called'⟩ := after
  intro key
  have now := accounted key
  rw [held_seats linked.length called, serving_seats linked.length] at now
  rw [held_seats linked'.length called', serving_seats linked'.length, List.count_append,
    brokenOff_seats a linked.length linked'.length]
  rcases step_moved linked stepped with ⟨-, grown⟩ | ⟨i, -, tenant, old, new, here, set, goes⟩
  · rw [grown, List.map_append, Seat.brokenOff_stays]
    cases a <;> simpa [newSeats, Seat.holdsFor, Seat.servesFor, Phase.served] using now
  · have stand : (w.seats.map fun seat => (seat.key, seat.phase))[i]? = some (old.key, old.phase) := by simp [here]
    have holds := Tally.overList_set (Seat.holdsFor key) new here
    have serves := Tally.overList_set (Seat.servesFor key) new here
    have turn := @Seat.Goes.accounted tenant key old new goes
    rw [set, List.map_set, Seat.brokenOff_set _ stand]
    omega

theorem leaks_counted (cfg : Config) (actions : List WorldAction) :
    Always (recorded (step cfg) brokenOff) (fun r => ∀ key,
      (r.state.pools.manager.pool key).activeCount.value = r.state.serving key + r.events.count key)
      ⟨{}, []⟩ actions := by
  have sound : Always (step cfg) Sound {} actions := always sound_step actions sound_initial
  have called : Always (step cfg) Called {} actions := always step_called actions called_initial
  have accounted := always_history step_accounted (sound.and called) (show Accounted {} [] from fun _ => rfl)
  refine ((sound.recorded []).and accounted).mono ?_
  rintro r ⟨sound, accounted⟩ key
  rw [sound.balanced.active key]
  exact accounted key

theorem full_load {cfg : PoolConfig} {s t : System} {b : Action} (balanced : s.Balanced) {key : PoolKey}
    (full : cfg.maxConnectionsPerPool ≤ s.held key) (stepped : s.step cfg b = some t) :
    t.loadFor key ≤ s.loadFor key := by
  by_cases polls : ∃ i, b = .poll i
  · obtain ⟨i, rfl⟩ := polls
    obtain ⟨call, -, rest⟩ := System.poll_load balanced stepped
    rcases rest with ⟨-, -, less⟩ | ⟨⟨-, -, room⟩, -, -, -, others⟩
    · exact less key
    · have differs : key ≠ call.key := by
        rintro rfl
        rw [balanced.active] at room
        exact absurd room (Nat.not_lt.mpr full)
      exact (others key differs).le
  · exact (System.step_load balanced stepped fun i is => polls ⟨i, is⟩).2 key

theorem held_le_loadFor (s : System) (key : PoolKey) : s.held key ≤ s.loadFor key := by
  simp only [System.loadFor, System.live]
  omega

-- There may be one connection, and the client that has it breaks off.
def onlyOne : Config := { pool := { maxConnectionsPerPool := 1 } }

end World

end PgMux
