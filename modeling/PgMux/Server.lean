import PgMux.Client.Seats
import PgMux.Client.Startup
import PgMux.Shared.History

set_option autoImplicit false

namespace PgMux

inductive Handler where
  | spawned
  | arriving (arrival : Arrival)
  | inside (arrival : Arrival) (i : Nat)
  -- Past `client_connections_active.dec()`.
  | finished
  -- A panic ends the task where it is.
  | panicked
deriving DecidableEq

structure Server where
  world : World := {}
  handlers : List Handler := []
  clientConnectionsTotal : Nat := 0
  clientConnectionsActive : Int := 0

inductive ServerAction where
  | accept
  -- The first poll of a task, up to its first read.
  | start (c : Nat) (nodelay : Except String Unit)
  -- A read of phase 1 or 2, with the result of the write that it leads to, if it leads to one.
  | read (c : Nat) (result : Except String Bytes) (written : Except String Unit) (backendKey : Int × Int)
  -- Whatever comes behind the password.
  | serve (a : WorldAction)

def ClientError.panics : ClientError → Bool
  | .panic _ | .startup (.panic _) => true
  | _ => false

namespace Handler

def active : Handler → Bool
  | .spawned | .finished => false
  | .arriving _ | .inside _ _ | .panicked => true

def counted : Handler → Bool
  | .spawned => false
  | .arriving _ | .inside _ _ | .finished | .panicked => true

def logsIn : Handler → Bool
  | .arriving _ => true
  | .spawned | .inside _ _ | .finished | .panicked => false

def client : Handler → Option Nat
  | .inside _ i => some i
  | .spawned | .arriving _ | .finished | .panicked => none

end Handler

namespace Server

open Transition

-- Phases 1 and 2 load nothing.
def noLoads : Loads := ⟨fun _ => false, fun _ => none⟩

def setHandler (s : Server) (c : Nat) (handler : Handler) : Server :=
  { s with handlers := s.handlers.set c handler }

-- `handle_client` has returned, whatever its result.
def finish (s : Server) (c : Nat) : Server :=
  { s.setHandler c .finished with clientConnectionsActive := s.clientConnectionsActive - 1 }

-- The handler of a client goes where its client has got to.
def settle (s : Server) (i : Nat) : Server :=
  match s.handlers.findIdx? (·.client = some i), (s.world.clients[i]?).map Client.phase with
  | some c, some (.returned (some .panic)) => s.setHandler c .panicked
  | some c, some (.returned _) => s.finish c
  | _, _ => s

def step (cfg : Config) (tls : Bool) (s : Server) : ServerAction → Option Server
  | .accept => some { s with handlers := s.handlers ++ [.spawned] }
  | .start c nodelay =>
    match s.handlers[c]? with
    | some .spawned =>
      let s := { s with
        clientConnectionsTotal := s.clientConnectionsTotal + 1
        clientConnectionsActive := s.clientConnectionsActive + 1 }
      match nodelay with
      | .ok () => some (s.setHandler c (.arriving {}))
      | .error _ => some (s.finish c)
    | _ => none
  | .read c result written backendKey =>
    match s.handlers[c]? with
    | some (.arriving before) =>
      let arrival := before.pass cfg tls result noLoads
      match decide (arrival.replies ≠ before.replies), written with
      | true, .error _ => some (s.finish c)
      | _, _ =>
        match arrival.stage with
        | .proxying startupInfo =>
          (s.world.step cfg (.arrive startupInfo backendKey)).map fun w =>
            { s.setHandler c (.inside arrival s.world.clients.length) with world := w }
        | .returned (.error error) => some (if error.panics then s.setHandler c .panicked else s.finish c)
        | .returned (.ok ()) => some (s.finish c)
        | .startup | .password _ => some (s.setHandler c (.arriving arrival))
    | _ => none
  | .serve (.arrive _ _) => none
  | .serve a =>
    (s.world.step cfg a).map fun w =>
      match a.client with
      | some i => { s with world := w }.settle i
      | none => { s with world := w }

inductive Steps (cfg : Config) (tls : Bool) (s : Server) : ServerAction → Server → Prop
  | accept : Steps cfg tls s .accept { s with handlers := s.handlers ++ [.spawned] }
  | start (c : Nat) (nodelay : Except String Unit) (here : s.handlers[c]? = some .spawned) :
      Steps cfg tls s (.start c nodelay)
        { s.setHandler c (.arriving {}) with
          clientConnectionsTotal := s.clientConnectionsTotal + 1
          clientConnectionsActive := s.clientConnectionsActive + 1 }
  | startLost (c : Nat) (nodelay : Except String Unit) (here : s.handlers[c]? = some .spawned) :
      Steps cfg tls s (.start c nodelay)
        { s.setHandler c .finished with
          clientConnectionsTotal := s.clientConnectionsTotal + 1
          clientConnectionsActive := s.clientConnectionsActive + 1 - 1 }
  | wait (c : Nat) (result : Except String Bytes) (written : Except String Unit) (backendKey : Int × Int)
      (before : Arrival) (here : s.handlers[c]? = some (.arriving before)) :
      Steps cfg tls s (.read c result written backendKey)
        (s.setHandler c (.arriving (before.pass cfg tls result noLoads)))
  | arrive (c : Nat) (result : Except String Bytes) (written : Except String Unit) (backendKey : Int × Int)
      (before : Arrival) (startupInfo : ClientStartupInfo) (w : World)
      (here : s.handlers[c]? = some (.arriving before))
      (stage : (before.pass cfg tls result noLoads).stage = .proxying startupInfo)
      (arrived : s.world.step cfg (.arrive startupInfo backendKey) = some w) :
      Steps cfg tls s (.read c result written backendKey)
        { s.setHandler c (.inside (before.pass cfg tls result noLoads) s.world.clients.length) with world := w }
  | leave (c : Nat) (result : Except String Bytes) (written : Except String Unit) (backendKey : Int × Int)
      (before : Arrival) (here : s.handlers[c]? = some (.arriving before)) :
      Steps cfg tls s (.read c result written backendKey) (s.finish c)
  | panic (c : Nat) (result : Except String Bytes) (written : Except String Unit) (backendKey : Int × Int)
      (before : Arrival) (here : s.handlers[c]? = some (.arriving before)) :
      Steps cfg tls s (.read c result written backendKey) (s.setHandler c .panicked)
  | shared (a : WorldAction) (w : World) (nobody : a.client = none) (old : World.newPhases a = [])
      (moved : s.world.step cfg a = some w) : Steps cfg tls s (.serve a) { s with world := w }
  | serve (a : WorldAction) (i : Nat) (w : World) (whose : a.client = some i)
      (moved : s.world.step cfg a = some w) : Steps cfg tls s (.serve a) ({ s with world := w }.settle i)

theorem step_steps {cfg : Config} {tls : Bool} {s t : Server} {a : ServerAction}
    (stepped : step cfg tls s a = some t) : Steps cfg tls s a t := by
  cases a with
  | accept =>
    obtain rfl := Option.some.inj stepped
    exact .accept
  | start c nodelay =>
    simp only [step] at stepped
    split at stepped
    case h_2 => simp at stepped
    case h_1 here =>
      split at stepped
      · obtain rfl := Option.some.inj stepped
        exact .start c _ here
      · obtain rfl := Option.some.inj stepped
        exact .startLost c _ here
  | read c result written backendKey =>
    simp only [step] at stepped
    split at stepped
    case h_2 => simp at stepped
    case h_1 before here =>
      split at stepped
      · obtain rfl := Option.some.inj stepped
        exact .leave c result _ backendKey before here
      · split at stepped
        case h_1 startupInfo stage =>
          obtain ⟨w, arrived, rfl⟩ := Option.map_eq_some_iff.mp stepped
          exact .arrive c result _ backendKey before startupInfo w here stage arrived
        case h_2 error _ =>
          obtain rfl := Option.some.inj stepped
          cases error.panics with
          | true => exact .panic c result _ backendKey before here
          | false => exact .leave c result _ backendKey before here
        case h_3 =>
          obtain rfl := Option.some.inj stepped
          exact .leave c result _ backendKey before here
        all_goals
          obtain rfl := Option.some.inj stepped
          exact .wait c result _ backendKey before here
  | serve a =>
    have moves {a : WorldAction} (old : World.newPhases a = []) (ran : (s.world.step cfg a).map (fun w =>
        match a.client with
        | some i => { s with world := w }.settle i
        | none => { s with world := w }) = some t) : Steps cfg tls s (.serve a) t := by
      obtain ⟨w, moved, rfl⟩ := Option.map_eq_some_iff.mp ran
      cases whose : a.client with
      | none => exact .shared a w whose old moved
      | some i => exact .serve a i w whose moved
    cases a with
    | arrive startupInfo backendKey => simp [step] at stepped
    | _ => exact moves rfl stepped

theorem settle_cases {s : Server} {i : Nat} {phase : Phase} (stands : s.world.phases[i]? = some phase) :
    (phase.running = true ∧ s.settle i = s) ∨ (phase.running = false ∧
      (s.settle i = s ∧ s.handlers.countP (·.client = some i) = 0 ∨
        ∃ c handler, s.handlers[c]? = some handler ∧ handler.client = some i ∧
          (s.settle i = s.setHandler c .panicked ∨ s.settle i = s.finish c))) := by
  rw [World.phases, List.getElem?_map] at stands
  cases found : s.handlers.findIdx? (·.client = some i) with
  | none =>
    have same : s.settle i = s := by simp only [settle, found]
    have nobody : s.handlers.countP (·.client = some i) = 0 := by
      rw [List.countP_eq_zero]
      exact fun handler inside => by simpa using List.findIdx?_eq_none_iff.mp found handler inside
    cases phase.running with
    | true => exact .inl ⟨rfl, same⟩
    | false => exact .inr ⟨rfl, .inl ⟨same, nobody⟩⟩
  | some c =>
    obtain ⟨bound, is, -⟩ := List.findIdx?_eq_some_iff_getElem.mp found
    have is : s.handlers[c].client = some i := by simpa using is
    have moves (t : Server) (cases : t = s.setHandler c .panicked ∨ t = s.finish c) :
        ∃ c handler, s.handlers[c]? = some handler ∧ handler.client = some i ∧
          (t = s.setHandler c .panicked ∨ t = s.finish c) :=
      ⟨c, s.handlers[c], List.getElem?_eq_getElem bound, is, cases⟩
    cases phase with
    | returned error =>
      refine .inr ⟨rfl, .inr (moves _ ?_)⟩
      simp only [settle, found, stands]
      rcases error with - | error
      · exact .inr rfl
      · cases error <;> simp
    | _ => exact .inl ⟨rfl, by simp only [settle, found, stands]⟩

theorem settle_handlers (s : Server) (i : Nat) :
    (s.settle i).handlers = s.handlers ∨ ∃ c handler gone, s.handlers[c]? = some handler ∧
      handler.client = some i ∧ (gone = .finished ∨ gone = .panicked) ∧
        (s.settle i).handlers = s.handlers.set c gone := by
  cases stands : s.world.phases[i]? with
  | none =>
    rw [World.phases, List.getElem?_map] at stands
    left
    rw [settle, stands]
    split <;> simp_all
  | some phase =>
    rcases settle_cases stands with ⟨-, same⟩ | ⟨-, ⟨same, -⟩ | ⟨c, handler, here, client, same⟩⟩
    · exact .inl (congrArg handlers same)
    · exact .inl (congrArg handlers same)
    · right
      rcases same with same | same
      · exact ⟨c, handler, .panicked, here, client, .inr rfl, congrArg handlers same⟩
      · exact ⟨c, handler, .finished, here, client, .inl rfl, congrArg handlers same⟩

theorem settle_world (s : Server) (i : Nat) : (s.settle i).world = s.world := by
  rw [settle]
  split <;> rfl

structure Gauged (s : Server) : Prop where
  total : s.clientConnectionsTotal = s.handlers.countP Handler.counted
  active : s.clientConnectionsActive = s.handlers.countP Handler.active

theorem Gauged.set {s : Server} (gauged : Gauged s) {c : Nat} {old : Handler} (new : Handler)
    (here : s.handlers[c]? = some old) (counted : new.counted = old.counted) (active : new.active = old.active) :
    Gauged (s.setHandler c new) := by
  have all := Tally.countP_set Handler.counted new here
  have now := Tally.countP_set Handler.active new here
  rw [counted] at all
  rw [active] at now
  constructor
  · simp only [setHandler, gauged.total]
    omega
  · simp only [setHandler, gauged.active]
    omega

theorem Gauged.finish {s : Server} (gauged : Gauged s) {c : Nat} {old : Handler} (here : s.handlers[c]? = some old)
    (counted : old.counted = true) (active : old.active = true) : Gauged (s.finish c) := by
  have all := Tally.countP_set Handler.counted .finished here
  have now := Tally.countP_set Handler.active .finished here
  rw [counted] at all
  rw [active] at now
  simp only [Handler.counted, Handler.active, Bool.toNat_true, Bool.toNat_false] at all now
  constructor
  · simp only [Server.finish, setHandler, gauged.total]
    omega
  · simp only [Server.finish, setHandler, gauged.active]
    omega

/-- Each client whose `handle_client` has not returned has one handler, and no other client has any. -/
structure Seated (handlers : List Handler) (phases : List Phase) : Prop where
  each : ∀ i, handlers.countP (·.client = some i) = ((phases[i]?).any Phase.running).toNat
  all : handlers.countP (·.client.isSome) = phases.countP Phase.running

namespace Seated

variable {handlers : List Handler} {phases : List Phase} {c i : Nat} {old new : Handler} {before after : Phase}

theorem outside (seated : Seated handlers phases) (here : handlers[c]? = some old) (was : old.client = none)
    (is : new.client = none) : Seated (handlers.set c new) phases := by
  have count := Tally.countP_set (·.client.isSome) new here
  simp only [was, is] at count
  refine ⟨fun j => ?_, by rw [← seated.all]; exact Nat.add_right_cancel count⟩
  have each := Tally.countP_set (fun handler : Handler => decide (handler.client = some j)) new here
  simp only [was, is] at each
  rw [← seated.each j]
  exact Nat.add_right_cancel each

theorem enters (seated : Seated handlers phases) (here : handlers[c]? = some old) (was : old.client = none)
    (is : new.client = some phases.length) (running : after.running = true) :
    Seated (handlers.set c new) (phases ++ [after]) := by
  have count := Tally.countP_set (·.client.isSome) new here
  simp only [was, is, Option.isSome_none, Option.isSome_some, Bool.toNat_true, Bool.toNat_false, seated.all] at count
  refine ⟨fun j => ?_, by simpa [running] using count⟩
  have each := Tally.countP_set (fun handler : Handler => decide (handler.client = some j)) new here
  simp only [was, is, seated.each j] at each
  rcases Nat.lt_trichotomy j phases.length with less | rfl | more
  · have differs : phases.length ≠ j := by omega
    simpa [List.getElem?_append_left less, differs] using each
  · simpa [running] using each
  · have differs : phases.length ≠ j := by omega
    have beyond : (phases ++ [after])[j]? = none := by simp; omega
    have none : phases[j]? = none := by simp; omega
    simpa [beyond, none, differs] using each

theorem stays (seated : Seated handlers phases) (there : phases[i]? = some before) (was : before.running = true)
    (is : after.running = true) : Seated handlers (phases.set i after) := by
  have count := Tally.countP_set Phase.running after there
  rw [was, is] at count
  refine ⟨fun j => ?_, by rw [seated.all]; exact (Nat.add_right_cancel count).symm⟩
  rw [seated.each j]
  by_cases same : i = j
  · subst same
    obtain ⟨bound, rfl⟩ := List.getElem?_eq_some_iff.mp there
    simp [bound, was, is]
  · rw [List.getElem?_set_ne same]

theorem leaves (seated : Seated handlers phases) (there : phases[i]? = some before) (was : before.running = true)
    (is : after.running = false) (here : handlers[c]? = some old) (mine : old.client = some i)
    (gone : new.client = none) : Seated (handlers.set c new) (phases.set i after) := by
  have count := Tally.countP_set Phase.running after there
  have inside := Tally.countP_set (·.client.isSome) new here
  simp only [was, is, mine, gone, Option.isSome_none, Option.isSome_some, Bool.toNat_true, Bool.toNat_false,
    seated.all] at count inside
  refine ⟨fun j => ?_, by omega⟩
  have each := Tally.countP_set (fun handler : Handler => decide (handler.client = some j)) new here
  simp only [mine, gone, seated.each j] at each
  by_cases same : i = j
  · subst same
    obtain ⟨bound, rfl⟩ := List.getElem?_eq_some_iff.mp there
    rw [List.getElem?_eq_getElem bound, Option.any_some, was] at each
    rw [List.getElem?_set_self bound, Option.any_some, is]
    simpa using each
  · rw [List.getElem?_set_ne same]
    simpa [same] using each

end Seated

structure Attended (s : Server) : Prop where
  sound : World.Sound s.world
  gauged : Gauged s
  seated : Seated s.handlers s.world.phases

theorem attended_initial : Attended {} := ⟨World.sound_initial, ⟨rfl, rfl⟩, ⟨fun _ => rfl, rfl⟩⟩

theorem Handler.of_client {handler : Handler} {i : Nat} (is : handler.client = some i) :
    handler.counted = true ∧ handler.active = true := by
  cases handler with
  | inside arrival j => exact ⟨rfl, rfl⟩
  | _ => simp [Handler.client] at is

theorem step_attended {cfg : Config} {tls : Bool} (s : Server) (a : ServerAction) (t : Server)
    (attended : Attended s) (stepped : step cfg tls s a = some t) : Attended t := by
  obtain ⟨sound, gauged, seated⟩ := attended
  cases step_steps stepped with
  | accept =>
    refine ⟨sound, ⟨?_, ?_⟩, ⟨fun i => ?_, ?_⟩⟩
    · simpa [Handler.counted] using gauged.total
    · simpa [Handler.active] using gauged.active
    · simpa [Handler.client] using seated.each i
    · simpa [Handler.client] using seated.all
  | start c nodelay here =>
    have all := Tally.countP_set Handler.counted (.arriving {}) here
    have now := Tally.countP_set Handler.active (.arriving {}) here
    simp only [Handler.counted, Handler.active, Bool.toNat_true, Bool.toNat_false] at all now
    refine ⟨sound, ⟨?_, ?_⟩, seated.outside here rfl rfl⟩
    · simp only [setHandler, gauged.total]
      omega
    · simp only [setHandler, gauged.active]
      omega
  | startLost c nodelay here =>
    have all := Tally.countP_set Handler.counted .finished here
    have now := Tally.countP_set Handler.active .finished here
    simp only [Handler.counted, Handler.active, Bool.toNat_true, Bool.toNat_false] at all now
    refine ⟨sound, ⟨?_, ?_⟩, seated.outside here rfl rfl⟩
    · simp only [setHandler, gauged.total]
      omega
    · simp only [setHandler, gauged.active]
      omega
  | wait c result written backendKey before here =>
    exact ⟨sound, gauged.set _ here rfl rfl, seated.outside here rfl rfl⟩
  | arrive c result written backendKey before startupInfo w here stage arrived =>
    have counts := gauged.set (.inside (before.pass cfg tls result noLoads) s.world.clients.length) here rfl rfl
    refine ⟨World.sound_step _ _ _ sound arrived, ⟨counts.total, counts.active⟩, ?_⟩
    rcases World.step_phases sound arrived with ⟨-, grown⟩ | ⟨i, _, _, whose, -⟩
    · have next : s.world.clients.length = s.world.phases.length := by simp [World.phases]
      simp only [grown, World.newPhases, setHandler, next]
      exact seated.enters here rfl rfl rfl
    · cases whose
  | leave c result written backendKey before here =>
    exact ⟨sound, gauged.finish here rfl rfl, seated.outside here rfl rfl⟩
  | panic c result written backendKey before here =>
    exact ⟨sound, gauged.set _ here rfl rfl, seated.outside here rfl rfl⟩
  | shared a w nobody old moved =>
    refine ⟨World.sound_step _ _ _ sound moved, ⟨gauged.total, gauged.active⟩, ?_⟩
    rcases World.step_phases sound moved with ⟨-, same⟩ | ⟨i, _, _, whose, -⟩
    · rw [same, old, List.append_nil]
      exact seated
    · rw [nobody] at whose
      cases whose
  | serve a i w whose moved =>
    have fine := World.sound_step _ _ _ sound moved
    rcases World.step_phases sound moved with ⟨nobody, -⟩ | ⟨j, old, new, mine, there, was, set⟩
    · rw [nobody] at whose
      cases whose
    · obtain rfl := Option.some.inj (whose.symm.trans mine)
      have stands : w.phases[i]? = some new := by
        rw [set]
        exact List.getElem?_set_self (List.getElem?_eq_some_iff.mp there).1
      have counts : Gauged { s with world := w } := ⟨gauged.total, gauged.active⟩
      rcases settle_cases (s := { s with world := w }) stands with
        ⟨is, same⟩ | ⟨is, ⟨-, none⟩ | ⟨c, handler, here, client, same⟩⟩
      · rw [same]
        refine ⟨fine, counts, ?_⟩
        rw [set]
        exact seated.stays there was is
      · have one := seated.each i
        rw [none, there, Option.any_some, was] at one
        cases one
      · obtain ⟨counted, active⟩ := Handler.of_client client
        have left (gone : Handler) (out : gone.client = Option.none) : Seated (s.handlers.set c gone) w.phases := by
          rw [set]
          exact seated.leaves there was is here client out
        rcases same with same | same
        · rw [same]
          exact ⟨fine, counts.set _ here counted.symm active.symm, left _ rfl⟩
        · rw [same]
          exact ⟨fine, counts.finish here counted active, left _ rfl⟩

theorem countP_active (handlers : List Handler) :
    handlers.countP Handler.active = handlers.countP Handler.logsIn + handlers.countP (·.client.isSome) +
      handlers.countP (· = .panicked) := by
  induction handlers with
  | nil => rfl
  | cons handler rest ih =>
    simp only [List.countP_cons, ih]
    cases handler <;> simp [Handler.active, Handler.logsIn, Handler.client] <;> omega

theorem gauges_exact (cfg : Config) (tls : Bool) (actions : List ServerAction) :
    Always (step cfg tls) (fun s =>
      s.clientConnectionsTotal = s.handlers.countP Handler.counted ∧
        s.clientConnectionsActive = s.handlers.countP Handler.logsIn +
          s.world.clients.countP (·.phase.running) + s.handlers.countP (· = .panicked)) {} actions := by
  refine (always step_attended actions attended_initial).mono ?_
  rintro s ⟨-, gauged, seated⟩
  refine ⟨gauged.total, ?_⟩
  have all := seated.all
  rw [World.phases, List.countP_map] at all
  rw [gauged.active, countP_active, all]
  simp [Function.comp_def]

theorem panicked_set {handlers : List Handler} {c : Nat} {old : Handler} (new : Handler)
    (here : handlers[c]? = some old) (alive : old ≠ .panicked) :
    handlers.countP (· = .panicked) ≤ (handlers.set c new).countP (· = .panicked) := by
  have count := Tally.countP_set (fun handler => decide (handler = .panicked)) new here
  rw [decide_eq_false alive, Bool.toNat_false, Nat.add_zero] at count
  rw [count]
  exact Nat.le_add_right _ _

theorem settle_panicked (s : Server) (i : Nat) :
    s.handlers.countP (· = .panicked) ≤ (s.settle i).handlers.countP (· = .panicked) := by
  rcases settle_handlers s i with same | ⟨c, handler, gone, here, client, -, set⟩
  · rw [same]
  · rw [set]
    apply panicked_set gone here
    rintro rfl
    cases client

theorem step_panicked {cfg : Config} {tls : Bool} {s t : Server} {a : ServerAction}
    (stepped : step cfg tls s a = some t) :
    s.handlers.countP (· = .panicked) ≤ t.handlers.countP (· = .panicked) := by
  cases step_steps stepped with
  | accept => simp
  | start c nodelay here => exact panicked_set _ here (by simp)
  | startLost c nodelay here => exact panicked_set _ here (by simp)
  | wait c result written backendKey before here => exact panicked_set _ here (by simp)
  | arrive c result written backendKey before startupInfo w here stage arrived => exact panicked_set _ here (by simp)
  | leave c result written backendKey before here => exact panicked_set _ here (by simp)
  | panic c result written backendKey before here => exact panicked_set _ here (by simp)
  | shared a w nobody old moved => exact Nat.le_refl _
  | serve a i w whose moved => exact settle_panicked { s with world := w } i

theorem gauge_never_recovers {cfg : Config} {tls : Bool} {actions : List ServerAction} {s : Server}
    (reached : run (step cfg tls) {} actions = some s) (more : List ServerAction) :
    Always (step cfg tls) (fun u => (s.handlers.countP (· = .panicked) : Int) ≤ u.clientConnectionsActive) s more := by
  have now := invariant step_attended attended_initial reached
  let inv (u : Server) : Prop :=
    Attended u ∧ s.handlers.countP (· = .panicked) ≤ u.handlers.countP (· = .panicked)
  have kept : Always (step cfg tls) inv s more := by
    refine always ?_ more ⟨now, Nat.le_refl _⟩
    rintro u a v ⟨attended, most⟩ stepped
    exact ⟨step_attended u a v attended stepped, most.trans (step_panicked stepped)⟩
  refine kept.mono ?_
  rintro u ⟨⟨-, gauged, -⟩, most⟩
  rw [gauged.active, countP_active]
  omega

-- The name of its only parameter has no end.
def unterminated : Bytes := putI32 9 ++ putI32 196608 ++ asBytes "a"

theorem gauge_never_recovers_unterminated : ∃ s,
    run (step {} false) {} [.accept, .start 0 (.ok ()), .read 0 (.ok unterminated) (.ok ()) (0, 0)] = some s ∧
      ∀ more, Always (step {} false) (fun u => 1 ≤ u.clientConnectionsActive) s more := by
  obtain ⟨s, ran, one⟩ : ∃ s,
      run (step {} false) {} [.accept, .start 0 (.ok ()), .read 0 (.ok unterminated) (.ok ()) (0, 0)] = some s ∧
        s.handlers.countP (· = .panicked) = 1 := exists_run (by decide)
  refine ⟨s, ran, fun more => ?_⟩
  have least := gauge_never_recovers ran more
  rwa [one] at least

end Server

end PgMux
