import PgMux.Client.Callers

set_option autoImplicit false

namespace PgMux

/-- A client with its tenant, its phase, and what its task owns. -/
structure Seat where
  key : PoolKey
  phase : Phase
  kind : Kind
deriving DecidableEq

inductive Seat.Goes (key : PoolKey) : Seat → Seat → Prop
  | waits : Goes key ⟨key, .acquiring, .pending⟩ ⟨key, .acquiring, .pending⟩
  | admitted (left : List Bytes) : Goes key ⟨key, .acquiring, .pending⟩ ⟨key, .greeting left, .holding⟩
  | refused (error : AcquireError) (message : Bytes) :
      Goes key ⟨key, .acquiring, .pending⟩ ⟨key, .refusing error message, .failed⟩
  -- `connect_backend` has panicked, and the task of the client with it.
  | panics : Goes key ⟨key, .acquiring, .pending⟩ ⟨key, .returned (some .panic), .panicked⟩
  | told (error : AcquireError) (message : Bytes) (last : HandlerError) :
      Goes key ⟨key, .refusing error message, .failed⟩ ⟨key, .returned (some last), .failed⟩
  | greets (left rest : List Bytes) : Goes key ⟨key, .greeting left, .holding⟩ ⟨key, .greeting rest, .holding⟩
  | serves (left : List Bytes) (id : Nat) (proxy : Proxy) :
      Goes key ⟨key, .greeting left, .holding⟩ ⟨key, .proxying id proxy, .holding⟩
  | proxies (id : Nat) (proxy q : Proxy) :
      Goes key ⟨key, .proxying id proxy, .holding⟩ ⟨key, .proxying id q, .holding⟩
  | finishes (id : Nat) (proxy : Proxy) : Goes key ⟨key, .proxying id proxy, .holding⟩ ⟨key, .releasing, .resetting⟩
  | finishesAlone (id : Nat) (proxy : Proxy) :
      Goes key ⟨key, .proxying id proxy, .holding⟩ ⟨key, .returned none, .released⟩
  | releases : Goes key ⟨key, .releasing, .resetting⟩ ⟨key, .returned none, .released⟩
  -- The early returns, which keep the connection.
  | breaksOff (old : Phase) (served : old.served = true) (last : HandlerError) :
      Goes key ⟨key, old, .holding⟩ ⟨key, .returned (some last), .holding⟩

-- `handle_client` has not returned.
def Phase.running : Phase → Bool
  | .returned _ => false
  | _ => true

theorem Seat.Goes.running {key : PoolKey} {old new : Seat} (goes : Goes key old new) : old.phase.running = true := by
  cases goes with
  | breaksOff old served last => cases old <;> simp_all [Phase.served, Phase.running]
  | _ => rfl

-- Whose task the step belongs to, if it is one of `handle_client`.
def WorldAction.client : WorldAction → Option Nat
  | .poll i | .expire i | .connected i _ | .refuse i _ | .greet i _ | .turn i _ | .breaks i _ _ _ | .reset i _ => some i
  | .arrive _ _ | .tick _ | .check _ _ => none

namespace World

def seats (w : World) : List Seat :=
  List.zipWith (fun client task => ⟨client.settings.poolKey, client.phase, task.kind⟩) w.clients w.pools.tasks

theorem seats_getElem? (w : World) (i : Nat) :
    w.seats[i]? = (w.clients[i]?).bind fun client =>
      (w.view i).map fun v => ⟨client.settings.poolKey, v.phase, v.kind⟩ := by
  rw [seats, List.getElem?_zipWith, view, System.kind]
  cases w.clients[i]? with
  | none => rfl
  | some client => cases w.pools.tasks[i]? <;> rfl

theorem stands_seats {w : World} (length : w.clients.length = w.pools.tasks.length) :
    w.seats.map (fun seat => (seat.key, seat.phase)) =
      w.clients.map (fun client => (client.settings.poolKey, client.phase)) := by
  rw [seats, List.map_zipWith]
  apply List.ext_getElem?
  intro i
  rw [List.getElem?_zipWith, List.getElem?_map]
  cases here : w.clients[i]? with
  | none => rfl
  | some client =>
    have bound := (List.getElem?_eq_some_iff.mp here).1
    rw [length] at bound
    rw [List.getElem?_eq_getElem bound]
    rfl

def Moved (w : World) (i : Nat) (t : World) : Prop :=
  ∃ key old new, w.seats[i]? = some old ∧ t.seats = w.seats.set i new ∧ Seat.Goes key old new

theorem keys_of_calls {w t : World} (calls : t.clients.map Client.call = w.clients.map Client.call) (j : Nat) :
    (t.clients[j]?).map (·.settings.poolKey) = (w.clients[j]?).map (·.settings.poolKey) := by
  have same := congrArg (fun calls : List AcquireCall => (calls[j]?).map AcquireCall.key) calls
  simpa [Function.comp_def, Client.call] using same

theorem Changes.moved {w t : World} {i : Nat} {v new : View} (changes : Changes w t i new)
    (calls : t.clients.map Client.call = w.clients.map Client.call) (seen : w.view i = some v)
    (goes : ∀ key, Seat.Goes key ⟨key, v.phase, v.kind⟩ ⟨key, new.phase, new.kind⟩) : Moved w i t := by
  obtain ⟨client, here, -⟩ := view_some seen
  have at_i : w.seats[i]? = some ⟨client.settings.poolKey, v.phase, v.kind⟩ := by
    simp [seats_getElem?, here, seen]
  refine ⟨client.settings.poolKey, _, _, at_i, ?_, goes _⟩
  apply List.ext_getElem?
  intro j
  have keys := keys_of_calls calls j
  by_cases same : i = j
  · subst same
    have bound := (List.getElem?_eq_some_iff.mp at_i).1
    rw [List.getElem?_set_self bound, seats_getElem?, changes.here]
    rw [here] at keys
    obtain ⟨after, there, key⟩ := Option.map_eq_some_iff.mp keys
    simp [there, key]
  · rw [List.getElem?_set_ne same, seats_getElem?, seats_getElem?, changes.others j (Ne.symm same)]
    cases before : w.clients[j]? with
    | none =>
      rw [before] at keys
      rw [Option.map_eq_none_iff.mp keys]
    | some old =>
      rw [before] at keys
      obtain ⟨after, there, key⟩ := Option.map_eq_some_iff.mp keys
      simp [there, key]

theorem afterAcquire_phase {w : World} {i : Nat} {client last : Client} (here : w.clients[i]? = some client)
    (there : (w.afterAcquire i).clients[i]? = some last) :
    last.phase = client.phase ∨ (∃ left, last.phase = .greeting left) ∨
      (∃ error message, last.phase = .refusing error message) ∨
        last.phase = .returned (some .panic) ∧ w.pools.kind i = some .panicked := by
  have placed (phase : Phase) (next : World) (same : next.clients = (w.setPhase i phase).clients)
      (found : next.clients[i]? = some last) : last.phase = phase := by
    rw [same] at found
    simp only [setPhase, List.getElem?_modify_eq, here, Option.map_eq_map, Option.map_some] at found
    rw [← Option.some.inj found]
  rw [afterAcquire] at there
  split at there
  · rename_i other call stream found holds
    refine .inr (.inl ⟨_, placed (.greeting (greetingFor other.backendKey)) _ ?_ there⟩)
    dsimp only
    split <;> rfl
  · exact .inr (.inr (.inl ⟨_, _, placed _ _ rfl there⟩))
  · rename_i task
    exact .inr (.inr (.inr ⟨placed _ _ rfl there, by simp [System.kind, task, Task.kind]⟩))
  · rw [here] at there
    exact .inl (congrArg Client.phase (Option.some.inj there).symm)

theorem acquired_moved {w : World} (linked : Linked w) {pools : System} {i : Nat} {new : Kind}
    (becomes : System.Becomes w.pools pools i .pending new)
    (kinds : new.ofAcquire = true) : Moved w i ({ w with pools := pools }.afterAcquire i) := by
  obtain ⟨v, changes, after, -⟩ := acquired_advances linked becomes kinds
  obtain ⟨u, seen, pending⟩ := linked.task becomes.before
  have before := linked.fits i u seen
  have phase : u.phase = .acquiring := by
    cases phase : u.phase <;> simp_all [View.Fits]
  have fits := after.fits i v changes.here
  refine changes.moved (calls_afterAcquire ..) seen fun key => ?_
  obtain ⟨client, here, -, stood⟩ := view_some seen
  obtain ⟨last, there, is, stands⟩ := view_some changes.here
  have old : client.phase = .acquiring := by rw [← phase, stood]
  have same : v.phase = last.phase := by rw [stands]
  rw [phase, pending]
  rw [View.Fits, same] at fits
  obtain ends | ⟨left, ends⟩ | ⟨error, message, ends⟩ | ⟨ends, panicked⟩ :=
    afterAcquire_phase (w := { w with pools := pools }) here there
  · rw [ends, old] at fits same
    rw [same, fits.1]
    exact .waits
  · rw [ends] at fits same
    rw [same, fits.1]
    exact .admitted left
  · rw [ends] at fits same
    rw [same, fits.1]
    exact .refused error message
  · rw [afterAcquire_pools, panicked] at is
    rw [same, ends, ← Option.some.inj is]
    exact .panics

theorem Linked.at_phase {w : World} (linked : Linked w) {i : Nat} {client : Client}
    (here : w.clients[i]? = some client) : ∃ v, w.view i = some v ∧ v.phase = client.phase ∧ v.Fits := by
  obtain ⟨v, seen, phase, -⟩ := linked.seen here
  exact ⟨v, seen, phase, linked.fits i v seen⟩

theorem setPhase_moved {w : World} {i : Nat} {v : View} (seen : w.view i = some v) (phase : Phase)
    (goes : ∀ key, Seat.Goes key ⟨key, v.phase, v.kind⟩ ⟨key, phase, v.kind⟩) : Moved w i (w.setPhase i phase) :=
  (changes_setPhase seen phase).moved (calls_setPhase ..) seen goes

theorem finish_moved {cfg : PoolConfig} {w t : World} (linked : Linked w) {i id : Nat} {client : Client}
    {proxy : Proxy} (here : w.clients[i]? = some client) (phase : client.phase = .proxying id proxy)
    (finished : w.finish cfg i id = some t) : Moved w i t := by
  obtain ⟨v, seen, same, holds, named⟩ := linked.proxying here phase
  obtain ⟨pools, released, rfl⟩ := Option.map_eq_some_iff.mp finished
  obtain ⟨new, becomes, kinds⟩ := System.release_kind released
  have apart := (linked.kept seen id named).2
  have moved := changes_pools seen becomes
  have gone := changes_unregister moved.here named (fun j u differs seen' =>
    apart j u differs (by rwa [moved.others j differs] at seen'))
  have both := moved.trans gone
  obtain ⟨task, there, is⟩ := Option.map_eq_some_iff.mp becomes.after
  obtain rfl | rfl := kinds
  · cases task with
    | resetting call stream =>
      simp only [there]
      refine (both.trans (changes_setPhase both.here .releasing)).moved (calls_setPhase ..) seen fun key => ?_
      rw [same, holds]
      exact .finishes id proxy
    | _ => simp [Task.kind] at is
  · cases task with
    | released call =>
      simp only [there]
      refine (both.trans (changes_setPhase both.here (.returned none))).moved (calls_setPhase ..) seen fun key => ?_
      rw [same, holds]
      exact .finishesAlone id proxy
    | _ => simp [Task.kind] at is

def newSeats (cfg : Config) : WorldAction → List Seat
  | .arrive startupInfo _ => [⟨(settingsFor cfg startupInfo).poolKey, .acquiring, .pending⟩]
  | _ => []

theorem step_moved {cfg : Config} {w t : World} {a : WorldAction} (linked : Linked w)
    (stepped : step cfg w a = some t) :
    (a.client = none ∧ t.seats = w.seats ++ newSeats cfg a) ∨ ∃ i, a.client = some i ∧ Moved w i t := by
  cases step_steps stepped with
  | arrive startupInfo backendKey =>
    refine .inl ⟨rfl, ?_⟩
    rw [seats, List.zipWith_append linked.length]
    rfl
  | tick elapsed | check connects queryOne => exact .inl ⟨rfl, (List.append_nil _).symm⟩
  | poll i pools moved =>
    obtain ⟨new, becomes, kinds⟩ := System.poll_kind moved
    exact .inr ⟨i, rfl, acquired_moved linked becomes kinds⟩
  | expire i pools moved =>
    exact .inr ⟨i, rfl, acquired_moved linked (System.expire_kind moved) rfl⟩
  | connected i result pools moved =>
    obtain ⟨new, becomes, kinds⟩ := System.connected_kind moved
    exact .inr ⟨i, rfl, acquired_moved linked becomes kinds⟩
  | refuse i client error message here phase | refuseLost i client error message cause here phase =>
    obtain ⟨v, seen, same, fits⟩ := linked.at_phase here
    rw [View.Fits, same, phase] at fits
    refine .inr ⟨i, rfl, setPhase_moved seen _ fun key => ?_⟩
    rw [same, phase, fits.1]
    exact .told error message _
  | greet i client first next left here phase =>
    obtain ⟨v, seen, same, fits⟩ := linked.at_phase here
    rw [View.Fits, same, phase] at fits
    refine .inr ⟨i, rfl, setPhase_moved seen _ fun key => ?_⟩
    rw [same, phase, fits.1]
    exact .greets _ _
  | greetLost i client left cause here phase =>
    obtain ⟨v, seen, same, fits⟩ := linked.at_phase here
    rw [View.Fits, same, phase] at fits
    refine .inr ⟨i, rfl, setPhase_moved seen _ fun key => ?_⟩
    rw [same, phase, fits.1]
    exact .breaksOff _ rfl _
  | serve i client left last here phase =>
    obtain ⟨v, seen, same, fits⟩ := linked.at_phase here
    rw [View.Fits, same, phase] at fits
    have calls : (w.startProxy i client).clients.map Client.call = w.clients.map Client.call := by
      rw [startProxy]
      exact calls_modify w.clients i _ fun _ => rfl
    refine .inr ⟨i, rfl, (changes_startProxy linked seen).moved calls seen fun key => ?_⟩
    rw [same, phase, fits.1]
    exact .serves _ _ _
  | turn i client id proxy q event here phase fine ends =>
    obtain ⟨v, seen, same, holds, -⟩ := linked.proxying here phase
    refine .inr ⟨i, rfl, setPhase_moved seen _ fun key => ?_⟩
    rw [same, holds]
    exact .proxies _ _ _
  | finish i client id proxy event t here phase fine finished =>
    exact .inr ⟨i, rfl, finish_moved linked here phase finished⟩
  | fail i client id proxy event error here phase fails ends =>
    obtain ⟨v, seen, same, holds, -⟩ := linked.proxying here phase
    refine .inr ⟨i, rfl, setPhase_moved seen _ fun key => ?_⟩
    rw [same, holds]
    exact .breaksOff _ rfl _
  | breaks i client id proxy event k cause here phase within =>
    obtain ⟨v, seen, same, holds, -⟩ := linked.proxying here phase
    refine .inr ⟨i, rfl, setPhase_moved seen _ fun key => ?_⟩
    rw [same, holds]
    exact .breaksOff _ rfl _
  | reset i result pools ended =>
    have becomes := System.reset_kind ended
    obtain ⟨v, seen, resetting⟩ := linked.task becomes.before
    have fits := linked.fits i v seen
    have phase : v.phase = .releasing := by
      cases phase : v.phase <;> simp_all [View.Fits]
    have moved := changes_pools seen becomes
    have both := moved.trans (changes_setPhase moved.here (.returned none))
    refine .inr ⟨i, rfl, both.moved (calls_setPhase ..) seen fun key => ?_⟩
    rw [phase, resetting]
    exact .releases

def phases (w : World) : List Phase := w.clients.map Client.phase

theorem phases_seats {w : World} (length : w.clients.length = w.pools.tasks.length) :
    w.seats.map Seat.phase = w.phases := by
  have same := congrArg (List.map Prod.snd) (stands_seats length)
  simpa [Function.comp_def, phases] using same

def newPhases : WorldAction → List Phase
  | .arrive _ _ => [.acquiring]
  | _ => []

theorem step_phases {cfg : Config} {w t : World} {a : WorldAction} (sound : Sound w) (stepped : step cfg w a = some t) :
    (a.client = none ∧ t.phases = w.phases ++ newPhases a) ∨
      ∃ i old new, a.client = some i ∧ w.phases[i]? = some old ∧ old.running = true ∧ t.phases = w.phases.set i new := by
  have before := phases_seats sound.linked.length
  have after := phases_seats (sound_step _ _ _ sound stepped).linked.length
  rw [← before, ← after]
  rcases step_moved sound.linked stepped with ⟨nobody, grown⟩ | ⟨i, whose, key, old, new, here, set, goes⟩
  · refine .inl ⟨nobody, ?_⟩
    rw [grown, List.map_append]
    cases a <;> rfl
  · refine .inr ⟨i, old.phase, new.phase, whose, by simp [here], goes.running, ?_⟩
    rw [set, List.map_set]

end World

end PgMux
