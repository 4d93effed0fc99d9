import PgMux.Client.GivingBack
import PgMux.Pool.Callers

set_option autoImplicit false

namespace PgMux

def Client.call (client : Client) : AcquireCall where
  key := client.settings.poolKey
  password := client.settings.startupInfo.password
  extraParams := client.settings.startupInfo.extraParams

-- From the first message behind `acquire` up to the end of the proxy loops.
def Phase.served : Phase → Bool
  | .greeting _ | .proxying _ _ => true
  | _ => false

namespace World

open Transition

def Called (w : World) : Prop := w.pools.tasks.map Task.caller = w.clients.map Client.call

theorem calls_modify (clients : List Client) (i : Nat) (change : Client → Client)
    (same : ∀ client, (change client).call = client.call) :
    (clients.modify i change).map Client.call = clients.map Client.call := by
  apply List.ext_getElem?
  intro j
  simp only [List.getElem?_map, List.getElem?_modify]
  cases clients[j]? with
  | none => rfl
  | some client =>
    simp only [Option.map_eq_map, Option.map_some]
    split
    · rw [same]
    · rfl

theorem calls_setPhase (w : World) (i : Nat) (phase : Phase) :
    (w.setPhase i phase).clients.map Client.call = w.clients.map Client.call :=
  calls_modify _ _ _ fun _ => rfl

theorem calls_afterAcquire (w : World) (i : Nat) :
    (w.afterAcquire i).clients.map Client.call = w.clients.map Client.call := by
  rw [afterAcquire]
  split
  · split <;> exact calls_setPhase ..
  · exact calls_setPhase ..
  · exact calls_setPhase ..
  · rfl

def newCalls (cfg : Config) : WorldAction → List AcquireCall
  | .arrive startupInfo _ =>
    [⟨(settingsFor cfg startupInfo).poolKey, startupInfo.password, startupInfo.extraParams⟩]
  | _ => []

theorem step_calls {cfg : Config} {w t : World} {a : WorldAction} (stepped : step cfg w a = some t) :
    t.clients.map Client.call = w.clients.map Client.call ++ newCalls cfg a ∧
      t.pools.tasks.map Task.caller = w.pools.tasks.map Task.caller ++ newCalls cfg a := by
  cases step_steps stepped with
  | arrive startupInfo backendKey => exact ⟨List.map_append, List.map_append⟩
  | tick elapsed | check connects queryOne => exact ⟨(List.append_nil _).symm, (List.append_nil _).symm⟩
  | poll i pools moved | expire i pools moved | connected i result pools moved =>
    rw [calls_afterAcquire, afterAcquire_pools]
    exact ⟨(List.append_nil _).symm, System.step_callers moved⟩
  | serve i client left last here phase =>
    have same : (w.startProxy i client).clients.map Client.call = w.clients.map Client.call := by
      rw [startProxy]
      exact calls_modify w.clients i _ fun _ => rfl
    exact ⟨same.trans (List.append_nil _).symm, (List.append_nil _).symm⟩
  | finish i client id proxy event _ here phase fine finished =>
    obtain ⟨pools, released, rfl⟩ := Option.map_eq_some_iff.mp finished
    have callers := System.step_callers released
    split
    · exact ⟨(calls_setPhase ..).trans (List.append_nil _).symm, callers⟩
    · exact ⟨(calls_setPhase ..).trans (List.append_nil _).symm, callers⟩
  | reset i result pools ended =>
    exact ⟨(calls_setPhase ..).trans (List.append_nil _).symm, System.step_callers ended⟩
  | _ => exact ⟨(calls_setPhase ..).trans (List.append_nil _).symm, (List.append_nil _).symm⟩

theorem step_called {cfg : Config} (w : World) (a : WorldAction) (t : World) (called : Called w)
    (stepped : step cfg w a = some t) : Called t := by
  obtain ⟨clients, tasks⟩ := step_calls stepped
  rw [Called, clients, tasks, called]

theorem Called.caller {w : World} (called : Called w) {i : Nat} {client : Client} {task : Task}
    (here : w.clients[i]? = some client) (there : w.pools.tasks[i]? = some task) : task.caller = client.call := by
  have same := congrArg (·[i]?) called
  simpa [here, there] using same

theorem called_initial : Called {} := rfl

def backend (w : World) (i : Nat) : Option TcpStream := w.pools.tasks[i]?.bind Task.stream?

theorem Linked.served {w : World} (linked : Linked w) (called : Called w) {i : Nat} {client : Client}
    (here : w.clients[i]? = some client) (served : client.phase.served = true) :
    ∃ stream, w.pools.tasks[i]? = some (.holding client.call stream) := by
  obtain ⟨v, seen, phase, kind⟩ := linked.seen here
  have fits := linked.fits i v seen
  have holds : v.kind = .holding := by
    rw [View.Fits, phase] at fits
    cases stands : client.phase with
    | greeting left =>
      rw [stands] at fits
      exact fits.1
    | proxying id proxy =>
      rw [stands] at fits
      exact fits.1
    | _ => simp [Phase.served, stands] at served
  obtain ⟨task, there, is⟩ := Option.map_eq_some_iff.mp kind
  cases task with
  | holding call stream => exact ⟨stream, called.caller here there ▸ there⟩
  | _ => simp [Task.kind, holds] at is

theorem backend_apart {w : World} (owned : w.pools.Owned) {i j : Nat} (differs : j ≠ i) {stream other : TcpStream}
    (here : w.backend i = some stream) (there : w.backend j = some other) : other.id ≠ stream.id := by
  intro same
  obtain ⟨task, at_i, mine⟩ := Option.bind_eq_some_iff.mp here
  obtain ⟨second, at_j, theirs⟩ := Option.bind_eq_some_iff.mp there
  have least := Tally.add_le_overList (Task.owns stream.id) differs at_i at_j
  have first : task.owns stream.id = 1 := by simp [Task.owns, mine]
  have both : second.owns stream.id = 1 := by simp [Task.owns, theirs, same]
  have once : w.pools.owners stream.id ≤ 1 := (owned.once stream.id).trans (by split <;> omega)
  simp only [System.owners] at once
  omega

theorem step_owned {cfg : Config} (w : World) (a : WorldAction) (t : World) (owned : w.pools.Owned)
    (stepped : step cfg w a = some t) : t.pools.Owned := by
  obtain same | ⟨b, moved⟩ := step_pools stepped
  · rwa [same]
  · exact System.step_invariant System.owned_move System.owned_start _ _ _ _ owned moved

theorem served_isolated (cfg : Config) (actions : List WorldAction) :
    Always (step cfg) (fun w => ∀ (i : Nat) (client : Client), w.clients[i]? = some client →
      client.phase.served = true → ∃ stream, w.backend i = some stream ∧ stream ∈ w.pools.opened ∧
        stream.key = client.settings.poolKey ∧ stream.id ∉ w.pools.idleIds ∧
        ∀ j other, j ≠ i → w.backend j = some other → other.id ≠ stream.id) {} actions := by
  have sound : Always (step cfg) Sound {} actions := always sound_step actions sound_initial
  have called : Always (step cfg) Called {} actions := always step_called actions called_initial
  have owned : Always (step cfg) (fun w => w.pools.Owned) {} actions :=
    always step_owned actions System.owned_initial
  refine ((sound.and called).and owned).mono ?_
  rintro w ⟨⟨sound, called⟩, owned⟩ i client here served
  obtain ⟨stream, there⟩ := sound.linked.served called here served
  have mine : w.backend i = some stream := by simp [backend, there, Task.stream?]
  have fits : stream ∈ w.pools.opened ∧ stream.key = client.settings.poolKey := owned.here there
  refine ⟨stream, mine, fits.1, fits.2, ?_, fun j other differs => backend_apart owned differs mine⟩
  intro idle
  have counted := List.count_pos_iff.mpr idle
  have least := Tally.le_overList (Task.owns stream.id) there
  have once : w.pools.owners stream.id ≤ 1 := (owned.once stream.id).trans (by split <;> omega)
  have one : (Task.holding client.call stream).owns stream.id = 1 := by simp [Task.owns, Task.stream?]
  rw [System.count_idleIds] at counted
  simp only [System.owners] at once
  omega

end World

end PgMux
