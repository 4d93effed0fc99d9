import PgMux.Pool.Poll
import PgMux.Proxy.Drains
import PgMux.Client.World

set_option autoImplicit false

namespace PgMux

inductive Kind where
  | pending
  | holding
  | resetting
  | failed
  | released
  | panicked
deriving DecidableEq, Repr

-- The caller has not come past `acquire`, or only just.
def Kind.ofAcquire : Kind → Bool
  | .resetting | .released => false
  | _ => true

def Task.kind : Task → Kind
  | .called _ | .waiting _ _ _ | .connecting _ => .pending
  | .holding _ _ => .holding
  | .resetting _ _ => .resetting
  | .failed _ _ => .failed
  | .released _ => .released
  | .panicked _ => .panicked

namespace System

def kind (s : System) (i : Nat) : Option Kind := s.tasks[i]?.map Task.kind

structure Becomes (s t : System) (i : Nat) (old new : Kind) : Prop where
  before : s.kind i = some old
  after : t.kind i = some new
  others : ∀ j, j ≠ i → t.kind j = s.kind j
  length : t.tasks.length = s.tasks.length

theorem becomes_set {s t : System} {i : Nat} {old : Task} (new : Task)
    (here : s.tasks[i]? = some old) (tasks : t.tasks = s.tasks.set i new) :
    Becomes s t i old.kind new.kind := by
  have bound := (List.getElem?_eq_some_iff.mp here).1
  refine ⟨by simp [kind, here], ?_, fun j differs => ?_, by simp [tasks]⟩
  · simp [kind, tasks, bound]
  · simp [kind, tasks, List.getElem?_set_ne (Ne.symm differs)]

theorem kind_notify (task : Task) : task.notify.kind = task.kind := by
  cases task <;> rfl

theorem kind_notifyOne (s : System) (key : PoolKey) (j : Nat) : (s.notifyOne key).kind j = s.kind j := by
  rw [notifyOne]
  split
  · simp only [kind, List.getElem?_modify]
    cases s.tasks[j]? with
    | none => rfl
    | some task =>
      simp only [Option.map_eq_map, Option.map_some]
      split
      · rw [kind_notify]
      · rfl
  · rfl

theorem Becomes.notifyOne {s t : System} {i : Nat} {old new : Kind} (becomes : Becomes s t i old new)
    (key : PoolKey) : Becomes s (t.notifyOne key) i old new := by
  obtain ⟨before, after, others, length⟩ := becomes
  refine ⟨before, ?_, fun j differs => ?_, ?_⟩
  · rw [kind_notifyOne, after]
  · rw [kind_notifyOne, others j differs]
  · rw [System.notifyOne]
    split <;> simp [length]

theorem poll_kind {cfg : PoolConfig} {s t : System} {i : Nat} (stepped : step cfg s (.poll i) = some t) :
    ∃ new, Becomes s t i .pending new ∧ new.ofAcquire = true := by
  obtain ⟨old, call, before, new, here, asks, -, -, polled, -, tasks⟩ := poll_polled stepped
  have becomes := becomes_set new here tasks
  have pending : old.kind = .pending := by
    rw [asking, here] at asks
    cases old <;> simp_all [Task.asking, Task.kind]
  rw [pending] at becomes
  refine ⟨new.kind, becomes, ?_⟩
  generalize t.manager = after at polled
  cases polled with
  | reuse conn rest n fresh dropped => rfl
  | start _ empty room alike => rfl
  | wait _ _ empty full alike away => cases new <;> simp_all [Task.TurnedAway, Task.kind, Kind.ofAcquire]

theorem expire_kind {cfg : PoolConfig} {s t : System} {i : Nat}
    (stepped : step cfg s (.expire i) = some t) : Becomes s t i .pending .failed := by
  cases step_steps stepped with
  | expire _ call deadline notified here late =>
    rw [timeOut]
    split
    · exact (becomes_set (.failed call .timeout) here rfl).notifyOne call.key
    · exact becomes_set (.failed call .timeout) here rfl

theorem connected_kind {cfg : PoolConfig} {s t : System} {i : Nat} {result : Except ConnectError Unit}
    (stepped : step cfg s (.connected i result) = some t) :
    ∃ new, Becomes s t i .pending new ∧ new.ofAcquire = true := by
  cases step_steps stepped with
  | connected _ call here => exact ⟨.holding, becomes_set (.holding call _) here rfl, rfl⟩
  | refused _ call error here =>
    exact ⟨.failed, becomes_set (.failed call (.connect call.key error.text)) here rfl, rfl⟩
  | panicked _ call here => exact ⟨.panicked, becomes_set (.panicked call) here rfl, rfl⟩

theorem release_kind {cfg : PoolConfig} {s t : System} {i : Nat}
    (stepped : step cfg s (.release i) = some t) :
    ∃ new, Becomes s t i .holding new ∧ (new = .resetting ∨ new = .released) := by
  cases step_steps stepped with
  | release _ call stream pool here present =>
    exact ⟨.resetting, becomes_set (.resetting call stream) here rfl, .inl rfl⟩
  | lost _ call stream here gone =>
    exact ⟨.released, becomes_set (.released call) here rfl, .inr rfl⟩

theorem reset_kind {cfg : PoolConfig} {s t : System} {i : Nat} {result : Except String Unit}
    (stepped : step cfg s (.reset i result) = some t) : Becomes s t i .resetting .released := by
  cases step_steps stepped with
  | push _ call stream here => exact (becomes_set (.released call) here rfl).notifyOne call.key
  | drop _ call stream cause here => exact becomes_set (.released call) here rfl

end System

namespace World

inductive Steps (cfg : Config) (w : World) : WorldAction → World → Prop
  | arrive (startupInfo : ClientStartupInfo) (backendKey : Int × Int) :
      Steps cfg w (.arrive startupInfo backendKey) { w with
        pools := { w.pools with tasks := w.pools.tasks ++ [.called
          ⟨(settingsFor cfg startupInfo).poolKey, startupInfo.password, startupInfo.extraParams⟩] }
        clients := w.clients ++ [{ settings := settingsFor cfg startupInfo, backendKey := backendKey }] }
  | tick (elapsed : Nat) :
      Steps cfg w (.tick elapsed) { w with pools := { w.pools with now := w.pools.now + elapsed } }
  | poll (i : Nat) (pools : System) (polled : w.pools.step cfg.pool (.poll i) = some pools) :
      Steps cfg w (.poll i) ({ w with pools := pools }.afterAcquire i)
  | expire (i : Nat) (pools : System) (expired : w.pools.step cfg.pool (.expire i) = some pools) :
      Steps cfg w (.expire i) ({ w with pools := pools }.afterAcquire i)
  | connected (i : Nat) (result : Except ConnectError Unit) (pools : System)
      (ended : w.pools.step cfg.pool (.connected i result) = some pools) :
      Steps cfg w (.connected i result) ({ w with pools := pools }.afterAcquire i)
  | refuse (i : Nat) (client : Client) (error : AcquireError) (message : Bytes)
      (here : w.clients[i]? = some client) (phase : client.phase = .refusing error message) :
      Steps cfg w (.refuse i (.ok ())) (w.setPhase i (.returned (some (.backend error))))
  | refuseLost (i : Nat) (client : Client) (error : AcquireError) (message : Bytes) (cause : String)
      (here : w.clients[i]? = some client) (phase : client.phase = .refusing error message) :
      Steps cfg w (.refuse i (.error cause)) (w.setPhase i (.returned (some (.io cause))))
  | greet (i : Nat) (client : Client) (first next : Bytes) (left : List Bytes)
      (here : w.clients[i]? = some client) (phase : client.phase = .greeting (first :: next :: left)) :
      Steps cfg w (.greet i (.ok ())) (w.setPhase i (.greeting (next :: left)))
  | greetLost (i : Nat) (client : Client) (left : List Bytes) (cause : String)
      (here : w.clients[i]? = some client) (phase : client.phase = .greeting left) :
      Steps cfg w (.greet i (.error cause)) (w.setPhase i (.returned (some (.io cause))))
  | serve (i : Nat) (client : Client) (left : List Bytes) (last : left.length ≤ 1)
      (here : w.clients[i]? = some client) (phase : client.phase = .greeting left) :
      Steps cfg w (.greet i (.ok ())) (w.startProxy i client)
  | turn (i : Nat) (client : Client) (id : Nat) (proxy q : Proxy) (event : Event)
      (here : w.clients[i]? = some client) (phase : client.phase = .proxying id proxy)
      (fine : ¬ PassFails proxy event) (ends : passEnds client.settings proxy event = .proxying q) :
      Steps cfg w (.turn i event) (w.setPhase i (.proxying id q))
  | finish (i : Nat) (client : Client) (id : Nat) (proxy : Proxy) (event : Event) (t : World)
      (here : w.clients[i]? = some client) (phase : client.phase = .proxying id proxy)
      (fine : ¬ PassFails proxy event) (finished : w.finish cfg.pool i id = some t) :
      Steps cfg w (.turn i event) t
  | fail (i : Nat) (client : Client) (id : Nat) (proxy : Proxy) (event : Event) (error : ProxyError)
      (here : w.clients[i]? = some client) (phase : client.phase = .proxying id proxy)
      (fails : PassFails proxy event) (ends : passEnds client.settings proxy event = .failed error) :
      Steps cfg w (.turn i event) (w.setPhase i (.returned (some (.proxy error))))
  | breaks (i : Nat) (client : Client) (id : Nat) (proxy : Proxy) (event : Event) (k : Nat) (cause : String)
      (here : w.clients[i]? = some client) (phase : client.phase = .proxying id proxy)
      (within : k < (selectPass client.settings proxy event).2.1.length) :
      Steps cfg w (.breaks i event k cause) (w.setPhase i (.returned (some (.io cause))))
  | reset (i : Nat) (result : Except String Unit) (pools : System)
      (ended : w.pools.step cfg.pool (.reset i result) = some pools) :
      Steps cfg w (.reset i result) ({ w with pools := pools }.setPhase i (.returned none))
  | check (connects : Bool) (queryOne : String → Option Int) :
      Steps cfg w (.check connects queryOne)
        { w with monitor := w.monitor.checkAllSizes connects queryOne }

theorem step_steps {cfg : Config} {w t : World} {a : WorldAction} (stepped : step cfg w a = some t) :
    Steps cfg w a t := by
  cases a with
  | arrive startupInfo backendKey => exact Option.some.inj stepped ▸ .arrive startupInfo backendKey
  | tick elapsed => exact Option.some.inj stepped ▸ .tick elapsed
  | poll i =>
    obtain ⟨pools, polled, rfl⟩ := Option.map_eq_some_iff.mp stepped
    exact .poll i pools polled
  | expire i =>
    obtain ⟨pools, expired, rfl⟩ := Option.map_eq_some_iff.mp stepped
    exact .expire i pools expired
  | connected i result =>
    obtain ⟨pools, ended, rfl⟩ := Option.map_eq_some_iff.mp stepped
    exact .connected i result pools ended
  | refuse i written =>
    simp only [step] at stepped
    split at stepped
    · rename_i error message found
      obtain ⟨client, here, phase⟩ := Option.map_eq_some_iff.mp found
      split at stepped
      · exact Option.some.inj stepped ▸ .refuse i client error message here phase
      · exact Option.some.inj stepped ▸ .refuseLost i client error message _ here phase
    · simp at stepped
  | greet i written =>
    simp only [step] at stepped
    split at stepped
    · rename_i client here
      split at stepped
      · rename_i left cause phase
        exact Option.some.inj stepped ▸ .greetLost i client left cause here phase
      · rename_i first next left phase
        exact Option.some.inj stepped ▸ .greet i client first next left here phase
      · rename_i left several phase
        have last : left.length ≤ 1 := by
          rcases left with - | ⟨first, - | ⟨next, left⟩⟩
          · simp
          · simp
          · exact (several first next left rfl).elim
        exact Option.some.inj stepped ▸ .serve i client left last here phase
      · simp at stepped
    · simp at stepped
  | turn i event =>
    simp only [step] at stepped
    split at stepped
    · rename_i client here
      split at stepped
      · rename_i id proxy phase
        obtain ⟨fails, error, ends⟩ | ⟨fine, ⟨-, ends⟩ | ⟨q, ends⟩⟩ := pass_ends client.settings proxy event
        · have same := ends
          rw [passEnds] at same
          simp only [same] at stepped
          exact Option.some.inj stepped ▸ .fail i client id proxy event error here phase fails ends
        · rw [passEnds] at ends
          simp only [ends] at stepped
          exact .finish i client id proxy event t here phase fine stepped
        · have same := ends
          rw [passEnds] at same
          simp only [same] at stepped
          exact Option.some.inj stepped ▸ .turn i client id proxy q event here phase fine ends
      · simp at stepped
    · simp at stepped
  | breaks i event k cause =>
    simp only [step] at stepped
    split at stepped
    · rename_i client here
      split at stepped
      · rename_i id proxy phase
        split at stepped
        · rename_i within
          exact Option.some.inj stepped ▸ .breaks i client id proxy event k cause here phase within
        · simp at stepped
      · simp at stepped
    · simp at stepped
  | reset i result =>
    obtain ⟨pools, ended, rfl⟩ := Option.map_eq_some_iff.mp stepped
    exact .reset i result pools ended
  | check connects queryOne => exact Option.some.inj stepped ▸ .check connects queryOne

end World

structure View where
  phase : Phase
  kind : Kind
  sessionId : Option Nat
  registered : Bool

namespace View

def Fits (v : View) : Prop :=
  match v.phase with
  | .acquiring => v.kind = .pending ∧ v.registered = false
  | .refusing _ _ => v.kind = .failed ∧ v.registered = false
  | .greeting _ => v.kind = .holding ∧ v.registered = false
  | .proxying id _ => v.kind = .holding ∧ v.sessionId = some id
  | .releasing => v.kind = .resetting ∧ v.registered = false
  | .returned _ => v.kind ≠ .pending ∧ v.kind ≠ .resetting

def Settled (v : View) : Prop :=
  ∀ error, v.phase = .returned error → v.kind ≠ .holding ∧ v.registered = false

end View

namespace World

def entryOf (w : World) (sessionId : Option Nat) : Bool :=
  match sessionId with
  | some id => decide (w.monitor.Registered id)
  | none => false

def view (w : World) (i : Nat) : Option View :=
  match w.clients[i]?, w.pools.kind i with
  | some client, some kind => some ⟨client.phase, kind, client.sessionId, w.entryOf client.sessionId⟩
  | _, _ => none

-- Phases and tasks go together, and each session has an id of its own.
structure Linked (w : World) : Prop where
  length : w.clients.length = w.pools.tasks.length
  fits : ∀ i v, w.view i = some v → v.Fits
  below : ∀ i v id, w.view i = some v → v.sessionId = some id → id < w.monitor.sessionIdCounter
  apart : ∀ i j v u id, i ≠ j → w.view i = some v → w.view j = some u → v.sessionId = some id →
    u.sessionId ≠ some id

structure Changes (w t : World) (i : Nat) (new : View) : Prop where
  here : t.view i = some new
  others : ∀ j, j ≠ i → t.view j = w.view j

theorem view_congr {w t : World} {j : Nat} (clients : t.clients[j]? = w.clients[j]?)
    (kind : t.pools.kind j = w.pools.kind j)
    (entries : ∀ v id, w.view j = some v → v.sessionId = some id →
      (t.monitor.Registered id ↔ w.monitor.Registered id)) : t.view j = w.view j := by
  simp only [view, clients, kind] at entries ⊢
  cases here : w.clients[j]? with
  | none => rfl
  | some client =>
    cases there : w.pools.kind j with
    | none => rfl
    | some kind =>
      simp only [here, there] at entries
      have same : t.entryOf client.sessionId = w.entryOf client.sessionId := by
        cases named : client.sessionId with
        | none => rfl
        | some id => simp only [entryOf, entries _ id rfl named]
      simp only [same]

theorem view_some {w : World} {i : Nat} {v : View} (seen : w.view i = some v) :
    ∃ client, w.clients[i]? = some client ∧ w.pools.kind i = some v.kind ∧
      v = ⟨client.phase, v.kind, client.sessionId, w.entryOf client.sessionId⟩ := by
  simp only [view] at seen
  split at seen
  · rename_i client kind here there
    obtain rfl := Option.some.inj seen
    exact ⟨client, here, there, rfl⟩
  · simp at seen

theorem Linked.seen {w : World} (linked : Linked w) {i : Nat} {client : Client}
    (here : w.clients[i]? = some client) :
    ∃ v, w.view i = some v ∧ v.phase = client.phase ∧ w.pools.kind i = some v.kind := by
  have bound := (List.getElem?_eq_some_iff.mp here).1
  rw [linked.length] at bound
  have kind : w.pools.kind i = some (w.pools.tasks[i]).kind := by simp [System.kind, bound]
  refine ⟨⟨client.phase, (w.pools.tasks[i]).kind, client.sessionId, w.entryOf client.sessionId⟩, ?_, rfl, kind⟩
  simp only [view, here, kind]

theorem Linked.task {w : World} (linked : Linked w) {i : Nat} {kind : Kind}
    (there : w.pools.kind i = some kind) : ∃ v, w.view i = some v ∧ v.kind = kind := by
  obtain ⟨task, here, -⟩ := Option.map_eq_some_iff.mp there
  have bound := (List.getElem?_eq_some_iff.mp here).1
  rw [← linked.length] at bound
  have client := List.getElem?_eq_getElem bound
  refine ⟨⟨w.clients[i].phase, kind, w.clients[i].sessionId, w.entryOf w.clients[i].sessionId⟩, ?_, rfl⟩
  simp only [view, client, there]

theorem Changes.trans {w t u : World} {i : Nat} {first second : View} (one : Changes w t i first)
    (other : Changes t u i second) : Changes w u i second :=
  ⟨other.here, fun j differs => (other.others j differs).trans (one.others j differs)⟩

theorem Changes.linked {w t : World} {i : Nat} {new : View} (changes : Changes w t i new)
    (linked : Linked w) (length : t.clients.length = t.pools.tasks.length) (fits : new.Fits)
    (counter : w.monitor.sessionIdCounter ≤ t.monitor.sessionIdCounter)
    (fresh : ∀ id, new.sessionId = some id → id < t.monitor.sessionIdCounter ∧
      ∀ j u, j ≠ i → w.view j = some u → u.sessionId ≠ some id) : Linked t := by
  have old {j : Nat} {v : View} (differs : j ≠ i) (seen : t.view j = some v) : w.view j = some v := by
    rwa [changes.others j differs] at seen
  have same {v : View} (seen : t.view i = some v) : v = new :=
    Option.some.inj (seen.symm.trans changes.here)
  refine ⟨length, fun j v seen => ?_, fun j v id seen named => ?_,
    fun j k v u id differs seen seen' named => ?_⟩
  · by_cases at_i : j = i
    · subst at_i
      rwa [same seen]
    · exact linked.fits j v (old at_i seen)
  · by_cases at_i : j = i
    · subst at_i
      exact (fresh id (same seen ▸ named)).1
    · exact (linked.below j v id (old at_i seen) named).trans_le counter
  · by_cases at_i : j = i
    · subst at_i
      exact (fresh id (same seen ▸ named)).2 k u (Ne.symm differs) (old (Ne.symm differs) seen')
    · by_cases at_k : k = i
      · subst at_k
        intro clash
        exact (fresh id (same seen' ▸ clash)).2 j v at_i (old at_i seen) named
      · exact linked.apart j k v u id differs (old at_i seen) (old at_k seen') named

theorem changes_setPhase {w : World} {i : Nat} {v : View} (seen : w.view i = some v) (phase : Phase) :
    Changes w (w.setPhase i phase) i { v with phase := phase } := by
  obtain ⟨client, here, kind, is⟩ := view_some seen
  constructor
  · have placed : (w.setPhase i phase).clients[i]? = some { client with phase := phase } := by
      simp [setPhase, here]
    rw [is, view, placed, show (w.setPhase i phase).pools.kind i = some v.kind from kind]
    rfl
  · intro j differs
    apply view_congr
    · simp [setPhase, Ne.symm differs]
    · rfl
    · exact fun _ _ _ _ => Iff.rfl

theorem changes_pools {w : World} {pools : System} {i : Nat} {v : View} {old new : Kind}
    (seen : w.view i = some v) (becomes : System.Becomes w.pools pools i old new) :
    Changes w { w with pools := pools } i { v with kind := new } := by
  obtain ⟨client, here, kind, is⟩ := view_some seen
  constructor
  · rw [is, view, becomes.after]
    simp only [here]
    rfl
  · intro j differs
    apply view_congr
    · rfl
    · exact becomes.others j differs
    · exact fun _ _ _ _ => Iff.rfl

theorem changes_unregister {w : World} {i id : Nat} {v : View} (seen : w.view i = some v)
    (named : v.sessionId = some id)
    (apart : ∀ j u, j ≠ i → w.view j = some u → u.sessionId ≠ some id) :
    Changes w { w with monitor := w.monitor.unregisterSession id } i { v with registered := false } := by
  obtain ⟨client, here, kind, is⟩ := view_some seen
  constructor
  · have entry : client.sessionId = some id := by rwa [is] at named
    rw [is, view]
    simp only [here, kind, entry, entryOf, DbSizeMonitor.registered_unregisterSession]
    simp
  · intro j differs
    apply view_congr
    · rfl
    · rfl
    · intro u other seen' named'
      have unlike : other ≠ id := fun same => apart j u differs seen' (same ▸ named')
      simp [DbSizeMonitor.registered_unregisterSession, unlike]

theorem changes_startProxy {w : World} (linked : Linked w) {i : Nat} {v : View} {client : Client}
    (seen : w.view i = some v) :
    Changes w (w.startProxy i client) i
      { phase := .proxying w.monitor.sessionIdCounter {}, kind := v.kind,
        sessionId := some w.monitor.sessionIdCounter, registered := true } := by
  obtain ⟨old, here, kind, is⟩ := view_some seen
  constructor
  · have placed : (w.startProxy i client).clients[i]? = some { old with
        phase := .proxying w.monitor.sessionIdCounter {}, sessionId := some w.monitor.sessionIdCounter } := by
      simp [startProxy, here, DbSizeMonitor.registerSession]
    have same : (w.startProxy i client).pools.kind i = some v.kind := kind
    rw [view, placed, same]
    simp [entryOf, startProxy, DbSizeMonitor.registered_registerSession]
  · intro j differs
    apply view_congr
    · simp [startProxy, Ne.symm differs]
    · rfl
    · intro u id seen' named
      have below := linked.below j u id seen' named
      have old : id ≠ w.monitor.sessionIdCounter := by omega
      simp [startProxy, DbSizeMonitor.registered_registerSession, old]

theorem Linked.kept {w : World} (linked : Linked w) {i : Nat} {v : View} (seen : w.view i = some v) :
    ∀ id, v.sessionId = some id → id < w.monitor.sessionIdCounter ∧
      ∀ j u, j ≠ i → w.view j = some u → u.sessionId ≠ some id :=
  fun id named => ⟨linked.below i v id seen named, fun j u differs seen' =>
    linked.apart i j v u id (Ne.symm differs) seen seen' named⟩

theorem Linked.same {w t : World} (linked : Linked w) (views : ∀ j, t.view j = w.view j)
    (length : t.clients.length = t.pools.tasks.length)
    (counter : t.monitor.sessionIdCounter = w.monitor.sessionIdCounter) : Linked t := by
  refine ⟨length, ?_, ?_, ?_⟩
  · simpa only [views] using linked.fits
  · simpa only [views, counter] using linked.below
  · simpa only [views] using linked.apart

end World

end PgMux
