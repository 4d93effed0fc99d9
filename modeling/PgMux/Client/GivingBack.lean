import PgMux.Pool.Ownership
import PgMux.Proxy.Drains
import PgMux.Client.Views

set_option autoImplicit false

namespace PgMux

namespace World

open Transition

/-- Nothing in the counters and in the monitor is left of the client with this number. -/
structure GivenBack (w : World) (i : Nat) (client : Client) : Prop where
  active : ∀ key, (w.pools.manager.pool key).activeCount.value =
    Tally.overList (Task.holdsFor key) (w.pools.tasks.eraseIdx i)
  counted : w.pools.manager.totalServerConnections.value =
    w.pools.idleIds.length + Tally.overList System.streamWeight (w.pools.tasks.eraseIdx i)
  entry : ∀ id, client.sessionId = some id → ¬ w.monitor.Registered id

def AllGivenBack (w : World) : Prop :=
  ∀ (i : Nat) (client : Client) (error : Option HandlerError), w.clients[i]? = some client →
    client.phase = .returned error → w.GivenBack i client

/-- The step is not one in which an I/O error or a bad length takes `handle_client` out early. -/
def NoFailure (w : World) : WorldAction → Prop
  | .greet i (.error _) =>
    ∀ client, w.clients[i]? = some client → ∀ left, client.phase ≠ .greeting left
  | .turn i event =>
    ∀ client, w.clients[i]? = some client → ∀ id proxy, client.phase = .proxying id proxy →
      ¬ PassFails proxy event
  | .breaks i event k _ =>
    ∀ client, w.clients[i]? = some client → ∀ id proxy, client.phase = .proxying id proxy →
      (selectPass client.settings proxy event).2.1.length ≤ k
  | _ => True

def AllSettled (w : World) : Prop := ∀ i v, w.view i = some v → v.Settled

structure Advances (w t : World) (a : WorldAction) (i : Nat) (new : View) : Prop where
  changes : Changes w t i new
  linked : Linked t
  settled : new.Settled ↔ NoFailure w a

theorem view_registerLimit (w : World) (database : String) (maxBytes j : Nat) :
    ({ w with monitor := w.monitor.registerLimit database maxBytes } : World).view j = w.view j :=
  view_congr rfl rfl fun _ _ _ _ => Iff.rfl

theorem afterAcquire_pools (w : World) (i : Nat) : (w.afterAcquire i).pools = w.pools := by
  rw [afterAcquire]
  split
  · split <;> rfl
  · rfl
  · rfl
  · rfl

theorem afterAcquire_length (w : World) (i : Nat) :
    (w.afterAcquire i).clients.length = w.clients.length := by
  rw [afterAcquire]
  split
  · split <;> simp [setPhase]
  · simp [setPhase]
  · simp [setPhase]
  · rfl

theorem afterAcquire_counter (w : World) (i : Nat) :
    (w.afterAcquire i).monitor.sessionIdCounter = w.monitor.sessionIdCounter := by
  rw [afterAcquire]
  split
  · split <;> rfl
  · rfl
  · rfl
  · rfl

theorem afterAcquire_changes {w : World} {i : Nat} {v : View} (seen : w.view i = some v)
    (phase : v.phase = .acquiring) (clear : v.registered = false)
    (kinds : v.kind.ofAcquire = true) :
    ∃ new, Changes w (w.afterAcquire i) i new ∧ new.Fits ∧ new.Settled ∧
      new.sessionId = v.sessionId := by
  obtain ⟨client, here, kind, -⟩ := view_some seen
  obtain ⟨task, there, is⟩ := Option.map_eq_some_iff.mp kind
  cases task with
  | holding call stream =>
    have greets := changes_setPhase seen (.greeting (greetingFor client.backendKey))
    refine ⟨{ v with phase := .greeting (greetingFor client.backendKey) }, ?_, ⟨is.symm, clear⟩,
      by simp [View.Settled], rfl⟩
    simp only [afterAcquire, here, there]
    split
    · constructor
      · rw [view_registerLimit]
        exact greets.here
      · intro j differs
        rw [view_registerLimit]
        exact greets.others j differs
    · exact greets
  | failed call error =>
    refine ⟨{ v with phase := .refusing error (refusalFor error) }, ?_, ⟨is.symm, clear⟩, by simp [View.Settled], rfl⟩
    simp only [afterAcquire, here, there]
    exact changes_setPhase seen (.refusing error (refusalFor error))
  | panicked call =>
    have kind : v.kind = .panicked := is.symm
    refine ⟨{ v with phase := .returned (some .panic) }, ?_, ?_, ?_, rfl⟩
    · simp only [afterAcquire, here, there]
      exact changes_setPhase seen (.returned (some .panic))
    · simp [View.Fits, kind]
    · simp [View.Settled, kind, clear]
  | called call | waiting call deadline notified | connecting call =>
    refine ⟨v, ?_, ?_, by simp [View.Settled, phase], rfl⟩
    · simp only [afterAcquire, here, there]
      exact ⟨seen, fun _ _ => rfl⟩
    · simp only [View.Fits, phase]
      exact ⟨is.symm, clear⟩
  | resetting call stream | released call => simp [Task.kind, Kind.ofAcquire, ← is] at kinds

theorem acquired_advances {w : World} (linked : Linked w) {pools : System} {i : Nat} {new : Kind}
    (becomes : System.Becomes w.pools pools i .pending new)
    (kinds : new.ofAcquire = true) :
    ∃ v, Changes w ({ w with pools := pools }.afterAcquire i) i v ∧
      Linked ({ w with pools := pools }.afterAcquire i) ∧ v.Settled := by
  obtain ⟨v, seen, pending⟩ := linked.task becomes.before
  have fits := linked.fits i v seen
  obtain ⟨phase, clear⟩ : v.phase = .acquiring ∧ v.registered = false := by
    cases phase : v.phase <;> simp_all [View.Fits]
  have moved := changes_pools seen becomes
  obtain ⟨last, changes, fits, settled, named⟩ := afterAcquire_changes moved.here phase clear kinds
  have both := moved.trans changes
  refine ⟨last, both, ?_, settled⟩
  apply both.linked linked
  · rw [afterAcquire_length, afterAcquire_pools]
    exact linked.length.trans becomes.length.symm
  · exact fits
  · rw [afterAcquire_counter]
  · rw [afterAcquire_counter, named]
    exact @Linked.kept w linked i v seen

theorem setPhase_linked {w : World} (linked : Linked w) {i : Nat} {v : View} (seen : w.view i = some v)
    (phase : Phase) (fits : ({ v with phase := phase } : View).Fits) : Linked (w.setPhase i phase) := by
  apply (changes_setPhase seen phase).linked linked
  · simpa [setPhase] using linked.length
  · exact fits
  · exact Nat.le_refl _
  · exact @Linked.kept w linked i v seen

theorem refuse_advances {cfg : Config} {w t : World} (linked : Linked w) {i : Nat}
    {written : Except String Unit} (stepped : step cfg w (.refuse i written) = some t) :
    ∃ v, Advances w t (.refuse i written) i v := by
  have final {client : Client} {error : AcquireError} {message : Bytes} (here : w.clients[i]? = some client)
      (phase : client.phase = .refusing error message) (last : HandlerError) :
      ∃ v, Advances w (w.setPhase i (.returned (some last))) (.refuse i written) i v := by
    obtain ⟨v, seen, same, -⟩ := linked.seen here
    have fits := linked.fits i v seen
    simp only [View.Fits, same, phase] at fits
    refine ⟨_, changes_setPhase seen _, setPhase_linked linked seen _ ?_, ?_⟩
    · simp [View.Fits, fits.1]
    · simp [View.Settled, fits.1, fits.2, NoFailure]
  cases step_steps stepped with
  | refuse _ client error message here phase => exact final here phase _
  | refuseLost _ client error message cause here phase => exact final here phase _

theorem greet_advances {cfg : Config} {w t : World} (linked : Linked w) {i : Nat}
    {written : Except String Unit} (stepped : step cfg w (.greet i written) = some t) :
    ∃ v, Advances w t (.greet i written) i v := by
  have greeting {client : Client} {left : List Bytes} (here : w.clients[i]? = some client)
      (phase : client.phase = .greeting left) :
      ∃ v, w.view i = some v ∧ v.kind = .holding ∧ v.registered = false := by
    obtain ⟨v, seen, same, -⟩ := linked.seen here
    have fits := linked.fits i v seen
    rw [View.Fits, same, phase] at fits
    exact ⟨v, seen, fits⟩
  cases step_steps stepped with
  | greetLost _ client left cause here phase =>
    obtain ⟨v, seen, holds, -⟩ := greeting here phase
    refine ⟨_, changes_setPhase seen _, setPhase_linked linked seen _ ?_, ?_⟩
    · simp [View.Fits, holds]
    -- The early return leaves the connection with its task.
    · simp only [View.Settled, holds, NoFailure]
      simp [here, phase]
  | greet _ client first next left here phase =>
    obtain ⟨v, seen, fits⟩ := greeting here phase
    refine ⟨_, changes_setPhase seen _, setPhase_linked linked seen _ fits, ?_⟩
    simp [View.Settled, NoFailure]
  | serve _ client left last here phase =>
    obtain ⟨v, seen, holds, -⟩ := greeting here phase
    have changes := @changes_startProxy w linked i v client seen
    refine ⟨_, changes, ?_, by simp [View.Settled, NoFailure]⟩
    apply changes.linked linked
    · simpa [startProxy] using linked.length
    · exact ⟨holds, rfl⟩
    · simp [startProxy, DbSizeMonitor.registerSession]
    · intro id named
      obtain rfl := Option.some.inj named
      refine ⟨by simp [startProxy, DbSizeMonitor.registerSession], fun j u _ seen' clash => ?_⟩
      exact Nat.lt_irrefl _ (linked.below j u _ seen' clash)

theorem finish_advances {cfg : PoolConfig} {w t : World} (linked : Linked w) {i id : Nat} {v : View}
    {proxy : Proxy} (seen : w.view i = some v) (phase : v.phase = .proxying id proxy)
    (finished : w.finish cfg i id = some t) : ∃ new, Changes w t i new ∧ Linked t ∧ new.Settled := by
  obtain ⟨pools, stepped, rfl⟩ := Option.map_eq_some_iff.mp finished
  obtain ⟨new, becomes, kinds⟩ := System.release_kind stepped
  have fits := linked.fits i v seen
  simp only [View.Fits, phase] at fits
  obtain ⟨-, named⟩ := fits
  have apart := (linked.kept seen id named).2
  have moved := changes_pools seen becomes
  have gone := changes_unregister moved.here named (fun j u differs seen' =>
    apart j u differs (by rwa [moved.others j differs] at seen'))
  have both := moved.trans gone
  have final (last : Phase) (fits : (⟨last, new, v.sessionId, false⟩ : View).Fits)
      (settled : (⟨last, new, v.sessionId, false⟩ : View).Settled) :
      ∃ u, Changes w (setPhase { w with
        pools := pools
        monitor := w.monitor.unregisterSession id } i last) i u ∧
        Linked (setPhase { w with
          pools := pools
          monitor := w.monitor.unregisterSession id } i last) ∧ u.Settled := by
    have all := both.trans (changes_setPhase both.here last)
    refine ⟨_, all, ?_, settled⟩
    apply all.linked linked
    · simpa [setPhase] using linked.length.trans becomes.length.symm
    · exact fits
    · exact Nat.le_refl _
    · exact @Linked.kept w linked i v seen
  obtain ⟨task, here, is⟩ := Option.map_eq_some_iff.mp becomes.after
  obtain rfl | rfl := kinds
  · cases task with
    | resetting call stream =>
      simp only [here]
      exact final .releasing ⟨rfl, rfl⟩ (by simp [View.Settled])
    | _ => simp [Task.kind] at is
  · cases task with
    | released call =>
      simp only [here]
      exact final (.returned none) (by simp [View.Fits]) (by simp [View.Settled])
    | _ => simp [Task.kind] at is

theorem Linked.proxying {w : World} (linked : Linked w) {i id : Nat} {client : Client} {proxy : Proxy}
    (here : w.clients[i]? = some client) (phase : client.phase = .proxying id proxy) :
    ∃ v, w.view i = some v ∧ v.phase = .proxying id proxy ∧ v.kind = .holding ∧ v.sessionId = some id := by
  obtain ⟨v, seen, same, -⟩ := linked.seen here
  have fits := linked.fits i v seen
  rw [phase] at same
  rw [View.Fits, same] at fits
  exact ⟨v, seen, same, fits⟩

theorem turn_advances {cfg : Config} {w t : World} (linked : Linked w) {i : Nat} {event : Event}
    (stepped : step cfg w (.turn i event) = some t) : ∃ v, Advances w t (.turn i event) i v := by
  have guard {client : Client} {id : Nat} {proxy : Proxy} (here : w.clients[i]? = some client)
      (phase : client.phase = .proxying id proxy) :
      NoFailure w (.turn i event) ↔ ¬ PassFails proxy event := by simp [NoFailure, here, phase]
  cases step_steps stepped with
  | turn _ client id proxy q _ here phase fine ends =>
    obtain ⟨v, seen, -, fits⟩ := linked.proxying here phase
    refine ⟨_, changes_setPhase seen _, setPhase_linked linked seen _ fits, ?_⟩
    simp [guard here phase, fine, View.Settled]
  | finish _ client id proxy _ _ here phase fine finished =>
    obtain ⟨v, seen, same, -⟩ := linked.proxying here phase
    obtain ⟨new, changes, linked, settled⟩ := finish_advances linked seen same finished
    exact ⟨new, changes, linked, by simp [guard here phase, fine, settled]⟩
  | fail _ client id proxy _ error here phase fails ends =>
    obtain ⟨v, seen, -, holds, -⟩ := linked.proxying here phase
    refine ⟨_, changes_setPhase seen _, setPhase_linked linked seen _ ?_, ?_⟩
    · simp [View.Fits, holds]
    · simp [guard here phase, fails, View.Settled, holds]

theorem breaks_advances {cfg : Config} {w t : World} (linked : Linked w) {i k : Nat} {event : Event}
    {cause : String} (stepped : step cfg w (.breaks i event k cause) = some t) :
    ∃ v, Advances w t (.breaks i event k cause) i v := by
  cases step_steps stepped with
  | breaks _ client id proxy _ _ _ here phase within =>
    obtain ⟨v, seen, -, holds, -⟩ := linked.proxying here phase
    refine ⟨_, changes_setPhase seen _, setPhase_linked linked seen _ ?_, ?_⟩
    · simp [View.Fits, holds]
    · simp [NoFailure, here, phase, within, View.Settled, holds]

theorem reset_advances {cfg : Config} {w t : World} (linked : Linked w) {i : Nat}
    {result : Except String Unit} (stepped : step cfg w (.reset i result) = some t) :
    ∃ v, Advances w t (.reset i result) i v := by
  obtain ⟨pools, reset, rfl⟩ := Option.map_eq_some_iff.mp stepped
  have becomes := System.reset_kind reset
  obtain ⟨v, seen, resetting⟩ := linked.task becomes.before
  have fits := linked.fits i v seen
  have clear : v.registered = false := by
    cases phase : v.phase <;> simp_all [View.Fits]
  have moved := changes_pools seen becomes
  have both := moved.trans (changes_setPhase moved.here (.returned none))
  refine ⟨_, both, ?_, by simp [View.Settled, clear, NoFailure]⟩
  apply both.linked linked
  · simpa [setPhase] using linked.length.trans becomes.length.symm
  · simp [View.Fits]
  · exact Nat.le_refl _
  · exact @Linked.kept w linked i v seen

theorem changes_arrive {w : World} (length : w.clients.length = w.pools.tasks.length) (call : AcquireCall)
    (settings : Settings) (backendKey : Int × Int) :
    Changes w { w with
      pools := { w.pools with tasks := w.pools.tasks ++ [.called call] }
      clients := w.clients ++ [{ settings := settings, backendKey := backendKey }] }
      w.clients.length ⟨.acquiring, .pending, none, false⟩ := by
  constructor
  · simp [view, System.kind, length, Task.kind, entryOf]
  · intro j differs
    apply view_congr
    · simp only [List.getElem?_append]
      split
      · rfl
      · rw [List.getElem?_eq_none (by simp; omega), List.getElem?_eq_none (by omega)]
    · simp only [System.kind, List.getElem?_append]
      split
      · rfl
      · rw [List.getElem?_eq_none (by simp; omega), List.getElem?_eq_none (by omega)]
    · exact fun _ _ _ _ => Iff.rfl

theorem arrive_advances {cfg : Config} {w t : World} (linked : Linked w) {startupInfo : ClientStartupInfo}
    {backendKey : Int × Int} (stepped : step cfg w (.arrive startupInfo backendKey) = some t) :
    ∃ i v, Advances w t (.arrive startupInfo backendKey) i v := by
  simp only [step, System.step, Option.map_some, Option.some.injEq] at stepped
  subst stepped
  have changes := changes_arrive linked.length
    ⟨(settingsFor cfg startupInfo).poolKey, startupInfo.password, startupInfo.extraParams⟩
    (settingsFor cfg startupInfo) backendKey
  refine ⟨_, _, changes, ?_, by simp [View.Settled, NoFailure]⟩
  apply changes.linked linked
  · simp [linked.length]
  · exact ⟨rfl, rfl⟩
  · exact Nat.le_refl _
  · simp

theorem step_seen {cfg : Config} {w t : World} {a : WorldAction} (linked : Linked w)
    (stepped : step cfg w a = some t) :
    (∃ i v, Advances w t a i v) ∨ ((∀ j, t.view j = w.view j) ∧ Linked t ∧ NoFailure w a) := by
  cases a with
  | arrive startupInfo backendKey => exact .inl (arrive_advances linked stepped)
  | tick elapsed =>
    cases step_steps stepped
    have views (j : Nat) : view { w with pools := { w.pools with now := w.pools.now + elapsed } } j =
        w.view j := view_congr rfl rfl fun _ _ _ _ => Iff.rfl
    exact .inr ⟨views, linked.same views linked.length rfl, trivial⟩
  | check connects queryOne =>
    cases step_steps stepped
    have views (j : Nat) : view { w with monitor := w.monitor.checkAllSizes connects queryOne } j =
        w.view j := by
      apply view_congr
      · rfl
      · rfl
      · intro _ id _ _
        exact w.monitor.registered_checkAllSizes connects queryOne id
    refine .inr ⟨views, linked.same views linked.length ?_, trivial⟩
    simp only [DbSizeMonitor.checkAllSizes]
    split <;> rfl
  | poll i =>
    obtain ⟨pools, polled, rfl⟩ := Option.map_eq_some_iff.mp stepped
    obtain ⟨new, becomes, kinds⟩ := System.poll_kind polled
    obtain ⟨v, changes, linked, settled⟩ := acquired_advances linked becomes kinds
    exact .inl ⟨i, v, changes, linked, by simpa [NoFailure] using settled⟩
  | expire i =>
    obtain ⟨pools, expired, rfl⟩ := Option.map_eq_some_iff.mp stepped
    obtain ⟨v, changes, linked, settled⟩ :=
      acquired_advances linked (System.expire_kind expired) rfl
    exact .inl ⟨i, v, changes, linked, by simpa [NoFailure] using settled⟩
  | connected i result =>
    obtain ⟨pools, connected, rfl⟩ := Option.map_eq_some_iff.mp stepped
    obtain ⟨new, becomes, kinds⟩ := System.connected_kind connected
    obtain ⟨v, changes, linked, settled⟩ := acquired_advances linked becomes kinds
    exact .inl ⟨i, v, changes, linked, by simpa [NoFailure] using settled⟩
  | refuse i written => exact .inl ⟨i, refuse_advances linked stepped⟩
  | greet i written => exact .inl ⟨i, greet_advances linked stepped⟩
  | turn i event => exact .inl ⟨i, turn_advances linked stepped⟩
  | breaks i event k cause => exact .inl ⟨i, breaks_advances linked stepped⟩
  | reset i result => exact .inl ⟨i, reset_advances linked stepped⟩

theorem step_linked {cfg : Config} {w t : World} {a : WorldAction} (linked : Linked w)
    (stepped : step cfg w a = some t) : Linked t := by
  obtain ⟨i, v, advances⟩ | ⟨-, linked, -⟩ := step_seen linked stepped
  · exact advances.linked
  · exact linked

theorem step_settled {cfg : Config} {w t : World} {a : WorldAction} (linked : Linked w)
    (before : w.AllSettled) (stepped : step cfg w a = some t) : t.AllSettled ↔ NoFailure w a := by
  obtain ⟨i, v, advances⟩ | ⟨views, -, fine⟩ := step_seen linked stepped
  · rw [← advances.settled]
    constructor
    · exact fun all => all i v advances.changes.here
    · intro settled j u seen
      by_cases here : j = i
      · subst here
        rw [advances.changes.here, Option.some.injEq] at seen
        exact seen ▸ settled
      · rw [advances.changes.others j here] at seen
        exact before j u seen
  · refine iff_of_true ?_ fine
    intro j u seen
    rw [views j] at seen
    exact before j u seen

theorem step_pools {cfg : Config} {w t : World} {a : WorldAction} (stepped : step cfg w a = some t) :
    t.pools = w.pools ∨ ∃ b, w.pools.step cfg.pool b = some t.pools := by
  cases step_steps stepped with
  | arrive startupInfo backendKey => exact .inr ⟨.call _, rfl⟩
  | tick elapsed => exact .inr ⟨.tick elapsed, rfl⟩
  | poll i pools moved | expire i pools moved | connected i result pools moved =>
    exact .inr ⟨_, by rw [afterAcquire_pools]; exact moved⟩
  | finish i client id proxy event t here phase fine finished =>
    obtain ⟨pools, released, rfl⟩ := Option.map_eq_some_iff.mp finished
    refine .inr ⟨_, released.trans (congrArg some ?_)⟩
    split <;> rfl
  | reset i result pools ended => exact .inr ⟨_, ended⟩
  | _ => exact .inl rfl

structure Sound (w : World) : Prop where
  linked : Linked w
  balanced : w.pools.Balanced

theorem sound_initial : Sound {} := by
  refine ⟨⟨rfl, ?_, ?_, ?_⟩, System.balanced_initial⟩ <;> simp [view]

theorem sound_step {cfg : Config} (w : World) (a : WorldAction) (t : World) (sound : Sound w)
    (stepped : step cfg w a = some t) : Sound t := by
  refine ⟨step_linked sound.linked stepped, ?_⟩
  obtain same | ⟨b, moved⟩ := step_pools stepped
  · rw [same]
    exact sound.balanced
  · exact System.step_invariant System.balanced_move System.balanced_start _ _ _ _ sound.balanced moved

theorem GivenBack.settled {w : World} (balanced : w.pools.Balanced) {i : Nat} {v : View} {client : Client}
    (back : w.GivenBack i client) (seen : w.view i = some v) (here : w.clients[i]? = some client) :
    v.kind ≠ .holding ∧ v.registered = false := by
  obtain ⟨other, there, kind, is⟩ := view_some seen
  obtain rfl : other = client := Option.some.inj (there.symm.trans here)
  constructor
  · intro holding
    obtain ⟨task, there, kind⟩ := Option.map_eq_some_iff.mp kind
    cases task with
    | holding call stream =>
      have active := back.active call.key
      have rest := Tally.overList_eraseIdx (Task.holdsFor call.key) there
      rw [balanced.active call.key] at active
      simp only [System.held] at active
      simp only [Task.holdsFor, if_true] at rest active
      omega
    | _ => simp [Task.kind, holding] at kind
  · rw [is]
    cases named : other.sessionId with
    | none => rfl
    | some id => simpa [entryOf] using back.entry id named

theorem givenBack_of_settled {w : World} (balanced : w.pools.Balanced) {i : Nat} {v : View} {client : Client}
    (seen : w.view i = some v) (here : w.clients[i]? = some client)
    (ended : v.kind = .failed ∨ v.kind = .released ∨ v.kind = .panicked) (clear : v.registered = false) :
    w.GivenBack i client := by
  obtain ⟨other, there, kind, is⟩ := view_some seen
  obtain rfl : other = client := Option.some.inj (there.symm.trans here)
  obtain ⟨task, there, same⟩ := Option.map_eq_some_iff.mp kind
  rw [← same] at ended
  have unheld : ∀ key, task.holdsFor key = 0 := by
    intro key
    cases task <;> simp [Task.kind, Task.holdsFor] at ended ⊢
  have streamless : System.streamWeight task = 0 := by
    cases task <;> simp [Task.kind, System.streamWeight, Task.stream?] at ended ⊢
  constructor
  · intro key
    have rest := Tally.overList_eraseIdx (Task.holdsFor key) there
    rw [balanced.active key]
    simp only [System.held, unheld] at rest ⊢
    omega
  · have rest := Tally.overList_eraseIdx System.streamWeight there
    rw [balanced.counted]
    omega
  · intro id named
    rw [is] at clear
    simpa [entryOf, named] using clear

theorem givenBack_iff_settled {w : World} (sound : Sound w) : w.AllGivenBack ↔ w.AllSettled := by
  obtain ⟨linked, balanced⟩ := sound
  constructor
  · intro given i v seen error returned
    obtain ⟨client, here, kind, is⟩ := view_some seen
    have phase : client.phase = .returned error := by rwa [is] at returned
    exact (given i client error here phase).settled balanced seen here
  · intro settled i client error here phase
    obtain ⟨v, seen, same, -⟩ := linked.seen here
    obtain ⟨kept, clear⟩ := settled i v seen error (same.trans phase)
    have fits := linked.fits i v seen
    simp only [View.Fits, same, phase] at fits
    have ended : v.kind = .failed ∨ v.kind = .released ∨ v.kind = .panicked := by
      cases kind : v.kind <;> simp_all
    exact givenBack_of_settled balanced seen here ended clear

theorem noFailure_vacuous {cfg : Config} (w : World) (a : WorldAction) (disabled : step cfg w a = none) :
    NoFailure w a := by
  cases a with
  | greet i written =>
    cases written with
    | ok _ => trivial
    | error cause =>
      intro client here left phase
      simp [step, here, phase] at disabled
  | turn i event =>
    intro client here id proxy phase fails
    obtain ⟨-, error, ends⟩ | ⟨fine, -⟩ := pass_ends client.settings proxy event
    · rw [passEnds] at ends
      simp [step, here, phase, ends] at disabled
    · exact fine fails
  | breaks i event k cause =>
    intro client here id proxy phase
    simpa [step, here, phase] using disabled
  | _ => trivial

theorem allGivenBack_iff (cfg : Config) (actions : List WorldAction) :
    Always (step cfg) AllGivenBack {} actions ↔ Along (step cfg) NoFailure {} actions := by
  apply always_iff_along _ noFailure_vacuous (Transition.always sound_step actions sound_initial)
  · intro i client error here
    simp at here
  · intro w a t sound after given stepped
    rw [givenBack_iff_settled after]
    exact step_settled sound.linked ((givenBack_iff_settled sound).mp given) stepped

-- A client is served, and then a read of its socket fails.
def readFails : List WorldAction :=
  [.arrive ⟨"app", "testdb", "secret", none, []⟩ (1, 1), .poll 0, .connected 0 (.ok ())] ++
    List.replicate 10 (.greet 0 (.ok ())) ++
    [.turn 0 ⟨.client, .error "Connection reset by peer", ⟨fun _ => false, fun _ => none⟩⟩]

theorem not_allGivenBack_readFails : ¬ Always (step {}) AllGivenBack {} readFails := by
  intro always
  obtain ⟨w, ran, phase, leaked⟩ : ∃ w, run (step {}) {} readFails = some w ∧
      w.clients[0]?.map Client.phase =
        some (.returned (some (.proxy (.io "Connection reset by peer")))) ∧
      w.monitor.Registered 1 ∧ w.clients[0]?.bind Client.sessionId = some 1 :=
    Transition.exists_run (by decide)
  obtain ⟨client, here, returned⟩ := Option.map_eq_some_iff.mp phase
  have back := always.last ran 0 client _ here returned
  simp only [here] at leaked
  exact back.entry 1 leaked.2 leaked.1

end World

end PgMux
