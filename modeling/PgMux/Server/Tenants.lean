import PgMux.Server
import PgMux.Client.Arrival
import Mathlib.Data.List.Induction

set_option autoImplicit false

namespace PgMux

open Transition

-- A startup message of these bytes asks for this.
def Asked (sent : Bytes) (startupInfo : ClientStartupInfo) : Prop :=
  ∃ payload params, payload <:+: sent ∧ parseStartupParams payload = .ok (196608, params) ∧
    startupInfoOf params = .ok startupInfo

def Offered (sent : Bytes) (password : String) : Prop := ∃ raw, raw <:+: sent ∧ fromUtf8 raw = some password

theorem Asked.more {sent : Bytes} {startupInfo : ClientStartupInfo} (asked : Asked sent startupInfo) (more : Bytes) :
    Asked (sent ++ more) startupInfo := by
  obtain ⟨payload, params, within, rest⟩ := asked
  exact ⟨payload, params, within.trans (List.prefix_append sent more).isInfix, rest⟩

theorem Offered.more {sent : Bytes} {password : String} (offered : Offered sent password) (more : Bytes) :
    Offered (sent ++ more) password := by
  obtain ⟨raw, within, rest⟩ := offered
  exact ⟨raw, within.trans (List.prefix_append sent more).isInfix, rest⟩

theorem handleStartup_asked {payload sent : Bytes} {startupInfo : ClientStartupInfo} (within : payload <:+: sent)
    (asks : (handleStartup payload).2 = .password startupInfo) : Asked sent startupInfo := by
  rw [handleStartup] at asks
  split at asks
  · cases asks
  · rename_i version params parsed
    split at asks
    · cases asks
    · rename_i supported
      obtain rfl : version = 196608 := not_not.mp supported
      split at asks
      · cases asks
      · rename_i info read
        obtain rfl := ClientStage.password.inj asks
        exact ⟨payload, params, within, parsed, read⟩

theorem passwordOf_offered {buf rest sent : Bytes} {msg : PgMessage} {password : String} (suffix : buf <:+ sent)
    (took : tryReadMessage buf false = .ok (some (msg, rest))) (is : passwordOf msg = .ok password) :
    Offered sent password := by
  obtain ⟨raw, rfl, -, rfl⟩ := tryReadMessage_some took
  have payload : (parseRaw raw).payload <:+: sent := by
    have inside : raw.drop 5 <:+: raw := (List.drop_suffix 5 raw).isInfix
    exact (inside.trans (List.prefix_append raw rest).isInfix).trans suffix.isInfix
  rw [passwordOf] at is
  split at is
  · split at is
    · rename_i nullPos found
      split at is
      · rename_i text read
        obtain rfl := Except.ok.inj is
        exact ⟨_, (List.take_prefix nullPos _).isInfix.trans payload, read⟩
      · cases is
    · cases is
  · cases is

namespace Arrival

structure Said (sent : Bytes) (s : Arrival) : Prop where
  buf : Dialogue.Waiting s.stage → s.buf <:+ sent
  asked : ∀ startupInfo, s.stage = .password startupInfo → Asked sent startupInfo
  offered : ∀ startupInfo, s.stage = .proxying startupInfo →
    ∃ base password, Asked sent base ∧ Offered sent password ∧ startupInfo = { base with password := password }

theorem said_start : Said [] {} := by
  constructor
  · exact fun _ => List.suffix_refl []
  · exact fun _ stage => by cases stage
  · exact fun _ stage => by cases stage

theorem said_returned {s : Arrival} {result : Except ClientError Unit} (sent : Bytes)
    (ended : s.stage = .returned result) : Said sent s := by
  constructor
  · exact fun waiting => by rw [ended] at waiting; cases waiting
  · exact fun _ stage => by rw [ended] at stage; cases stage
  · exact fun _ stage => by rw [ended] at stage; cases stage

theorem readInitial_said (tls : Bool) {buf sent : Bytes} (suffix : buf <:+ sent) :
    (Dialogue.Waiting (readInitial tls buf).2.1 → (readInitial tls buf).2.2 <:+ sent) ∧
      ∀ startupInfo, (readInitial tls buf).2.1 = .password startupInfo → Asked sent startupInfo := by
  have rest (n : Nat) : buf.drop n <:+ sent := (List.drop_suffix n buf).trans suffix
  unfold readInitial
  dsimp only
  split_ifs
  · exact ⟨fun _ => suffix, fun _ stage => by cases stage⟩
  · exact ⟨fun _ => suffix, fun _ stage => by cases stage⟩
  · exact ⟨fun _ => rest 8, fun _ stage => by cases stage⟩
  · exact ⟨fun _ => List.nil_suffix, fun _ stage => by cases stage⟩
  · exact ⟨fun _ => suffix, fun _ stage => by cases stage⟩
  · exact ⟨fun _ => suffix, fun _ stage => by cases stage⟩
  · exact ⟨fun _ => suffix, fun _ stage => by cases stage⟩
  · refine ⟨fun _ => rest _, fun startupInfo asks => handleStartup_asked ?_ asks⟩
    exact (List.take_prefix _ _).isInfix.trans (rest 4).isInfix

theorem readPassword_said {sent : Bytes} {s : Arrival} {startupInfo : ClientStartupInfo} {chunk : Bytes}
    (stage : s.stage = .password startupInfo) (suffix : s.buf ++ chunk <:+ sent) (asked : Asked sent startupInfo) :
    Said sent (s.readPassword startupInfo (.ok chunk)) := by
  cases chunk with
  | nil => exact said_returned _ rfl
  | cons byte rest =>
    simp only [readPassword]
    cases took : tryReadMessage (s.buf ++ byte :: rest) false with
    | error error => exact said_returned _ rfl
    | ok taken =>
      rcases taken with - | ⟨msg, further⟩
      · constructor
        · exact fun _ => suffix
        · intro other same
          obtain rfl := ClientStage.password.inj (stage.symm.trans same)
          exact asked
        · exact fun _ same => by cases stage.symm.trans same
      · cases is : passwordOf msg with
        | error error =>
          have ended : handlePassword startupInfo msg = .returned (.error error) := by simp only [handlePassword, is]
          exact said_returned _ ended
        | ok password =>
          have lands : handlePassword startupInfo msg = .proxying { startupInfo with password := password } := by
            simp only [handlePassword, is]
          constructor
          · exact fun waiting => by simp only [lands] at waiting; cases waiting
          · exact fun _ same => by simp only [lands] at same; cases same
          · intro other same
            simp only [lands] at same
            obtain rfl := ClientStage.proxying.inj same
            exact ⟨startupInfo, password, asked, passwordOf_offered suffix took is, rfl⟩

theorem proxied_said {ctx : Settings} {sent : Bytes} {s : Arrival} (said : Said sent s) (event : Event)
    (proxying : ∃ startupInfo, s.stage = .proxying startupInfo) : Said sent (s.proxied ctx event) := by
  obtain ⟨startupInfo, stage⟩ := proxying
  simp only [proxied]
  split
  · constructor
    · exact fun waiting => by simp only [stage] at waiting; cases waiting
    · exact said.asked
    · exact said.offered
  all_goals exact said_returned _ rfl

def bytesOf : Except String Bytes → Bytes
  | .ok chunk => chunk
  | .error _ => []

theorem Said.more {sent : Bytes} {s : Arrival} (said : Said sent s) {startupInfo : ClientStartupInfo}
    (stage : s.stage = .proxying startupInfo) (more : Bytes) : Said (sent ++ more) s := by
  constructor
  · exact fun waiting => by rw [stage] at waiting; cases waiting
  · exact fun _ same => by cases stage.symm.trans same
  · intro other same
    obtain ⟨base, password, asked, offered, is⟩ := said.offered other same
    exact ⟨base, password, asked.more more, offered.more more, is⟩

theorem pass_said {cfg : Config} {tls : Bool} {sent : Bytes} {s : Arrival} (said : Said sent s)
    (read : Except String Bytes) (loads : Loads) :
    Said (sent ++ bytesOf read) (s.pass cfg tls read loads) := by
  have suffix (chunk : Bytes) (waiting : Dialogue.Waiting s.stage) : s.buf ++ chunk <:+ sent ++ chunk := by
    obtain ⟨front, rfl⟩ := said.buf waiting
    exact ⟨front, (List.append_assoc ..).symm⟩
  rw [pass]
  cases stage : s.stage with
  | startup =>
    match read with
    | .error cause => exact said_returned _ rfl
    | .ok [] => exact said_returned _ rfl
    | .ok (byte :: rest) =>
      obtain ⟨buf, asked⟩ := readInitial_said tls (suffix (byte :: rest) (by rw [stage]; trivial))
      refine ⟨buf, asked, fun startupInfo same => ?_⟩
      have never := Dialogue.readInitial_proxying tls (s.buf ++ byte :: rest)
      simp only [readStartup] at same
      rw [same] at never
      exact absurd trivial never
  | password startupInfo =>
    match read with
    | .error cause => exact said_returned _ rfl
    | .ok chunk =>
      exact readPassword_said stage (suffix chunk (by rw [stage]; trivial))
        ((said.asked startupInfo stage).more chunk)
  | proxying startupInfo => exact proxied_said (said.more stage _) _ ⟨startupInfo, stage⟩
  | returned result => exact said_returned _ stage

def ofReads (cfg : Config) (tls : Bool) (reads : List (Except String Bytes)) : Arrival :=
  reads.foldl (fun arrival read => arrival.pass cfg tls read Server.noLoads) {}

theorem ofReads_snoc (cfg : Config) (tls : Bool) (reads : List (Except String Bytes)) (read : Except String Bytes) :
    ofReads cfg tls (reads ++ [read]) = (ofReads cfg tls reads).pass cfg tls read Server.noLoads := by
  rw [ofReads, List.foldl_append]
  rfl

theorem ofReads_said (cfg : Config) (tls : Bool) (reads : List (Except String Bytes)) :
    Said (reads.flatMap bytesOf) (ofReads cfg tls reads) := by
  induction reads using List.reverseRecOn with
  | nil => exact said_start
  | append_singleton reads read ih =>
    rw [ofReads_snoc, List.flatMap_append, List.flatMap_singleton]
    exact pass_said ih read _

end Arrival

namespace Server

def reads (_ : Server) (a : ServerAction) (_ : Server) : List (Nat × Except String Bytes) :=
  match a with
  | .read c result _ _ => [(c, result)]
  | .accept | .start _ _ | .serve _ => []

def readsOf (c : Nat) (events : List (Nat × Except String Bytes)) : List (Except String Bytes) :=
  (events.filter (·.1 = c)).map Prod.snd

-- What the client of this connection has sent.
def sentBy (c : Nat) (events : List (Nat × Except String Bytes)) : Bytes := (readsOf c events).flatMap Arrival.bytesOf

theorem readsOf_append (c : Nat) (events more : List (Nat × Except String Bytes)) :
    readsOf c (events ++ more) = readsOf c events ++ readsOf c more := by
  rw [readsOf, List.filter_append, List.map_append]
  rfl

theorem readsOf_none {c : Nat} {events : List (Nat × Except String Bytes)} (none : ∀ event ∈ events, event.1 ≠ c) :
    readsOf c events = [] := by
  rw [readsOf, List.filter_eq_nil_iff.mpr fun event inside => by simpa using none event inside]
  rfl

end Server

namespace Handler

def arrival : Handler → Option Arrival
  | .spawned => some {}
  | .arriving arrival | .inside arrival _ => some arrival
  | .finished | .panicked => none

end Handler

namespace Server

structure Heard (cfg : Config) (tls : Bool) (s : Server) (events : List (Nat × Except String Bytes)) : Prop where
  known : ∀ event ∈ events, event.1 < s.handlers.length
  heard : ∀ (c : Nat) (handler : Handler) (arrival : Arrival), s.handlers[c]? = some handler →
    handler.arrival = some arrival → arrival = Arrival.ofReads cfg tls (readsOf c events)

theorem heard_initial (cfg : Config) (tls : Bool) : Heard cfg tls {} [] := by
  constructor
  · exact fun _ inside => by cases inside
  · exact fun c _ _ here => by cases here

theorem Heard.set {cfg : Config} {tls : Bool} {s t : Server} {events : List (Nat × Except String Bytes)}
    (before : Heard cfg tls s events) {c : Nat} {old new : Handler} (here : s.handlers[c]? = some old)
    (set : t.handlers = s.handlers.set c new)
    (same : ∀ arrival, new.arrival = some arrival → old.arrival = some arrival) : Heard cfg tls t events := by
  constructor
  · rw [set, List.length_set]
    exact before.known
  · intro d handler arrival there is
    rw [set] at there
    by_cases mine : c = d
    · subst mine
      rw [List.getElem?_set_self (List.getElem?_eq_some_iff.mp here).1] at there
      obtain rfl := Option.some.inj there
      exact before.heard c old arrival here (same arrival is)
    · rw [List.getElem?_set_ne mine] at there
      exact before.heard d handler arrival there is

theorem Heard.read {cfg : Config} {tls : Bool} {s t : Server} {events : List (Nat × Except String Bytes)}
    (before : Heard cfg tls s events) {c : Nat} {old : Arrival} {new : Handler} {result : Except String Bytes}
    (here : s.handlers[c]? = some (.arriving old)) (set : t.handlers = s.handlers.set c new)
    (same : ∀ arrival, new.arrival = some arrival → arrival = old.pass cfg tls result noLoads) :
    Heard cfg tls t (events ++ [(c, result)]) := by
  have bound := (List.getElem?_eq_some_iff.mp here).1
  constructor
  · intro event inside
    rw [set, List.length_set]
    rcases List.mem_append.mp inside with inside | inside
    · exact before.known event inside
    · rw [List.mem_singleton.mp inside]
      exact bound
  · intro d handler arrival there is
    rw [set] at there
    rw [readsOf_append]
    by_cases mine : c = d
    · subst mine
      rw [List.getElem?_set_self bound] at there
      obtain rfl := Option.some.inj there
      have one : readsOf c [(c, result)] = [result] := by simp [readsOf]
      rw [one, Arrival.ofReads_snoc, ← before.heard c _ old here rfl]
      exact same arrival is
    · rw [List.getElem?_set_ne mine] at there
      have none : readsOf d [(c, result)] = [] := readsOf_none (by simpa using mine)
      rw [none, List.append_nil]
      exact before.heard d handler arrival there is

theorem step_heard {cfg : Config} {tls : Bool} (s : Server) (a : ServerAction) (t : Server)
    (events : List (Nat × Except String Bytes)) (before : Heard cfg tls s events)
    (stepped : step cfg tls s a = some t) : Heard cfg tls t (events ++ reads s a t) := by
  cases step_steps stepped with
  | accept =>
    rw [reads, List.append_nil]
    constructor
    · intro event inside
      have bound := before.known event inside
      simp only [List.length_append, List.length_singleton]
      omega
    · intro c handler arrival here is
      rcases Nat.lt_trichotomy c s.handlers.length with less | rfl | more
      · rw [List.getElem?_append_left less] at here
        exact before.heard c handler arrival here is
      · rw [List.getElem?_concat_length] at here
        obtain rfl := Option.some.inj here
        rw [readsOf_none fun event inside => (before.known event inside).ne]
        exact (Option.some.inj is).symm
      · have bound := (List.getElem?_eq_some_iff.mp here).1
        simp only [List.length_append, List.length_singleton] at bound
        omega
  | start c nodelay here =>
    rw [reads, List.append_nil]
    exact before.set here rfl fun _ is => is
  | startLost c nodelay here =>
    rw [reads, List.append_nil]
    exact before.set here rfl fun _ is => by cases is
  | wait c result written backendKey arrival here =>
    exact before.read here rfl fun _ is => (Option.some.inj is).symm
  | arrive c result written backendKey arrival startupInfo w here stage arrived =>
    exact before.read here rfl fun _ is => (Option.some.inj is).symm
  | leave c result written backendKey arrival here =>
    exact before.read here rfl fun _ is => by cases is
  | panic c result written backendKey arrival here =>
    exact before.read here rfl fun _ is => by cases is
  | shared a w nobody old moved =>
    rw [reads, List.append_nil]
    exact ⟨before.known, before.heard⟩
  | serve a i w whose moved =>
    rw [reads, List.append_nil]
    rcases settle_handlers { s with world := w } i with same | ⟨c, handler, gone, here, -, last, set⟩
    · constructor
      · rw [same]
        exact before.known
      · rw [same]
        exact before.heard
    · apply before.set here set
      rcases last with rfl | rfl <;> exact fun _ is => by cases is

def Named (cfg : Config) (s : Server) : Prop :=
  ∀ (c : Nat) (arrival : Arrival) (i : Nat), s.handlers[c]? = some (.inside arrival i) →
    ∃ startupInfo, arrival.stage = .proxying startupInfo ∧ (s.world.clients.map Client.call)[i]? =
      some ⟨(settingsFor cfg startupInfo).poolKey, startupInfo.password, startupInfo.extraParams⟩

theorem named_initial (cfg : Config) : Named cfg {} := fun c _ _ here => by cases here

theorem Named.keeps {cfg : Config} {s t : Server} (named : Named cfg s)
    (calls : s.world.clients.map Client.call <+: t.world.clients.map Client.call)
    (places : ∀ (c : Nat) (arrival : Arrival) (i : Nat), t.handlers[c]? = some (.inside arrival i) →
      s.handlers[c]? = some (.inside arrival i)) : Named cfg t := by
  intro c arrival i here
  obtain ⟨startupInfo, stage, call⟩ := named c arrival i (places c arrival i here)
  obtain ⟨more, calls⟩ := calls
  refine ⟨startupInfo, stage, ?_⟩
  rw [← calls, List.getElem?_append_left (List.getElem?_eq_some_iff.mp call).1]
  exact call

theorem places_set {handlers : List Handler} {c : Nat} {new : Handler} (outside : new.client = none) (d : Nat)
    (arrival : Arrival) (i : Nat) (here : (handlers.set c new)[d]? = some (.inside arrival i)) :
    handlers[d]? = some (.inside arrival i) := by
  by_cases mine : c = d
  · subst mine
    rw [List.getElem?_set_self (by simpa using (List.getElem?_eq_some_iff.mp here).1)] at here
    rw [Option.some.inj here] at outside
    cases outside
  · rwa [List.getElem?_set_ne mine] at here

theorem calls_grow {cfg : Config} {w t : World} {a : WorldAction} (stepped : World.step cfg w a = some t) :
    w.clients.map Client.call <+: t.clients.map Client.call :=
  ⟨_, (World.step_calls stepped).1.symm⟩

theorem step_named {cfg : Config} {tls : Bool} (s : Server) (a : ServerAction) (t : Server) (named : Named cfg s)
    (stepped : step cfg tls s a = some t) : Named cfg t := by
  cases step_steps stepped with
  | accept =>
    refine named.keeps (List.prefix_refl _) fun c arrival i here => ?_
    rcases Nat.lt_or_ge c s.handlers.length with less | more
    · rwa [List.getElem?_append_left less] at here
    · rw [List.getElem?_append_right more, List.getElem?_singleton] at here
      split at here <;> cases here
  | start c nodelay here => exact named.keeps (List.prefix_refl _) (places_set rfl)
  | startLost c nodelay here => exact named.keeps (List.prefix_refl _) (places_set rfl)
  | wait c result written backendKey before here => exact named.keeps (List.prefix_refl _) (places_set rfl)
  | leave c result written backendKey before here => exact named.keeps (List.prefix_refl _) (places_set rfl)
  | panic c result written backendKey before here => exact named.keeps (List.prefix_refl _) (places_set rfl)
  | shared a w nobody old moved => exact named.keeps (calls_grow moved) fun _ _ _ here => here
  | serve a i w whose moved =>
    have world := settle_world { s with world := w } i
    apply named.keeps (by rw [world]; exact calls_grow moved)
    rcases settle_handlers { s with world := w } i with same | ⟨c, handler, gone, here, -, last, set⟩
    · rw [same]
      exact fun _ _ _ there => there
    · rw [set]
      exact places_set (by rcases last with rfl | rfl <;> rfl)
  | arrive c result written backendKey before startupInfo w here stage arrived =>
    intro d arrival i there
    by_cases mine : c = d
    · subst mine
      simp only [setHandler] at there
      rw [List.getElem?_set_self (List.getElem?_eq_some_iff.mp here).1] at there
      cases there
      refine ⟨startupInfo, stage, ?_⟩
      have last : s.world.clients.length = (s.world.clients.map Client.call).length := by simp
      rw [(World.step_calls arrived).1, last]
      exact List.getElem?_concat_length
    · simp only [setHandler] at there
      rw [List.getElem?_set_ne mine] at there
      obtain ⟨other, stands, call⟩ := named d arrival i there
      obtain ⟨more, calls⟩ := calls_grow arrived
      refine ⟨other, stands, ?_⟩
      rw [← calls, List.getElem?_append_left (List.getElem?_eq_some_iff.mp call).1]
      exact call

theorem Seated.once {handlers : List Handler} {phases : List Phase} (seated : Seated handlers phases) {c d i : Nat}
    {one other : Handler} (here : handlers[c]? = some one) (mine : one.client = some i) (differs : d ≠ c)
    (there : handlers[d]? = some other) : other.client ≠ some i := by
  intro theirs
  have count := Tally.countP_set (fun handler : Handler => decide (handler.client = some i)) .finished here
  have most := seated.each i
  have still : (handlers.set c .finished)[d]? = some other := by rwa [List.getElem?_set_ne (Ne.symm differs)]
  have least : 0 < (handlers.set c .finished).countP fun handler => decide (handler.client = some i) :=
    List.countP_pos_iff.mpr ⟨other, List.mem_of_getElem? still, by simpa using theirs⟩
  have one_at : (decide (one.client = some i)).toNat = 1 := by simp [mine]
  have limit := Bool.toNat_le ((phases[i]?).any Phase.running)
  have gone : (decide (Handler.finished.client = some i)).toNat = 0 := rfl
  omega

theorem step_world {cfg : Config} {tls : Bool} (s : Server) (a : ServerAction) (t : Server)
    (stepped : step cfg tls s a = some t) : t.world = s.world ∨ ∃ b, s.world.step cfg b = some t.world := by
  cases step_steps stepped with
  | shared a w nobody old moved => exact .inr ⟨a, moved⟩
  | serve a i w whose moved =>
    rw [settle_world]
    exact .inr ⟨a, moved⟩
  | arrive c result written backendKey before startupInfo w here stage arrived => exact .inr ⟨_, arrived⟩
  | _ => exact .inl rfl

/-- The client of a connection makes its call for the database and the user of a startup message that has come
on this connection, with a password that has come on it. While it is served it has a backend connection of that
tenant, which is no other connection's and not idle. -/
theorem tenants_isolated (cfg : Config) (tls : Bool) (actions : List ServerAction) :
    Always (recorded (step cfg tls) reads) (fun r => ∀ (c : Nat) (arrival : Arrival) (i : Nat),
      r.state.handlers[c]? = some (.inside arrival i) → ∃ client startupInfo password,
        r.state.world.clients[i]? = some client ∧ Asked (sentBy c r.events) startupInfo ∧
          Offered (sentBy c r.events) password ∧
          client.call = ⟨⟨cfg.upstreamHost, cfg.upstreamPort, startupInfo.database, startupInfo.user⟩,
            password, startupInfo.extraParams⟩ ∧
          (client.phase.served = true → ∃ stream, r.state.world.backend i = some stream ∧
            stream.key = ⟨cfg.upstreamHost, cfg.upstreamPort, startupInfo.database, startupInfo.user⟩ ∧
            stream.id ∉ r.state.world.pools.idleIds ∧
            ∀ (d : Nat) (other : Arrival) (j : Nat) (theirs : TcpStream), d ≠ c →
              r.state.handlers[d]? = some (.inside other j) → r.state.world.backend j = some theirs →
                theirs.id ≠ stream.id))
      ⟨{}, []⟩ actions := by
  have isolated : Always (step cfg tls) (fun s => _) {} actions :=
    Always.of_projection step_world (s := {}) (World.served_isolated cfg) actions
  have attended : Always (step cfg tls) Attended {} actions := always step_attended actions attended_initial
  have named : Always (step cfg tls) (Named cfg) {} actions := always step_named actions (named_initial cfg)
  have heard := always_history_self step_heard (heard_initial cfg tls) actions
  refine (((isolated.and attended).and named).recorded [] |>.and heard).mono ?_
  rintro ⟨s, events⟩ ⟨⟨⟨isolated, attended⟩, named⟩, heard⟩ c arrival i here
  obtain ⟨info, stage, made⟩ := named c arrival i here
  rw [List.getElem?_map] at made
  obtain ⟨client, there, call⟩ := Option.map_eq_some_iff.mp made
  obtain rfl := heard.heard c _ arrival here rfl
  obtain ⟨startupInfo, password, asked, offered, rfl⟩ :=
    (Arrival.ofReads_said cfg tls (readsOf c events)).offered info stage
  refine ⟨client, startupInfo, password, there, asked, offered, call, fun served => ?_⟩
  obtain ⟨stream, mine, -, key, idle, alone⟩ := isolated i client there served
  have tenant : client.settings.poolKey = client.call.key := rfl
  refine ⟨stream, mine, by rw [key, tenant, call]; rfl, idle, fun d other j theirs differs inside taken => ?_⟩
  have apart : j ≠ i := by
    rintro rfl
    exact attended.seated.once here rfl differs inside rfl
  exact alone j theirs apart taken

end Server

end PgMux
