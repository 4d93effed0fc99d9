import PgMux.Shared.Fifo
import PgMux.Proxy.Requests

set_option autoImplicit false

namespace PgMux

def Write.request : Write → Option Bytes
  | .toServer bytes => some bytes
  | _ => none

structure Capacities where
  fromClient : Nat
  toServer : Nat
  fromServer : Nat
  toClient : Nat

/-- The client, the proxy and the server with the four channels between them. -/
structure Wires (c : Capacities) where
  -- Where the pass under way leads once its writes are done.
  proxy : Next
  pending : List Write := []
  -- What is left of the `write_all` that the pass awaits.
  writing : Option Write := none
  -- What is left of the answer that the server is writing.
  reply : Bytes := []
  fromClient : Fifo UInt8 c.fromClient := {}
  toServer : Fifo UInt8 c.toServer := {}
  fromServer : Fifo UInt8 c.fromServer := {}
  toClient : Fifo UInt8 c.toClient := {}

/-- A read from a channel. It ends without bytes when the other side is gone and all it sent has been read. -/
def readFrom {capacity : Nat} (channel : Fifo UInt8 capacity) : Except String Bytes → Option (Fifo UInt8 capacity)
  | .error _ => some channel
  | .ok [] => if channel.items = [] then some channel else none
  | .ok chunk => if chunk <+: channel.items then some (channel.pull chunk.length) else none

namespace Wires

inductive Act where
  | clientSends (bytes : Bytes)
  | clientReads
  | select (event : Event)
  -- The pass comes to its next `write_all`, which then goes on as the channel lets it.
  | begin
  | progress (n : Nat)
  | writeFails (cause : String)
  | serverReads (n : Nat)
  | serverReplies (bytes : Bytes)
  | serverWrites (n : Nat)

variable {c : Capacities}

def start (p : Proxy) : Wires c := { proxy := .proxying p }

def pass (ctx : Settings) (s : Wires c) (p : Proxy) (event : Event) : Wires c :=
  let (p, writes, outcome) := selectPass ctx p event
  { s with proxy := next p outcome, pending := writes }

def advance (s : Wires c) (n : Nat) : Write → Wires c
  | .toServer bytes =>
    let (channel, rest) := s.toServer.offer n bytes
    { s with toServer := channel, writing := if rest = [] then none else some (.toServer rest) }
  | .toClient bytes =>
    let (channel, rest) := s.toClient.offer n bytes
    { s with toClient := channel, writing := if rest = [] then none else some (.toClient rest) }
  | .notice bytes =>
    let (channel, rest) := s.toClient.offer n bytes
    { s with toClient := channel, writing := if rest = [] then none else some (.notice rest) }

def answer (s : Wires c) (n : Nat) : Wires c :=
  let (channel, rest) := s.fromServer.offer n s.reply
  { s with fromServer := channel, reply := rest }

-- `select!` is reached only when the pass before it has made all of its writes, and the server reads only
-- while nothing that it wrote waits for room.
def step (ctx : Settings) (s : Wires c) : Act → Option (Wires c)
  | .clientSends bytes => some { s with fromClient := (s.fromClient.offer bytes.length bytes).1 }
  | .clientReads => some { s with toClient := {} }
  | .select event =>
    match s.proxy, s.pending, s.writing, event.peer with
    | .proxying p, [], none, .client =>
      (readFrom s.fromClient event.read).map fun channel => { s.pass ctx p event with fromClient := channel }
    | .proxying p, [], none, .server =>
      (readFrom s.fromServer event.read).map fun channel => { s.pass ctx p event with fromServer := channel }
    | _, _, _, _ => none
  | .begin =>
    match s.writing, s.pending with
    | none, write :: rest => some { s with writing := some write, pending := rest }
    | _, _ => none
  | .progress n => s.writing.map (s.advance n)
  | .writeFails cause =>
    s.writing.map fun _ => { s with proxy := .failed (.io cause), pending := [], writing := none }
  | .serverReads n =>
    if s.reply = [] ∧ 0 < s.fromServer.room then some { s with toServer := s.toServer.pull n } else none
  | .serverReplies bytes => if s.reply = [] then some { s with reply := bytes } else none
  | .serverWrites n => some (s.answer n)

def ProxyBlocked (s : Wires c) : Prop := ∃ bytes ∈ s.writing.bind Write.request, ¬ s.toServer.Fits bytes

def ServerBlocked (s : Wires c) : Prop := ¬ s.fromServer.Fits s.reply

def Deadlocked (s : Wires c) : Prop := s.ProxyBlocked ∧ s.ServerBlocked

instance (s : Wires c) : Decidable s.Deadlocked :=
  inferInstanceAs (Decidable ((∃ bytes ∈ s.writing.bind Write.request, ¬ s.toServer.Fits bytes) ∧
    ¬ s.fromServer.Fits s.reply))

theorem ProxyBlocked.writing {s : Wires c} (blocked : s.ProxyBlocked) :
    ∃ bytes, s.writing = some (.toServer bytes) ∧ ¬ s.toServer.Fits bytes := by
  obtain ⟨bytes, asked, full⟩ := blocked
  obtain ⟨write, here, request⟩ := Option.bind_eq_some_iff.mp asked
  cases write with
  | toServer other =>
    obtain rfl := Option.some.inj request
    exact ⟨other, here, full⟩
  | toClient other | notice other => cases request

theorem ServerBlocked.reply {s : Wires c} (blocked : s.ServerBlocked) : s.reply ≠ [] := by
  intro done
  rw [ServerBlocked, done] at blocked
  exact blocked (Fifo.fits_nil _)

theorem advance_blocked {s : Wires c} (n : Nat) {write : Write} (here : s.writing = some write) :
    ((s.advance n write).ProxyBlocked ↔ s.ProxyBlocked) ∧
      ((s.advance n write).ServerBlocked ↔ s.ServerBlocked) := by
  cases write with
  | toServer bytes =>
    refine ⟨?_, Iff.rfl⟩
    simp only [ProxyBlocked, advance, here]
    split
    · rename_i done
      have fits : s.toServer.Fits bytes := by
        by_contra full
        exact Fifo.offer_ne_nil n full done
      simp [Write.request, fits]
    · simp [Write.request]
  | toClient bytes | notice bytes =>
    refine ⟨?_, Iff.rfl⟩
    simp only [ProxyBlocked, advance, here]
    split <;> simp [Write.request]

theorem select_free {ctx : Settings} {s t : Wires c} {event : Event}
    (stepped : step ctx s (.select event) = some t) : s.writing = none ∧ t.writing = none := by
  simp only [step] at stepped
  split at stepped
  · rename_i p running made free peer
    obtain ⟨channel, -, rfl⟩ := Option.map_eq_some_iff.mp stepped
    exact ⟨free, free⟩
  · rename_i p running made free peer
    obtain ⟨channel, -, rfl⟩ := Option.map_eq_some_iff.mp stepped
    exact ⟨free, free⟩
  · cases stepped

theorem answer_blocked (s : Wires c) (n : Nat) : (s.answer n).ServerBlocked ↔ s.ServerBlocked :=
  not_congr (Fifo.fits_offer s.fromServer n s.reply)

theorem Deadlocked.step {ctx : Settings} {s t : Wires c} {a : Act} (dead : s.Deadlocked)
    (unbroken : ∀ cause, a ≠ .writeFails cause) (stepped : step ctx s a = some t) : t.Deadlocked := by
  obtain ⟨bytes, waits, -⟩ := dead.1.writing
  have answering := dead.2.reply
  cases a with
  | clientSends | clientReads =>
    obtain rfl := Option.some.inj stepped
    exact dead
  | select event =>
    have free := (select_free stepped).1
    rw [free] at waits
    cases waits
  | begin =>
    simp [Wires.step, waits] at stepped
  | progress n =>
    obtain ⟨write, here, rfl⟩ := Option.map_eq_some_iff.mp stepped
    obtain ⟨proxy, server⟩ := advance_blocked n here
    exact ⟨proxy.mpr dead.1, server.mpr dead.2⟩
  | writeFails cause => exact absurd rfl (unbroken cause)
  | serverReads | serverReplies => simp [Wires.step, answering] at stepped
  | serverWrites n =>
    obtain rfl := Option.some.inj stepped
    exact ⟨dead.1, (answer_blocked s n).mpr dead.2⟩

/-- A deadlock lasts until the connection to the server breaks. -/
theorem deadlocked_lasts {ctx : Settings} {s : Wires c} {acts : List Act} (dead : s.Deadlocked)
    (unbroken : Transition.Along (step ctx) (fun _ a => ∀ cause, a ≠ .writeFails cause) s acts) :
    Transition.Always (step ctx) Deadlocked s acts :=
  Transition.always_of_along (fun _ _ _ dead kept stepped => Deadlocked.step dead kept stepped) unbroken dead

-- The most that the loops make of so many bytes of the client. The slow loop puts the 27 bytes of
-- `SET TRANSACTION READ ONLY; ` in front of a query, which has at least six bytes of its own.
def grown (n : Nat) : Nat := n + 27 * (n / 6)

def forwarded (writes : List Write) : Nat := (serverWrites writes).flatten.length

-- What the proxy has read from the client and not passed on.
def unsent : Next → Nat
  | .proxying p => p.bufs.clientBuf.length
  | _ => 0

/-- The most that there can come to be in the channel to the server, with so many more bytes of the client. -/
def towardServer (s : Wires c) (sent : Nat) : Nat :=
  grown (unsent s.proxy + s.fromClient.items.length + sent) +
    forwarded (s.writing.toList ++ s.pending) + s.toServer.items.length

def answered (s : Wires c) (more : Nat) : Nat := s.reply.length + s.fromServer.items.length + more

-- All that is on its way to the server fits into the channel there, or all that is on its way from it does.
def Light (s : Wires c) (sent more : Nat) : Prop :=
  s.towardServer sent ≤ c.toServer ∨ s.answered more ≤ c.fromServer

/-- The client sends, and the server answers, only while requests and answers are not too many both at once. -/
def Measured (s : Wires c) : Act → Prop
  | .clientSends bytes => s.Light (min bytes.length s.fromClient.room) 0
  | .serverReplies bytes => s.Light 0 bytes.length
  | _ => True

instance (s : Wires c) (sent more : Nat) : Decidable (s.Light sent more) := inferInstanceAs (Decidable (_ ∨ _))

instance (s : Wires c) (a : Act) : Decidable (s.Measured a) :=
  match a with
  | .clientSends bytes => inferInstanceAs (Decidable (s.Light (min bytes.length s.fromClient.room) 0))
  | .serverReplies bytes => inferInstanceAs (Decidable (s.Light 0 bytes.length))
  | .clientReads | .select _ | .begin | .progress _ | .writeFails _ | .serverReads _ | .serverWrites _ => isTrue trivial

theorem add_grown (n m : Nat) : n + grown m ≤ grown (n + m) := by
  simp only [grown]
  omega

theorem grown_mono {n m : Nat} (less : n ≤ m) : grown n ≤ grown m := by
  simp only [grown]
  omega

@[simp] theorem forwarded_nil : forwarded [] = 0 := rfl

theorem forwarded_append (first second : List Write) :
    forwarded (first ++ second) = forwarded first + forwarded second := by
  simp [forwarded, serverWrites_append]

theorem length_readOnlyQuery {r : Request} (accepted : Accepted r.raw) {text : String} (found : r.text = some text) :
    6 ≤ r.raw.length ∧ (readOnlyQuery text).length ≤ r.raw.length + 27 := by
  obtain ⟨-, -, rest, payload⟩ := extractQueryText_some.mp found
  have long := congrArg List.length payload
  have header := accepted.1.long
  have first : (asBytes "SET TRANSACTION READ ONLY; ").length = 27 := by decide
  have written := congrArg List.length (PgMessage.encode_of_wellFormed (readOnlyMessage_wellFormed accepted found))
  rw [show (readOnlyMessage text).encode = readOnlyQuery text from rfl] at written
  simp only [readOnlyMessage, asBytes_append, List.length_cons, List.length_append, putI32_length, first,
    List.length_nil] at written
  simp only [Request.msg, parseRaw, List.length_drop, List.length_append, List.length_cons] at long
  omega

-- One request, with whatever comes behind it.
theorem reply_grown {ctx : Settings} {r : Request} (accepted : Accepted r.raw) (m : Nat) :
    (r.reply ctx).flatten.length + grown m ≤ grown (r.raw.length + m) := by
  simp only [Request.reply]
  split
  · cases found : r.text with
    | none => simpa using (Nat.le_add_left _ _).trans (add_grown r.raw.length m)
    | some text =>
      obtain ⟨least, most⟩ := length_readOnlyQuery accepted found
      simp only [Option.map_some, Option.toList_some, List.flatten_cons, List.flatten_nil, List.append_nil, grown]
      omega
  · simpa using add_grown r.raw.length m

theorem replies_grown {ctx : Settings} {requests : List Request} (accepted : ∀ r ∈ requests, Accepted r.raw) (m : Nat) :
    (requests.flatMap (Request.reply ctx)).flatten.length + grown m ≤
      grown ((requests.map Request.raw).flatten.length + m) := by
  induction requests with
  | nil => simp
  | cons r rest ih =>
    have later := ih fun other member => accepted other (List.mem_cons_of_mem r member)
    have here := @reply_grown ctx r (accepted r (List.mem_cons_self ..)) ((rest.map Request.raw).flatten.length + m)
    simp only [List.flatMap_cons, List.flatten_append, List.length_append, List.map_cons, List.flatten_cons]
    rw [Nat.add_assoc r.raw.length]
    omega

theorem unsent_next (p : Proxy) (outcome : Outcome) : unsent (next p outcome) ≤ p.bufs.clientBuf.length := by
  match outcome with
  | .again => exact Nat.le_refl _
  | .fail error | .exit .clientDisconnected => exact Nat.zero_le _
  | .exit .switchToSlow | .exit .switchToFast =>
    cases mode : p.mode <;> simp [next, mode, unsent]

-- What a pass writes to the server, and what it keeps of the client, is made of what it had and what it read.
theorem selectPass_grown (ctx : Settings) (p : Proxy) (event : Event) (m : Nat) :
    forwarded (selectPass ctx p event).2.1 +
        grown (unsent (next (selectPass ctx p event).1 (selectPass ctx p event).2.2) + m) ≤
      grown (p.bufs.clientBuf.length + event.clientChunk.length + m) := by
  suffices made : forwarded (selectPass ctx p event).2.1 + grown ((selectPass ctx p event).1.bufs.clientBuf.length + m) ≤
      grown (p.bufs.clientBuf.length + event.clientChunk.length + m) by
    refine Nat.le_trans (Nat.add_le_add_left (grown_mono (Nat.add_le_add_right ?_ m)) _) made
    exact unsent_next ..
  obtain ⟨peer, read, loads⟩ := event
  match read, mode : p.mode, peer with
  | .error cause, _, peer | .ok [], _, peer => cases peer <;> simp [selectPass, Event.clientChunk]
  | .ok (first :: others), .fast pending, .client =>
    have kept := add_grown (p.bufs.clientBuf ++ first :: others).length m
    simpa [selectPass, mode, fastClient, forwarded, serverWrites, Write.toServer?, Event.clientChunk] using kept
  | .ok (first :: others), .fast pending, .server =>
    have nothing : forwarded [.toClient (p.bufs.serverBuf ++ first :: others)] = 0 := rfl
    simp [selectPass, mode, fastServer, nothing, Event.clientChunk]
  | .ok (first :: others), .slow injected, .client =>
    obtain ⟨rest, accepted, frames, ends⟩ := SlowLoop.slowClient_responds ctx loads p injected (first :: others)
    let met := requestsFrom loads p.scanner.transactionStatus 0 (completeMessages (p.bufs.clientBuf ++ first :: others))
    have raws : met.map Request.raw = completeMessages (p.bufs.clientBuf ++ first :: others) :=
      SlowLoop.requestsFrom_raws ..
    have fine : ∀ r ∈ met, Accepted r.raw := fun r member => accepted r.raw (raws ▸ List.mem_map_of_mem member)
    have most := @replies_grown ctx met fine (rest.length + m)
    rw [raws, ← serverWrites_respondAll ctx injected, ← Nat.add_assoc _ rest.length,
      ← List.length_append, ← frames, List.length_append] at most
    obtain ⟨-, run⟩ | ⟨e, -, run⟩ := ends <;>
      simpa only [selectPass, mode, run, forwarded, Event.clientChunk] using most
  | .ok (first :: others), .slow injected, .server =>
    obtain ⟨raws, writes⟩ := SlowLoop.slowServer_writes loads p (first :: others)
    have nothing : forwarded (slowServer loads p (first :: others)).2.1 = 0 := by
      simp [writes, forwarded, serverWrites, List.filterMap_map, Function.comp_def, Write.toServer?]
    simp only [selectPass, mode, nothing, Event.clientChunk, Nat.zero_add, List.length_nil, Nat.add_zero]
    exact Nat.le_refl _

theorem length_readFrom {capacity : Nat} {channel rest : Fifo UInt8 capacity} {read : Except String Bytes}
    (ends : readFrom channel read = some rest) :
    (read.toOption.getD []).length + rest.items.length = channel.items.length := by
  match read with
  | .error cause =>
    obtain rfl := Option.some.inj ends
    exact Nat.zero_add _
  | .ok [] =>
    simp only [readFrom, Option.ite_none_right_eq_some, Option.some.injEq] at ends
    obtain ⟨-, rfl⟩ := ends
    exact Nat.zero_add _
  | .ok (first :: others) =>
    simp only [readFrom, Option.ite_none_right_eq_some, Option.some.injEq] at ends
    obtain ⟨here, rfl⟩ := ends
    have within := here.length_le
    simp only [Except.toOption, Option.getD_some, Fifo.pull, List.length_drop]
    omega

theorem Light.of_le {s t : Wires c} {sent more : Nat} (light : s.Light sent more)
    (requests : t.towardServer 0 ≤ s.towardServer sent) (answers : t.answered 0 ≤ s.answered more) : t.Light 0 0 := by
  obtain within | within := light
  · exact .inl (requests.trans within)
  · exact .inr (answers.trans within)

theorem light_start (p : Proxy) : (start p : Wires c).Light 0 0 := .inr (Nat.zero_le _)

theorem Light.not_deadlocked {s : Wires c} (light : s.Light 0 0) : ¬ s.Deadlocked := by
  rintro ⟨proxy, server⟩
  obtain ⟨bytes, here, full⟩ := proxy.writing
  obtain within | within := light
  · refine full (Fifo.fits_of_add_le (Nat.le_trans ?_ within))
    simp only [towardServer, here, Option.toList_some, forwarded_append]
    have first : forwarded [.toServer bytes] = bytes.length := by simp [forwarded, serverWrites, Write.toServer?]
    omega
  · exact server (Fifo.fits_of_add_le within)

theorem select_light {ctx : Settings} {s t : Wires c} {event : Event} (light : s.Light 0 0)
    (stepped : step ctx s (.select event) = some t) : t.Light 0 0 := by
  simp only [step] at stepped
  split at stepped
  · rename_i p running made free peer
    obtain ⟨channel, taken, rfl⟩ := Option.map_eq_some_iff.mp stepped
    refine light.of_le ?_ (Nat.le_refl _)
    have taken := length_readFrom taken
    have passed := selectPass_grown ctx p event channel.items.length
    have chunk : event.clientChunk = event.read.toOption.getD [] := by
      simp only [Event.clientChunk, peer]
      cases event.read <;> rfl
    rw [chunk, Nat.add_assoc, taken] at passed
    have had : unsent s.proxy = p.bufs.clientBuf.length := by rw [running]; rfl
    simp only [towardServer, pass, had, made, free, Option.toList_none, List.nil_append, Nat.add_zero, forwarded_nil]
    exact Nat.add_le_add_right ((Nat.add_comm ..).le.trans passed) _
  · rename_i p running made free peer
    obtain ⟨channel, taken, rfl⟩ := Option.map_eq_some_iff.mp stepped
    have taken := length_readFrom taken
    have passed := selectPass_grown ctx p event s.fromClient.items.length
    have chunk : event.clientChunk = [] := by simp [Event.clientChunk, peer]
    rw [chunk, List.length_nil, Nat.add_zero] at passed
    refine light.of_le ?_ ?_
    · have had : unsent s.proxy = p.bufs.clientBuf.length := by rw [running]; rfl
      simp only [towardServer, pass, had, made, free, Option.toList_none, List.nil_append, Nat.add_zero, forwarded_nil]
      exact Nat.add_le_add_right ((Nat.add_comm ..).le.trans passed) _
    · simp only [answered, pass]
      omega
  · cases stepped

theorem advance_light {s : Wires c} (light : s.Light 0 0) (n : Nat) {write : Write} (here : s.writing = some write) :
    (s.advance n write).Light 0 0 := by
  refine light.of_le ?_ (by cases write <;> exact Nat.le_refl _)
  cases write with
  | toServer bytes =>
    have moved := Fifo.length_offer s.toServer n bytes
    have one (bytes : Bytes) : forwarded [.toServer bytes] = bytes.length := by
      simp [forwarded, serverWrites, Write.toServer?]
    simp only [towardServer, advance, here, Option.toList_some, forwarded_append, one]
    split
    · rename_i done
      simp only [done, List.length_nil] at moved
      simp only [Option.toList_none, forwarded_nil]
      omega
    · simp only [Option.toList_some, one]
      omega
  | toClient bytes | notice bytes =>
    have none (bytes : Bytes) : forwarded [.toClient bytes] = 0 ∧ forwarded [.notice bytes] = 0 := ⟨rfl, rfl⟩
    simp only [towardServer, advance, here, Option.toList_some, forwarded_append, none]
    split <;> simp [none]

theorem step_light {ctx : Settings} (s : Wires c) (a : Act) (t : Wires c) (light : s.Light 0 0) (measured : s.Measured a)
    (stepped : step ctx s a = some t) : t.Light 0 0 := by
  cases a with
  | clientSends bytes =>
    obtain rfl := Option.some.inj stepped
    refine Light.of_le measured ?_ (Nat.le_refl _)
    simp [towardServer, Fifo.offer, Nat.add_assoc]
  | clientReads =>
    obtain rfl := Option.some.inj stepped
    exact light
  | select event => exact select_light light stepped
  | begin =>
    simp only [step] at stepped
    split at stepped
    · rename_i write rest idle next
      obtain rfl := Option.some.inj stepped
      exact light.of_le (by simp [towardServer, idle, next]) (Nat.le_refl _)
    · cases stepped
  | progress n =>
    obtain ⟨write, here, rfl⟩ := Option.map_eq_some_iff.mp stepped
    exact advance_light light n here
  | writeFails cause =>
    obtain ⟨write, here, rfl⟩ := Option.map_eq_some_iff.mp stepped
    refine light.of_le ?_ (Nat.le_refl _)
    have less := @grown_mono s.fromClient.items.length (unsent s.proxy + s.fromClient.items.length) (Nat.le_add_left ..)
    have nothing : unsent (.failed (.io cause)) = 0 := rfl
    simp only [towardServer, nothing, Option.toList_none, List.append_nil, forwarded_nil, Nat.add_zero, Nat.zero_add]
    omega
  | serverReads n =>
    simp only [step, Option.ite_none_right_eq_some, Option.some.injEq] at stepped
    obtain ⟨-, rfl⟩ := stepped
    refine light.of_le ?_ (Nat.le_refl _)
    simp only [towardServer, Fifo.pull, List.length_drop]
    omega
  | serverReplies bytes =>
    simp only [step, Option.ite_none_right_eq_some, Option.some.injEq] at stepped
    obtain ⟨done, rfl⟩ := stepped
    refine Light.of_le measured (Nat.le_refl _) ?_
    simp only [answered, done, List.length_nil]
    omega
  | serverWrites n =>
    obtain rfl := Option.some.inj stepped
    refine light.of_le (Nat.le_refl _) ?_
    have moved := Fifo.length_offer s.fromServer n s.reply
    simp only [answered, answer]
    omega

def narrow : Capacities := ⟨10, 10, 10, 10⟩

def sync : Bytes := PgMessage.encode ⟨'S'.toUInt8, []⟩

def fromClientRead (chunk : Bytes) : Act :=
  .select ⟨.client, .ok chunk, ⟨fun _ => false, fun _ => none⟩⟩

-- The answer is longer than the channel from the server. While the server waits for room, another request passes.
def longAnswer : List Act :=
  [.clientSends sync, fromClientRead sync, .begin, .progress 5, .serverReads 5,
    .serverReplies (buildReadyForQuery 'I'.toUInt8 ++ buildReadyForQuery 'I'.toUInt8), .serverWrites 12,
    .clientSends sync, fromClientRead sync, .begin, .progress 5]

-- The client sends five requests, two answers fill the channel from the server before the proxy reads from it,
-- and two requests fill the channel to the server, which reads no more.
def pipelined (forward : List Act) : List Act :=
  [.clientSends (sync ++ sync), fromClientRead (sync ++ sync)] ++ forward ++
    [.serverReads 10, .serverReplies (buildReadyForQuery 'I'.toUInt8 ++ buildReadyForQuery 'I'.toUInt8),
      .serverWrites 12, .clientSends (sync ++ sync), fromClientRead (sync ++ sync)] ++ forward ++
    [.clientSends sync, fromClientRead sync, .begin]

end Wires

end PgMux
