import PgMux.Proxy.Requests
import PgMux.Shared.History

set_option autoImplicit false

namespace PgMux

open Framing Request Transition

theorem reply_of_unknown (ctx : Settings) {r : Request} (unknown : r.size = none) : r.reply ctx = [r.raw] := by
  have plain : ¬ r.Enforced ctx := by
    rintro ⟨-, ⟨limit, -, size, known, -⟩, -⟩
    simp [unknown] at known
  rw [reply, if_neg plain]

-- A message that no size has been asked for.
def Request.plain (raw : Bytes) : Request := ⟨raw, none, 0⟩

theorem plain_raws (raws : List Bytes) : (raws.map Request.plain).map Request.raw = raws := by
  simp [Request.plain, Function.comp_def]

theorem plain_replies (ctx : Settings) (raws : List Bytes) : (raws.map Request.plain).flatMap (reply ctx) = raws := by
  induction raws with
  | nil => rfl
  | cons raw rest ih =>
    rw [List.map_cons, List.flatMap_cons, ih, reply_of_unknown ctx rfl]
    rfl

theorem plain_unknown (raws : List Bytes) : (raws.map Request.plain).filter (·.size.isSome) = [] := by
  simp [Request.plain, List.filter_eq_nil_iff]

namespace Session

def forwarded (s : Session) : Bytes := (serverWrites s.written).flatten

def newRequests (s : Session) (event : Event) (_ : Session) : List Request :=
  match s.proxy.mode with
  | .fast _ => []
  | .slow _ =>
    if event.clientChunk = [] then []
    else requestsFrom event.loads s.proxy.scanner.transactionStatus 0
      (completeMessages (s.proxy.bufs.clientBuf ++ event.clientChunk))

inductive Forwards (ctx : Settings) (s : Session) (event : Event) (t : Session) : Prop
  | server (new : s.newRequests event t = []) (read : t.clientRead = s.clientRead)
      (buf : t.proxy.bufs.clientBuf = s.proxy.bufs.clientBuf) (forwarded : t.forwarded = s.forwarded)
      (noticed : notices t.written = notices s.written)
      (slow : ∀ after, t.proxy.mode = .slow after →
        (∃ before, s.proxy.mode = .slow before) ∨ ∃ chunk, IdleRead s event chunk)
  | fast (pending after : Bool) (chunk : Bytes) (before : s.proxy.mode = .fast pending)
      (mode : t.proxy.mode = .fast after) (new : s.newRequests event t = [])
      (read : t.clientRead = s.clientRead ++ chunk) (buf : t.proxy.bufs.clientBuf = [])
      (forwarded : t.forwarded = s.forwarded ++ (s.proxy.bufs.clientBuf ++ chunk))
      (noticed : notices t.written = notices s.written)
  | slow (injected : Bool) (chunk : Bytes) (before : s.proxy.mode = .slow injected)
      (accepted : ∀ r ∈ s.newRequests event t, Accepted r.raw) (read : t.clientRead = s.clientRead ++ chunk)
      (frames : s.proxy.bufs.clientBuf ++ chunk =
        ((s.newRequests event t).map Request.raw).flatten ++ t.proxy.bufs.clientBuf)
      (forwarded : t.forwarded = s.forwarded ++ ((s.newRequests event t).flatMap (reply ctx)).flatten)
      (noticed : notices t.written = notices s.written ++
        notices (respondAll ctx injected (s.newRequests event t)).2)

theorem forwarded_toClient (raws : List Bytes) : serverWrites (raws.map .toClient) = [] := by
  simp [serverWrites, Write.toServer?]

theorem notices_append (first second : List Write) : notices (first ++ second) = notices first ++ notices second :=
  List.filterMap_append

theorem notices_toClient (raws : List Bytes) : notices (raws.map .toClient) = [] := by
  simp [notices]

theorem slowClient_forwards {ctx : Settings} {s t : Session} {loads : Loads} {injected : Bool} {chunk : Bytes}
    (mode : s.proxy.mode = .slow injected) (nonempty : chunk ≠ [])
    (stepped : step ctx s ⟨.client, .ok chunk, loads⟩ = some t) : Forwards ctx s ⟨.client, .ok chunk, loads⟩ t := by
  obtain ⟨first, others, rfl⟩ := List.exists_cons_of_ne_nil nonempty
  obtain ⟨rest, accepted, frames, ⟨-, run⟩ | ⟨e, -, run⟩⟩ :=
    SlowLoop.slowClient_responds ctx loads s.proxy injected (first :: others)
  · have new : s.newRequests ⟨.client, .ok (first :: others), loads⟩ t =
        requestsFrom loads s.proxy.scanner.transactionStatus 0
          (completeMessages (s.proxy.bufs.clientBuf ++ first :: others)) := by
      simp [newRequests, mode, Event.clientChunk]
    have raws : (s.newRequests ⟨.client, .ok (first :: others), loads⟩ t).map Request.raw =
        completeMessages (s.proxy.bufs.clientBuf ++ first :: others) := by
      rw [new, SlowLoop.requestsFrom_raws]
    simp only [step, selectPass, mode, run, next, Option.some.injEq] at stepped
    refine .slow injected (first :: others) mode ?_ ?_ ?_ ?_ ?_
    · intro r member
      apply accepted
      rw [← raws]
      exact List.mem_map_of_mem member
    · simp [← stepped]
    · rw [raws, ← stepped]
      exact frames
    · rw [new, ← stepped]
      simp only [forwarded, serverWrites_append, serverWrites_respondAll, List.flatten_append]
    · rw [new, ← stepped, notices_append]
  · simp [step, selectPass, mode, run, next] at stepped

theorem step_forwards {ctx : Settings} {s t : Session} {event : Event} (stepped : step ctx s event = some t) :
    Forwards ctx s event t := by
  obtain ⟨chunk, read, nonempty, turn⟩ := step_turn stepped
  obtain ⟨peer, result, loads⟩ := event
  obtain rfl : result = .ok chunk := read
  cases peer with
  | client =>
    cases mode : s.proxy.mode with
    | fast pending =>
      cases turn with
      | fastClient pending' mode' =>
        refine .fast pending _ chunk mode rfl ?_ rfl rfl ?_ ?_
        · simp [newRequests, mode]
        · simp [forwarded, serverWrites, Write.toServer?]
        · simp [notices]
      | slowClient injected after raws rest more slow frames accepted drained quiet => simp [mode] at slow
    | slow injected => exact slowClient_forwards mode nonempty stepped
  | server =>
    have new : s.newRequests ⟨.server, .ok chunk, loads⟩ t = [] := by
      cases mode : s.proxy.mode <;> simp [newRequests, mode, Event.clientChunk]
    cases turn with
    | fastServer pending mode stays =>
      refine .server new rfl rfl ?_ (by simp [notices]) (by simp [mode])
      simp [forwarded, serverWrites, Write.toServer?]
    | toSlow mode idle =>
      refine .server new rfl rfl ?_ (by simp [notices]) fun _ _ => .inr ⟨chunk, mode, rfl, rfl, nonempty, idle⟩
      simp [forwarded, serverWrites, Write.toServer?]
    | slowServer injected scanner raws rest mode frames accepted drained set framing =>
      refine .server new rfl rfl ?_ ?_ fun _ _ => .inl ⟨injected, mode⟩
      · simp only [forwarded, serverWrites_append, forwarded_toClient, List.append_nil]
      · simp only [notices_append, notices_toClient, List.append_nil]
    | toFast injected scanner raws ready rest mode frames accepted last idle set cleared framing =>
      refine .server new rfl rfl ?_ ?_ (by simp)
      · simp only [forwarded, serverWrites_append, forwarded_toClient, List.append_nil]
      · simp only [notices_append, notices_toClient, List.append_nil]

-- What the slow loop asks a size for has a length that it accepts.
def Framed (r : Request) : Prop := IsFrame pgFormat r.raw ∧ (r.size.isSome → Accepted r.raw)

/-- The first messages that were taken from the client have been replied to, and what came behind them has
gone through as it is. Those with a known size are the ones that the slow loop has met with that size. -/
def Replied (ctx : Settings) (s : Session) (met : List Request) : Prop :=
  ∃ (requests : List Request) (part : Bytes), (∀ r ∈ requests, Framed r) ∧
    s.clientTaken = (requests.map Request.raw).flatten ++ part ∧
    s.forwarded = (requests.flatMap (reply ctx)).flatten ++ part ∧
    requests.filter (·.size.isSome) = met.filter (·.size.isSome) ∧
    ∀ injected, s.proxy.mode = .slow injected → part = []

theorem replied_initial (ctx : Settings) : Replied ctx {} [] :=
  ⟨[], [], by simp, rfl, rfl, rfl, by simp⟩

theorem Replied.settle {ctx : Settings} {s : Session} {met : List Request} (replied : Replied ctx s met)
    (whole : AtBoundary pgFormat s.clientTaken) :
    ∃ requests : List Request, (∀ r ∈ requests, Framed r) ∧
      s.clientTaken = (requests.map Request.raw).flatten ∧
      s.forwarded = (requests.flatMap (reply ctx)).flatten ∧
      requests.filter (·.size.isSome) = met.filter (·.size.isSome) := by
  obtain ⟨requests, part, frames, taken, sent, known, -⟩ := replied
  have before : AtBoundary pgFormat (requests.map Request.raw).flatten := by
    apply atBoundary_flatten
    simpa using fun r member => (frames r member).1
  rw [taken, atBoundary_append before] at whole
  obtain ⟨raws, each, rfl⟩ := whole.frames
  refine ⟨requests ++ raws.map Request.plain, ?_, ?_, ?_, ?_⟩
  · intro r member
    obtain old | new := List.mem_append.mp member
    · exact frames r old
    · obtain ⟨raw, inside, rfl⟩ := List.mem_map.mp new
      exact ⟨each raw inside, nofun⟩
  · rw [taken, List.map_append, plain_raws, List.flatten_append]
  · rw [sent, List.flatMap_append, plain_replies, List.flatten_append]
  · rw [List.filter_append, plain_unknown, List.append_nil, known]

theorem step_replied {ctx : Settings} (s : Session) (event : Event) (t : Session) (met : List Request)
    (before : Conserved s ∧ ClientAligned s) (after : Conserved t ∧ ClientAligned t) (replied : Replied ctx s met)
    (stepped : step ctx s event = some t) : Replied ctx t (met ++ s.newRequests event t) := by
  cases step_forwards stepped with
  | server new read buf forwarded noticed slow =>
    have taken : t.clientTaken = s.clientTaken := by rw [clientTaken, clientTaken, read, buf]
    rw [new, List.append_nil]
    cases mode : t.proxy.mode with
    | fast pending =>
      obtain ⟨requests, part, frames, came, sent, known, -⟩ := replied
      exact ⟨requests, part, frames, taken.trans came, forwarded.trans sent, known, by simp [mode]⟩
    | slow injected =>
      have whole := (after.2.slow mode).1
      rw [taken] at whole
      obtain ⟨requests, frames, came, sent, known⟩ := replied.settle whole
      exact ⟨requests, [], frames, by simpa [taken] using came, by simpa [forwarded] using sent, known, by simp⟩
  | fast pending later chunk mode mode' new read buf forwarded noticed =>
    obtain ⟨requests, part, frames, came, sent, known, -⟩ := replied
    have taken : t.clientTaken = s.clientTaken ++ (s.proxy.bufs.clientBuf ++ chunk) := by
      rw [← List.append_assoc, before.1.client, ← read, ← after.1.client, buf, List.append_nil]
    refine ⟨requests, part ++ (s.proxy.bufs.clientBuf ++ chunk), frames, ?_, ?_, ?_, by simp [mode']⟩
    · rw [taken, came, List.append_assoc]
    · rw [forwarded, sent, List.append_assoc]
    · rw [new, List.append_nil, known]
  | slow injected chunk mode accepted read split forwarded noticed =>
    obtain ⟨requests, part, frames, came, sent, known, empty⟩ := replied
    obtain rfl := empty injected mode
    refine ⟨requests ++ s.newRequests event t, [], ?_, ?_, ?_, ?_, by simp⟩
    · intro r member
      obtain old | new := List.mem_append.mp member
      · exact frames r old
      · exact ⟨(accepted r new).1.isFrame, fun _ => accepted r new⟩
    · have whole := after.1.client
      rw [read, ← before.1.client, List.append_assoc, split, ← List.append_assoc] at whole
      rw [List.append_cancel_right whole, came]
      simp
    · rw [forwarded, sent]
      simp
    · rw [List.filter_append, List.filter_append, known]

theorem always_replied (ctx : Settings) {events : List Event}
    (between : Along (step ctx) BetweenClientMessages {} events) :
    Always (recorded (step ctx) newRequests) (fun r => Conserved r.state ∧ Replied ctx r.state r.events) ⟨{}, []⟩
      events := by
  have conserved : Always (step ctx) Conserved {} events := always step_conserved events conserved_initial
  have aligned := conserved.and ((clientAligned_iff ctx events).mpr between)
  exact (conserved.recorded []).and (always_history step_replied aligned (replied_initial ctx))

/-- The server has got a reply to each message of the client up to those that are left, and then a part of
the first one that is left, as it is. -/
structure PassedOn (ctx : Settings) (s : Session) (met : List Request) (msgs : List PgMessage)
    (requests : List Request) (left : List PgMessage) (part : Bytes) : Prop where
  messages : msgs.map PgMessage.encode = requests.map Request.raw ++ left.map PgMessage.encode
  taken : s.clientTaken = (requests.map Request.raw).flatten ++ part
  forwarded : s.forwarded = (requests.flatMap (reply ctx)).flatten ++ part
  part : PartOfNext (left.map PgMessage.encode) part
  known : requests.filter (·.size.isSome) = met.filter (·.size.isSome)
  wellFormed : ∃ outs : List PgMessage, (∀ out ∈ outs, out.WellFormed) ∧
    (requests.flatMap (reply ctx)).flatten = wire outs

-- What is met is a message of the client, and so is what is written for it.
theorem replies_wire (ctx : Settings) {requests : List Request} (framed : ∀ r ∈ requests, Framed r)
    (messages : ∀ r ∈ requests, ∃ msg : PgMessage, msg.WellFormed ∧ r.raw = msg.encode) :
    ∃ outs : List PgMessage, (∀ out ∈ outs, out.WellFormed) ∧
      (requests.flatMap (reply ctx)).flatten = wire outs := by
  induction requests with
  | nil => exact ⟨[], by simp, rfl⟩
  | cons r rest ih =>
    simp only [List.forall_mem_cons] at framed messages
    obtain ⟨outs, valid, later⟩ := ih framed.2 messages.2
    rw [List.flatMap_cons, List.flatten_append, later]
    by_cases enforced : r.Enforced ctx
    · rw [reply, if_pos enforced]
      cases found : r.text with
      | none => exact ⟨outs, valid, by simp⟩
      | some text =>
        obtain ⟨limit, -, size, known, -⟩ := enforced.2.1
        have accepted : Accepted r.raw := framed.1.2 (by simp [Option.mem_def.mp known])
        refine ⟨readOnlyMessage text :: outs, ?_, ?_⟩
        · simpa using ⟨readOnlyMessage_wellFormed accepted found, valid⟩
        · simp [wire, readOnlyQuery, readOnlyMessage]
    · obtain ⟨msg, fine, same⟩ := messages.1
      rw [reply, if_neg enforced, same]
      refine ⟨msg :: outs, ?_, by simp [wire]⟩
      simpa using ⟨fine, valid⟩

theorem Replied.passedOn {ctx : Settings} {s : Session} {met : List Request} {msgs : List PgMessage}
    (conserved : Conserved s) (replied : Replied ctx s met) (valid : ∀ msg ∈ msgs, msg.WellFormed)
    (stream : s.clientRead <+: wire msgs) : ∃ requests left part, PassedOn ctx s met msgs requests left part := by
  obtain ⟨requests, part, framed, taken, sent, known, -⟩ := replied
  have frames : ∀ frame ∈ requests.map Request.raw, IsFrame pgFormat frame := by
    simpa using fun r member => (framed r member).1
  have start : (requests.map Request.raw).flatten ++ part <+: (msgs.map PgMessage.encode).flatten := by
    rw [← taken, ← wire_frames]
    exact (conserved.client ▸ List.prefix_append _ _).trans stream
  obtain ⟨more, same, rest⟩ := frames_prefix frames (frames_of_wellFormed valid) start
  obtain ⟨through, after, front, rfl, rfl, next⟩ := split_prefix rest
  obtain ⟨replied, others, rfl, raws, same⟩ := List.map_eq_append_iff.mp same
  obtain ⟨passed, left, rfl, rfl, rfl⟩ := List.map_eq_append_iff.mp same
  let all := requests ++ (passed.map PgMessage.encode).map Request.plain
  have first : all.map Request.raw = (replied ++ passed).map PgMessage.encode := by
    rw [List.map_append, plain_raws, List.map_append, raws]
  refine ⟨all, left, front, ?_, ?_, ?_, next, ?_, ?_⟩
  · rw [first, ← List.map_append, List.append_assoc]
  · rw [taken, first, List.map_append, List.flatten_append, raws, List.append_assoc]
  · rw [sent, List.flatMap_append, plain_replies, List.flatten_append, List.append_assoc]
  · rw [List.filter_append, plain_unknown, List.append_nil, known]
  · have messages : ∀ r ∈ all, ∃ msg : PgMessage, msg.WellFormed ∧ r.raw = msg.encode := by
      intro r member
      have inside : r.raw ∈ (replied ++ passed).map PgMessage.encode := first ▸ List.mem_map_of_mem member
      obtain ⟨msg, sent, same⟩ := List.mem_map.mp inside
      refine ⟨msg, valid msg ?_, same.symm⟩
      rw [← List.append_assoc]
      exact List.mem_append_left _ sent
    apply replies_wire ctx ?_ messages
    intro r member
    obtain old | new := List.mem_append.mp member
    · exact framed r old
    · obtain ⟨msg, fine, same⟩ := messages r member
      obtain ⟨raw, -, rfl⟩ := List.mem_map.mp new
      exact ⟨same ▸ (PgMessage.isMessage_encode fine).isFrame, nofun⟩

theorem messages_forwarded (ctx : Settings) {events : List Event}
    (between : Along (step ctx) BetweenClientMessages {} events) :
    Always (recorded (step ctx) newRequests) (fun r => ∀ msgs : List PgMessage, (∀ msg ∈ msgs, msg.WellFormed) →
      r.state.clientRead <+: wire msgs → ∃ requests left part, PassedOn ctx r.state r.events msgs requests left part)
      ⟨{}, []⟩ events := by
  refine (always_replied ctx between).mono ?_
  rintro r ⟨conserved, replied⟩ msgs valid stream
  exact replied.passedOn conserved valid stream

instance (s : Session) (event : Event) : Decidable (BetweenClientMessages s event) :=
  match read : event.read with
  | .error cause => isTrue (by simp [BetweenClientMessages, IdleRead, read])
  | .ok chunk => decidable_of_iff
      (s.proxy.mode = .fast true ∧ event.peer = .server ∧ chunk ≠ [] ∧
        (s.proxy.scanner.scan (s.proxy.bufs.serverBuf ++ chunk)).2 = true → AtBoundary pgFormat s.clientRead)
      (by simp [BetweenClientMessages, IdleRead, read])

-- The limit is exceeded after the first query.
def secondRewritten : List Event :=
  [reads .client (wire [query "SELECT 1"]) true,
    reads .server (wire [commandComplete "SELECT 1", readyForQuery 'I']) true,
    SlowLoop.overLimitReads (wire [query "SELECT 2"])]

theorem messages_forwarded_secondRewritten : ∃ r,
    run (recorded (step testSettings) newRequests) ⟨{}, []⟩ secondRewritten = some r ∧
      r.state.forwarded = wire [query "SELECT 1", readOnlyMessage "SELECT 2"] ∧
      ∃ requests left part,
        PassedOn testSettings r.state r.events [query "SELECT 1", query "SELECT 2"] requests left part := by
  obtain ⟨r, ran, sent, read⟩ : ∃ r,
      run (recorded (step testSettings) newRequests) ⟨{}, []⟩ secondRewritten = some r ∧
      r.state.forwarded = wire [query "SELECT 1", readOnlyMessage "SELECT 2"] ∧
      r.state.clientRead <+: wire [query "SELECT 1", query "SELECT 2"] :=
    exists_run (by decide)
  have all := @messages_forwarded testSettings secondRewritten (by decide)
  exact ⟨r, ran, sent, all.last ran [query "SELECT 1", query "SELECT 2"] (by decide) read⟩

-- No size that a pass gets to know is over the limit.
def WithinLimit (ctx : Settings) (event : Event) : Prop :=
  ∀ k, ∀ limit ∈ maxSize ctx, ∀ size ∈ event.loads.dbSize k, size ≤ limit

theorem WithinLimit.requests {ctx : Settings} {s t : Session} {event : Event} (within : WithinLimit ctx event) :
    ∀ r ∈ s.newRequests event t, ¬ r.OverLimit ctx := by
  have each (k : Nat) (raws : List Bytes) :
      ∀ r ∈ requestsFrom event.loads s.proxy.scanner.transactionStatus k raws, ¬ r.OverLimit ctx := by
    induction raws generalizing k with
    | nil => simp [requestsFrom]
    | cons raw rest ih =>
      rw [requestsFrom, List.forall_mem_cons]
      refine ⟨?_, ih _⟩
      rintro ⟨limit, limited, size, known, beyond⟩
      exact absurd (within k limit limited size known) (Nat.not_le.mpr beyond)
  rw [newRequests]
  split
  · simp
  · split
    · simp
    · exact each _ _

theorem notices_within {ctx : Settings} {requests : List Request} (within : ∀ r ∈ requests, ¬ r.OverLimit ctx)
    (injected : Bool) : notices (respondAll ctx injected requests).2 = [] := by
  induction requests generalizing injected with
  | nil => rfl
  | cons r rest ih =>
    rw [List.forall_mem_cons] at within
    have quiet : notices (r.respond ctx injected).2 = [] := by
      rw [respond, if_neg fun both => within.1 both.2]
      simp [notices]
    rw [respondAll, notices_append, quiet, ih within.2, List.append_nil]

theorem replies_within {ctx : Settings} {requests : List Request} (within : ∀ r ∈ requests, ¬ r.OverLimit ctx) :
    requests.flatMap (reply ctx) = requests.map Request.raw := by
  induction requests with
  | nil => rfl
  | cons r rest ih =>
    rw [List.forall_mem_cons] at within
    rw [List.flatMap_cons, ih within.2, reply, if_neg fun enforced => within.1 enforced.2.1]
    rfl

/-- As long as no size over the limit is met, the proxy is a pipe in both directions, whatever the bytes are
and however often it switches between its loops. -/
theorem pipe_within (ctx : Settings) {events : List Event} (within : ∀ event ∈ events, WithinLimit ctx event) :
    Always (step ctx) (fun s => s.forwarded ++ s.proxy.bufs.clientBuf = s.clientRead ∧
      s.relayed ++ s.proxy.bufs.serverBuf = s.serverRead ∧ notices s.written = []) {} events := by
  have piped : Always (step ctx) (fun s => s.forwarded ++ s.proxy.bufs.clientBuf = s.clientRead ∧
      notices s.written = []) {} events := by
    refine always_of_along ?_ (along_of_forall (fun event member _ => within event member) _) ⟨rfl, rfl⟩
    rintro s event t ⟨sent, quiet⟩ calm stepped
    cases step_forwards stepped with
    | server new read buf forwarded noticed slow =>
      rw [forwarded, buf, read, noticed]
      exact ⟨sent, quiet⟩
    | fast pending later chunk mode mode' new read buf forwarded noticed =>
      rw [forwarded, buf, read, noticed, ← sent]
      exact ⟨by simp, quiet⟩
    | slow injected chunk mode accepted read split forwarded noticed =>
      rw [replies_within calm.requests] at forwarded
      rw [notices_within calm.requests] at noticed
      rw [forwarded, read, noticed, ← sent, List.append_assoc, ← split]
      exact ⟨by simp, by simpa using quiet⟩
  exact ((relayed_conserved ctx events).and piped).mono fun s both => ⟨both.2.1, both.1, both.2.2⟩

-- Into the slow loop and out of it, with the database below the limit all along.
def throughBothLoops : List Event :=
  [reads .client (wire [query "SELECT 1"]) true,
    reads .server (wire [commandComplete "SELECT 1", readyForQuery 'I']) true,
    ⟨.client, .ok (wire [query "SELECT 2"]), ⟨fun _ => true, fun _ => some 900⟩⟩,
    reads .server (wire [commandComplete "SELECT 1", readyForQuery 'I']) false]

theorem pipe_within_throughBothLoops : ∃ s, run (step testSettings) {} throughBothLoops = some s ∧
    s.forwarded ++ s.proxy.bufs.clientBuf = wire [query "SELECT 1", query "SELECT 2"] ∧ notices s.written = [] := by
  obtain ⟨s, ran, read⟩ : ∃ s, run (step testSettings) {} throughBothLoops = some s ∧
      s.clientRead = wire [query "SELECT 1", query "SELECT 2"] := exists_run (by decide)
  have within : ∀ event ∈ throughBothLoops, WithinLimit testSettings event := by
    simp [throughBothLoops, WithinLimit, reads, maxSize, testSettings]
  have piped := (pipe_within testSettings within).last ran
  exact ⟨s, ran, piped.1.trans read, piped.2.2⟩

end Session

end PgMux
