import PgMux.Shared.Transition
import PgMux.Proxy.Drains

set_option autoImplicit false

namespace PgMux

/-- A message of the client as the slow loop meets it: its bytes, the size of the database that the
monitor knows at that time, and the last status that the server has reported. -/
structure Request where
  raw : Bytes
  size : Option Nat
  status : UInt8
deriving DecidableEq, Repr

namespace Request

def msg (r : Request) : PgMessage := parseRaw r.raw

def text (r : Request) : Option String := extractQueryText r.msg

-- The types for which the loop asks the monitor, if there is a limit.
def asksSize (raw : Bytes) : Bool := raw.headD 0 = 'Q'.toUInt8 || raw.headD 0 = 'P'.toUInt8

def IsQuery (r : Request) : Prop := r.msg.msgType = 'Q'.toUInt8

def OverLimit (ctx : Settings) (r : Request) : Prop :=
  ∃ limit ∈ maxSize ctx, ∃ size ∈ r.size, limit < size

instance (ctx : Settings) (r : Request) : Decidable (r.OverLimit ctx) :=
  decidable_of_iff ((maxSize ctx).any (fun limit => r.size.any (limit < ·)) = true)
    (by simp [OverLimit, Option.any_eq_true])

instance (r : Request) : Decidable r.IsQuery := inferInstanceAs (Decidable (_ = _))

-- Allowed as it is although the database is over its limit.
def Exempt (ctx : Settings) (r : Request) : Prop :=
  ctx.cfg.monitor.allowShrinkOperationsWhenOverlimit = true ∧
    ∃ text ∈ r.text, isShrinkOperation text = true

instance (ctx : Settings) (r : Request) : Decidable (r.Exempt ctx) :=
  decidable_of_iff (ctx.cfg.monitor.allowShrinkOperationsWhenOverlimit = true ∧
    r.text.any isShrinkOperation = true) (by simp [Exempt, Option.any_eq_true])

def Enforced (ctx : Settings) (r : Request) : Prop :=
  r.IsQuery ∧ r.OverLimit ctx ∧ ¬ r.Exempt ctx

instance (ctx : Settings) (r : Request) : Decidable (r.Enforced ctx) :=
  inferInstanceAs (Decidable (_ ∧ _ ∧ ¬ _))

-- What the loop writes to the server for the message.
def reply (ctx : Settings) (r : Request) : List Bytes :=
  if r.Enforced ctx then (r.text.map readOnlyQuery).toList else [r.raw]

-- What it writes in all, and the latch after it.
def respond (ctx : Settings) (injected : Bool) (r : Request) : Bool × List Write :=
  if asksSize r.raw ∧ r.OverLimit ctx then
    if r.Enforced ctx ∧ r.text.isSome then
      (true, (if injected then [] else [.notice (overLimitNotice ctx)]) ++ (r.reply ctx).map .toServer)
    else (injected, (r.reply ctx).map .toServer)
  else (false, (r.reply ctx).map .toServer)

def respondAll (ctx : Settings) : Bool → List Request → Bool × List Write
  | injected, [] => (injected, [])
  | injected, r :: rest =>
    let (next, writes) := r.respond ctx injected
    let (last, more) := respondAll ctx next rest
    (last, writes ++ more)

end Request

-- The messages of a client read with the sizes that the loop gets to know: one for each message for
-- which it asks the monitor.
def requestsFrom (loads : Loads) (status : UInt8) : Nat → List Bytes → List Request
  | _, [] => []
  | k, raw :: rest =>
    ⟨raw, loads.dbSize k, status⟩ ::
      requestsFrom loads status (if Request.asksSize raw then k + 1 else k) rest

structure SlowLoop where
  proxy : Proxy
  clientRead : Bytes := []
  requests : List Request := []
  written : List Write := []
  -- The branch of `select!` that left the loop, and how.
  returned : Option (Peer × Outcome) := none
deriving DecidableEq, Repr

def Event.clientChunk (event : Event) : Bytes :=
  match event.peer, event.read with
  | .client, .ok chunk => chunk
  | _, _ => []

namespace SlowLoop

def start (scanner : MessageBoundaryScanner) : SlowLoop :=
  { proxy := { mode := .slow false, scanner := scanner } }

def newRequests (l : SlowLoop) (event : Event) : List Request :=
  if l.returned.isNone ∧ event.clientChunk ≠ [] then
    requestsFrom event.loads l.proxy.scanner.transactionStatus 0
      (completeMessages (l.proxy.bufs.clientBuf ++ event.clientChunk))
  else []

def exitOf (peer : Peer) : Outcome → Option (Peer × Outcome)
  | .again => none
  | outcome => some (peer, outcome)

-- Once the loop has returned it reads no more.
def step (ctx : Settings) (l : SlowLoop) (event : Event) : Option SlowLoop :=
  if l.returned.isSome then some l
  else
    let (p, writes, outcome) := selectPass ctx l.proxy event
    some {
      proxy := p
      clientRead := l.clientRead ++ event.clientChunk
      requests := l.requests ++ l.newRequests event
      written := l.written ++ writes
      returned := exitOf event.peer outcome }

end SlowLoop

def Write.toServer? : Write → Option Bytes
  | .toServer bytes => some bytes
  | _ => none

def serverWrites (writes : List Write) : List Bytes := writes.filterMap Write.toServer?

-- What comes out of the client's branch: all but the server's messages.
def Write.ofClient : Write → Bool
  | .toClient _ => false
  | _ => true

def clientSide (writes : List Write) : List Write := writes.filter Write.ofClient

open Request

theorem shouldInject_spec (ctx : Settings) (loads : Loads) (pass : ClientPass) (raw : Bytes)
    (status : UInt8) :
    ((shouldInject ctx loads pass).1 = true ↔
        OverLimit ctx ⟨raw, loads.dbSize pass.sizeLoads, status⟩) ∧
      (shouldInject ctx loads pass).2 =
        { pass with sizeLoads := pass.sizeLoads + if (maxSize ctx).isSome then 1 else 0 } := by
  simp only [shouldInject, OverLimit]
  cases limit : maxSize ctx with
  | none => simp
  | some limit =>
    cases loads.dbSize pass.sizeLoads <;> simp

theorem enforce_spec (ctx : Settings) (pass : ClientPass) (r : Request) (asks : asksSize r.raw = true)
    (beyond : r.OverLimit ctx) :
    enforce ctx pass r.msg r.raw =
      { pass with
        injected := (r.respond ctx pass.injected).1
        writes := pass.writes ++ (r.respond ctx pass.injected).2 } := by
  have exempt : (((extractQueryText r.msg).map isShrinkOperation).getD false &&
      ctx.cfg.monitor.allowShrinkOperationsWhenOverlimit) = true ↔ r.Exempt ctx := by
    simp only [Exempt, Request.text, Bool.and_eq_true]
    cases extractQueryText r.msg <;> simp [and_comm]
  simp only [enforce, respond, reply, if_pos (And.intro asks beyond), exempt]
  by_cases free : r.Exempt ctx
  · have plain : ¬ r.Enforced ctx := fun enforced => enforced.2.2 free
    rw [if_pos free, if_neg (fun both => plain both.1), if_neg plain]
    rfl
  · rw [if_neg free]
    by_cases query : r.msg.msgType = 'Q'.toUInt8
    · have enforced : r.Enforced ctx := ⟨query, beyond, free⟩
      simp only [if_pos query, enforced, Request.text, true_and, if_true]
      cases extractQueryText r.msg with
      | none => simp
      | some text => cases injected : pass.injected <;> simp [injected]
    · have plain : ¬ r.Enforced ctx := fun enforced => query enforced.1
      rw [if_neg query, if_neg (fun both => plain both.1), if_neg plain]
      rfl

theorem slowClientMessage_respond (ctx : Settings) (loads : Loads) (pass : ClientPass) (raw : Bytes)
    (status : UInt8) :
    (slowClientMessage ctx loads pass (parseRaw raw, raw)).1 =
      { injected := (respond ctx pass.injected ⟨raw, loads.dbSize pass.sizeLoads, status⟩).1
        writes := pass.writes ++ (respond ctx pass.injected ⟨raw, loads.dbSize pass.sizeLoads, status⟩).2
        sizeLoads := pass.sizeLoads + if asksSize raw = true ∧ (maxSize ctx).isSome then 1 else 0 } := by
  let r : Request := ⟨raw, loads.dbSize pass.sizeLoads, status⟩
  have forwarded (free : ¬ (asksSize raw = true ∧ r.OverLimit ctx)) (not : ¬ r.Enforced ctx) :
      r.respond ctx pass.injected = (false, [.toServer raw]) := by
    simp only [respond, reply, if_neg not]
    rw [if_neg free]
    rfl
  simp only [slowClientMessage]
  by_cases asks : asksSize raw = true
  · have kinds : ¬ ((parseRaw raw).msgType ≠ 'Q'.toUInt8 ∧ (parseRaw raw).msgType ≠ 'P'.toUInt8) := by
      simp only [asksSize, Bool.or_eq_true, decide_eq_true_eq] at asks
      rintro ⟨query, parse⟩
      exact asks.elim query parse
    obtain ⟨over_iff, loaded⟩ := shouldInject_spec ctx loads pass raw status
    rw [if_neg kinds, loaded]
    by_cases beyond : r.OverLimit ctx
    · rw [if_pos (over_iff.mpr beyond)]
      refine (enforce_spec ctx _ r asks beyond).trans ?_
      simp [asks, r]
    · rw [if_neg (fun set => beyond (over_iff.mp set)),
        forwarded (fun both => beyond both.2) (fun enforced => beyond enforced.2.1)]
      simp [asks]
  · have kinds : (parseRaw raw).msgType ≠ 'Q'.toUInt8 ∧ (parseRaw raw).msgType ≠ 'P'.toUInt8 := by
      simpa [asksSize, parseRaw] using asks
    rw [if_pos kinds, forwarded (fun both => asks both.1) (fun enforced => kinds.1 enforced.1)]
    simp [asks]

theorem respond_unlimited {ctx : Settings} (none : maxSize ctx = none) (injected : Bool) (raw : Bytes)
    (size size' : Option Nat) (status : UInt8) :
    respond ctx injected ⟨raw, size, status⟩ = respond ctx injected ⟨raw, size', status⟩ := by
  simp [respond, reply, Enforced, OverLimit, none]

theorem fold_respondAll (ctx : Settings) (loads : Loads) (status : UInt8) (raws : List Bytes)
    (pass : ClientPass) (k : Nat) (counted : maxSize ctx = none ∨ pass.sizeLoads = k) :
    let after := (raws.map fun raw => (parseRaw raw, raw)).foldl
      (fun pass m => (slowClientMessage ctx loads pass m).1) pass
    after.injected = (respondAll ctx pass.injected (requestsFrom loads status k raws)).1 ∧
      after.writes = pass.writes ++ (respondAll ctx pass.injected (requestsFrom loads status k raws)).2 := by
  induction raws generalizing pass k with
  | nil => simp [requestsFrom, respondAll]
  | cons raw rest ih =>
    have here := slowClientMessage_respond ctx loads pass raw status
    have same : respond ctx pass.injected ⟨raw, loads.dbSize pass.sizeLoads, status⟩ =
        respond ctx pass.injected ⟨raw, loads.dbSize k, status⟩ := by
      obtain none | rfl := counted
      · exact respond_unlimited none _ _ _ _ _
      · rfl
    rw [same] at here
    have next := ih (slowClientMessage ctx loads pass (parseRaw raw, raw)).1
      (if asksSize raw then k + 1 else k) (by
        rw [here]
        obtain none | rfl := counted
        · exact .inl none
        · cases limit : maxSize ctx with
          | none => exact .inl rfl
          | some limit =>
            right
            by_cases asks : asksSize raw = true <;> simp [asks])
    simp only [List.map_cons, List.foldl_cons, requestsFrom, respondAll]
    rw [next.1, next.2, here]
    exact ⟨rfl, List.append_assoc _ _ _⟩

namespace SlowLoop

/-- The loop has met the messages of the client one after the other, has responded to each one, and
has the rest in its buffer. -/
structure Responded (ctx : Settings) (l : SlowLoop) : Prop where
  accepted : ∀ r ∈ l.requests, Accepted r.raw
  parsed : l.clientRead = (l.requests.map Request.raw).flatten ++ l.proxy.bufs.clientBuf
  ends : tryReadMessageWithRaw l.proxy.bufs.clientBuf = .ok none ∧
      (∀ e, l.returned ≠ some (.client, .fail (.message e))) ∨
    ∃ e, tryReadMessageWithRaw l.proxy.bufs.clientBuf = .error e ∧
      l.returned = some (.client, .fail (.message e))
  responded : ∃ injected, l.proxy.mode = .slow injected ∧
    respondAll ctx false l.requests = (injected, clientSide l.written)

theorem respondAll_append (ctx : Settings) (injected : Bool) (first second : List Request) :
    respondAll ctx injected (first ++ second) =
      ((respondAll ctx (respondAll ctx injected first).1 second).1,
        (respondAll ctx injected first).2 ++ (respondAll ctx (respondAll ctx injected first).1 second).2) := by
  induction first generalizing injected with
  | nil => rfl
  | cons r rest ih =>
    simp only [List.cons_append, respondAll, ih, List.append_assoc]

theorem requestsFrom_raws (loads : Loads) (status : UInt8) (k : Nat) (raws : List Bytes) :
    (requestsFrom loads status k raws).map Request.raw = raws := by
  induction raws generalizing k with
  | nil => rfl
  | cons raw rest ih => simp [requestsFrom, ih]

theorem clientSide_append (first second : List Write) :
    clientSide (first ++ second) = clientSide first ++ clientSide second :=
  List.filter_append _ _

theorem respondAll_clientSide (ctx : Settings) (injected : Bool) (requests : List Request) :
    clientSide (respondAll ctx injected requests).2 = (respondAll ctx injected requests).2 := by
  rw [clientSide, List.filter_eq_self]
  induction requests generalizing injected with
  | nil => simp [respondAll]
  | cons r rest ih =>
    intro write member
    obtain here | later := List.mem_append.mp member
    · have own : ∀ write ∈ (r.respond ctx injected).2, write.ofClient = true := by
        simp only [respond]
        split
        · split
          · cases injected <;> simp [Write.ofClient]
          · simp [Write.ofClient]
        · simp [Write.ofClient]
      exact own write here
    · exact ih _ write later

theorem slowClient_responds (ctx : Settings) (loads : Loads) (p : Proxy) (injected : Bool) (chunk : Bytes) :
    let raws := completeMessages (p.bufs.clientBuf ++ chunk)
    let responses := respondAll ctx injected (requestsFrom loads p.scanner.transactionStatus 0 raws)
    ∃ rest, (∀ raw ∈ raws, Accepted raw) ∧ p.bufs.clientBuf ++ chunk = raws.flatten ++ rest ∧
      (tryReadMessageWithRaw rest = .ok none ∧
          slowClient ctx loads p injected chunk =
            ({ p with mode := .slow responses.1, bufs := { p.bufs with clientBuf := rest } },
              responses.2, .again) ∨
        ∃ e, tryReadMessageWithRaw rest = .error e ∧
          slowClient ctx loads p injected chunk =
            ({ p with mode := .slow responses.1, bufs := { p.bufs with clientBuf := rest } },
              responses.2, .fail (.message e))) := by
  intro raws responses
  obtain ⟨ms, rest, passes, ends⟩ := @Reader.drain_endless _ _ _ _ ProxyLoopExit messageReader
    (slowClientMessage ctx loads) (fun s m => (slowClientMessage_spec ctx loads s m).2)
    { injected := injected } (p.bufs.clientBuf ++ chunk)
  obtain ⟨frames, accepted⟩ := passes_frames passes
  have parsed := parsed_of_passes passes
  have taken : messageReader.takeAll (p.bufs.clientBuf ++ chunk) = (ms, rest, .drained) ∨
      ∃ e, messageReader.takeAll (p.bufs.clientBuf ++ chunk) = (ms, rest, .failed e) := by
    obtain ⟨-, took, -⟩ | ⟨e, -, took, -⟩ := ends
    · exact .inl took
    · exact .inr ⟨e, took⟩
  have same : raws = ms.map Prod.snd := by
    obtain took | ⟨e, took⟩ := taken
    · simp only [raws, completeMessages, took]
    · simp only [raws, completeMessages, took]
  have again : ms = raws.map fun raw => (parseRaw raw, raw) := by
    rw [same, List.map_map]
    exact (List.map_id' ms).symm.trans (List.map_congr_left fun m member => by
      simp [← parsed m member])
  have folded := fold_respondAll ctx loads p.scanner.transactionStatus raws { injected := injected } 0
    (.inr rfl)
  rw [← again] at folded
  rw [← same] at frames accepted
  refine ⟨rest, accepted, frames, ?_⟩
  obtain ⟨read, -, run⟩ | ⟨e, read, -, run⟩ := ends
  · refine .inl ⟨read, ?_⟩
    simp only [slowClient, run, folded.1, folded.2, List.nil_append, Outcome.ofEnded, responses]
  · refine .inr ⟨e, read, ?_⟩
    simp only [slowClient, run, folded.1, folded.2, List.nil_append, Outcome.ofEnded, responses]

theorem slowServer_writes (loads : Loads) (p : Proxy) (chunk : Bytes) :
    ∃ raws : List Bytes, (slowServer loads p chunk).2.1 = raws.map .toClient := by
  obtain ⟨ms, after, rest, passes, ends⟩ := messageReader.drain_passes (slowServerMessage loads)
    { scanner := p.scanner } (p.bufs.serverBuf ++ chunk)
  obtain ⟨writes, -⟩ := passes_server passes
  obtain ⟨-, run⟩ | ⟨e, -, run⟩ | ⟨m, left, last, result, -, stopped, run⟩ := ends
  · exact ⟨_, by simp only [slowServer, run]; exact writes⟩
  · exact ⟨_, by simp only [slowServer, run]; exact writes⟩
  · have wrote := (slowServerMessage_spec loads after m).1
    rw [stopped, writes] at wrote
    exact ⟨ms.map Prod.snd ++ [m.2], by simp only [slowServer, run]; simpa using wrote⟩

theorem clientSide_toClient (raws : List Bytes) : clientSide (raws.map .toClient) = [] := by
  simp [clientSide, Write.ofClient]

theorem responded_start (ctx : Settings) (scanner : MessageBoundaryScanner) :
    Responded ctx (start scanner) :=
  ⟨by simp [start], rfl, .inl ⟨rfl, by simp [start]⟩, false, rfl, rfl⟩

-- A pass that does not come to the messages of the client.
theorem Responded.aside {ctx : Settings} {l t : SlowLoop} (responded : Responded ctx l)
    (open_ : l.returned = none) (requests : t.requests = l.requests)
    (read : t.clientRead = l.clientRead) (mode : t.proxy.mode = l.proxy.mode)
    (buf : t.proxy.bufs.clientBuf = l.proxy.bufs.clientBuf)
    (written : clientSide t.written = clientSide l.written)
    (other : ∀ e, t.returned ≠ some (.client, .fail (.message e))) : Responded ctx t := by
  obtain ⟨accepted, parsed, ends, responses⟩ := responded
  refine ⟨by rwa [requests], by rwa [requests, read, buf], .inl ⟨?_, other⟩, by rwa [requests, mode, written]⟩
  obtain ⟨drained, -⟩ | ⟨e, -, failed⟩ := ends
  · rwa [buf]
  · simp [open_] at failed

-- A read of the client, with the messages that it completes.
theorem Responded.client {ctx : Settings} {l : SlowLoop} (responded : Responded ctx l) {injected : Bool}
    (mode : l.proxy.mode = .slow injected) (chunk : Bytes) (loads : Loads) :
    Responded ctx {
      proxy := (slowClient ctx loads l.proxy injected chunk).1
      clientRead := l.clientRead ++ chunk
      requests := l.requests ++ requestsFrom loads l.proxy.scanner.transactionStatus 0
        (completeMessages (l.proxy.bufs.clientBuf ++ chunk))
      written := l.written ++ (slowClient ctx loads l.proxy injected chunk).2.1
      returned := exitOf .client (slowClient ctx loads l.proxy injected chunk).2.2 } := by
  obtain ⟨rest, accepted, frames, drained⟩ := slowClient_responds ctx loads l.proxy injected chunk
  obtain ⟨before, earlier, responses⟩ := responded.responded
  obtain rfl : injected = before := by simpa [mode] using earlier
  let met := requestsFrom loads l.proxy.scanner.transactionStatus 0
    (completeMessages (l.proxy.bufs.clientBuf ++ chunk))
  have bytes : met.map Request.raw = completeMessages (l.proxy.bufs.clientBuf ++ chunk) :=
    requestsFrom_raws _ _ _ _
  have fine : ∀ r ∈ l.requests ++ met, Accepted r.raw := by
    intro r member
    obtain old | new := List.mem_append.mp member
    · exact responded.accepted r old
    · exact accepted r.raw (bytes ▸ List.mem_map_of_mem new)
  have parsed : l.clientRead ++ chunk = ((l.requests ++ met).map Request.raw).flatten ++ rest := by
    rw [responded.parsed, List.append_assoc, frames, List.map_append, bytes, List.flatten_append,
      List.append_assoc]
  have all : respondAll ctx false (l.requests ++ met) =
      ((respondAll ctx injected met).1, clientSide (l.written ++ (respondAll ctx injected met).2)) := by
    rw [respondAll_append, responses, clientSide_append, respondAll_clientSide]
  obtain ⟨read, run⟩ | ⟨e, read, run⟩ := drained
  · rw [run]
    exact ⟨fine, parsed, .inl ⟨read, by simp [exitOf]⟩, _, rfl, all⟩
  · rw [run]
    exact ⟨fine, parsed, .inr ⟨e, read, rfl⟩, _, rfl, all⟩

theorem responded_step {ctx : Settings} (l : SlowLoop) (event : Event) (t : SlowLoop)
    (responded : Responded ctx l) (stepped : step ctx l event = some t) : Responded ctx t := by
  simp only [step] at stepped
  cases open_ : l.returned with
  | some exit =>
    simp only [open_, Option.isSome_some, if_true, Option.some.injEq] at stepped
    exact stepped ▸ responded
  | none =>
    simp only [open_, Option.isSome_none, Bool.false_eq_true, if_false] at stepped
    obtain rfl := Option.some.inj stepped
    obtain ⟨injected, mode, responses⟩ := responded.responded
    obtain ⟨peer, read, loads⟩ := event
    match read with
    | .error cause =>
      refine responded.aside open_ ?_ ?_ rfl rfl ?_ ?_
      · cases peer <;> simp [newRequests, Event.clientChunk]
      · cases peer <;> simp [Event.clientChunk]
      · simp [selectPass]
      · simp [selectPass, exitOf]
    | .ok [] =>
      refine responded.aside open_ ?_ ?_ rfl rfl ?_ ?_
      · cases peer <;> simp [newRequests, Event.clientChunk]
      · cases peer <;> simp [Event.clientChunk]
      · simp [selectPass]
      · simp [selectPass, exitOf]
    | .ok (first :: others) =>
      cases peer with
      | server =>
        obtain ⟨raws, writes⟩ := slowServer_writes loads l.proxy (first :: others)
        refine responded.aside open_ ?_ ?_ ?_ ?_ ?_ ?_
        · simp [newRequests, Event.clientChunk]
        · simp [Event.clientChunk]
        · simp only [selectPass, mode]
          exact mode
        · simp only [selectPass, mode]
          rfl
        · simp only [selectPass, mode, writes, clientSide_append, clientSide_toClient, List.append_nil]
        · simp only [selectPass, mode]
          cases (slowServer loads l.proxy (first :: others)).2.2 <;> simp [exitOf]
      | client =>
        have read := responded.client mode (first :: others) loads
        simpa [selectPass, mode, newRequests, Event.clientChunk, open_] using read

end SlowLoop

end PgMux
