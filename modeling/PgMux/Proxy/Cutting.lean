import PgMux.Proxy.Requests

set_option autoImplicit false

namespace PgMux

open Request

def clientStream (events : List Event) : Bytes := events.flatMap Event.clientChunk

/-- A way to cut what a client sends into reads, while the monitor knows one size. Reads of the
server may come between them. -/
structure Cutting (size : Option Nat) (events : List Event) : Prop where
  size : ∀ event ∈ events, ∀ k, event.loads.dbSize k = size
  reads : ∀ event ∈ events, event.peer = .client → event.clientChunk ≠ []

theorem read_of_clientChunk {event : Event} (nonempty : event.clientChunk ≠ []) :
    ∃ first others loads, event = ⟨.client, .ok (first :: others), loads⟩ := by
  obtain ⟨peer, read, loads⟩ := event
  cases peer with
  | server => simp [Event.clientChunk] at nonempty
  | client =>
    cases read with
    | error cause => simp [Event.clientChunk] at nonempty
    | ok chunk =>
      obtain ⟨first, others, rfl⟩ := List.exists_cons_of_ne_nil nonempty
      exact ⟨first, others, loads, rfl⟩

theorem Cutting.tail {size : Option Nat} {event : Event} {events : List Event}
    (cut : Cutting size (event :: events)) : Cutting size events :=
  ⟨fun other member => cut.size other (by simp [member]),
    fun other member => cut.reads other (by simp [member])⟩

theorem requestsFrom_size {loads : Loads} {size : Option Nat} (one : ∀ k, loads.dbSize k = size)
    (status : UInt8) (k : Nat) (raws : List Bytes) :
    ∀ r ∈ requestsFrom loads status k raws, r.size = size := by
  induction raws generalizing k with
  | nil => simp [requestsFrom]
  | cons raw rest ih =>
    simp only [requestsFrom, List.mem_cons, forall_eq_or_imp]
    exact ⟨one k, ih _⟩

theorem respondAll_forget (ctx : Settings) {size : Option Nat} {requests : List Request}
    (one : ∀ r ∈ requests, r.size = size) (injected : Bool) :
    respondAll ctx injected requests =
      respondAll ctx injected ((requests.map Request.raw).map fun raw => ⟨raw, size, 0⟩) := by
  induction requests generalizing injected with
  | nil => rfl
  | cons r rest ih =>
    have here : r.respond ctx injected = respond ctx injected ⟨r.raw, size, 0⟩ := by
      rw [← one r (by simp)]
      rfl
    simp only [List.map_cons, respondAll, here, ih fun other member => one other (by simp [member])]

namespace SlowLoop

def LeftByServer (l : SlowLoop) : Prop := ∃ outcome, l.returned = some (.server, outcome)

theorem run_returned (ctx : Settings) {l : SlowLoop} (returned : l.returned.isSome = true)
    (events : List Event) : Transition.run (step ctx) l events = some l := by
  induction events with
  | nil => rfl
  | cons event rest ih => exact Transition.run_cons.mpr ⟨l, by simp [step, returned], ih⟩

theorem step_reads {ctx : Settings} {l t : SlowLoop} {event : Event} (responded : Responded ctx l)
    (open_ : l.returned = none) (reads : event.peer = .client → event.clientChunk ≠ [])
    (stepped : step ctx l event = some t) :
    t.clientRead = l.clientRead ++ event.clientChunk ∧
      (t.returned = none ∨ t.LeftByServer ∨ ∃ e, t.returned = some (.client, .fail (.message e))) := by
  simp only [step, open_, Option.isSome_none, Bool.false_eq_true, if_false] at stepped
  obtain rfl := Option.some.inj stepped
  refine ⟨rfl, ?_⟩
  obtain ⟨injected, mode, -⟩ := responded.responded
  cases peer : event.peer with
  | server =>
    cases outcome : (selectPass ctx l.proxy event).2.2 with
    | again => exact .inl (by simp [exitOf])
    | exit reason => exact .inr (.inl ⟨.exit reason, by simp [exitOf]⟩)
    | fail error => exact .inr (.inl ⟨.fail error, by simp [exitOf]⟩)
  | client =>
    obtain ⟨first, others, loads, rfl⟩ := read_of_clientChunk (reads peer)
    obtain ⟨rest, -, -, ⟨-, run⟩ | ⟨e, -, run⟩⟩ :=
      slowClient_responds ctx loads l.proxy injected (first :: others)
    · exact .inl (by simp [selectPass, mode, run, exitOf])
    · exact .inr (.inr ⟨e, by simp [selectPass, mode, run, exitOf]⟩)

theorem run_reads {ctx : Settings} {size : Option Nat} {events : List Event} (cut : Cutting size events)
    {l k : SlowLoop} (responded : Responded ctx l) (open_ : l.returned = none)
    (ran : Transition.run (step ctx) l events = some k) :
    k.LeftByServer ∨ (k.returned = none ∧ k.clientRead = l.clientRead ++ clientStream events) ∨
      ∃ e more, k.returned = some (.client, .fail (.message e)) ∧
        k.clientRead ++ more = l.clientRead ++ clientStream events := by
  induction events generalizing l with
  | nil =>
    obtain rfl := Option.some.inj ran
    exact .inr (.inl ⟨open_, by simp [clientStream]⟩)
  | cons event rest ih =>
    obtain ⟨t, stepped, ran⟩ := Transition.run_cons.mp ran
    obtain ⟨read, goes⟩ := step_reads responded open_ (cut.reads event (by simp)) stepped
    have stream : l.clientRead ++ clientStream (event :: rest) = t.clientRead ++ clientStream rest := by
      simp [read, clientStream]
    rw [stream]
    obtain open_ | left | ⟨e, failed⟩ := goes
    · exact ih cut.tail (responded_step l event t responded stepped) open_ ran
    · obtain ⟨outcome, returned⟩ := left
      rw [run_returned ctx (by simp [returned])] at ran
      obtain rfl := Option.some.inj ran
      exact .inl ⟨outcome, returned⟩
    · rw [run_returned ctx (by simp [failed])] at ran
      obtain rfl := Option.some.inj ran
      exact .inr (.inr ⟨e, _, failed, rfl⟩)

theorem run_size {ctx : Settings} {size : Option Nat} {events : List Event} (cut : Cutting size events)
    {l k : SlowLoop} (before : ∀ r ∈ l.requests, r.size = size)
    (ran : Transition.run (step ctx) l events = some k) : ∀ r ∈ k.requests, r.size = size := by
  induction events generalizing l with
  | nil =>
    obtain rfl := Option.some.inj ran
    exact before
  | cons event rest ih =>
    obtain ⟨t, stepped, ran⟩ := Transition.run_cons.mp ran
    refine ih cut.tail ?_ ran
    intro r member
    rw [step_requests stepped, List.mem_append] at member
    obtain old | new := member
    · exact before r old
    · simp only [newRequests] at new
      split at new
      · exact requestsFrom_size (cut.size event (by simp)) _ _ _ r new
      · simp at new

theorem run_takeAll {ctx : Settings} {size : Option Nat} {events : List Event}
    (cut : Cutting size events) {scanner : MessageBoundaryScanner} {l : SlowLoop}
    (ran : Transition.run (step ctx) (start scanner) events = some l) (stays : ¬ l.LeftByServer) :
    clientSide l.written = (respondAll ctx false
        ((completeMessages (clientStream events)).map fun raw => ⟨raw, size, 0⟩)).2 ∧
      (l.returned = none ∧
          (messageReader.takeAll (clientStream events)).2 = (l.proxy.bufs.clientBuf, .drained) ∨
        ∃ e, l.returned = some (.client, .fail (.message e)) ∧
          (messageReader.takeAll (clientStream events)).2.2 = .failed e) := by
  have responded := Transition.invariant responded_step (responded_start ctx scanner) ran
  have sizes := run_size cut (by simp [start]) ran
  have accepted : ∀ raw ∈ l.requests.map Request.raw, Accepted raw := by
    simpa using responded.accepted
  obtain ⟨injected, -, responses⟩ := responded.responded
  have writes : clientSide l.written = (respondAll ctx false
      ((l.requests.map Request.raw).map fun raw => ⟨raw, size, 0⟩)).2 := by
    rw [← respondAll_forget ctx sizes, responses]
  have parsed := responded.parsed
  obtain left | ⟨open_, read⟩ | ⟨e, more, failed, read⟩ :=
    run_reads cut (responded_start ctx scanner) rfl ran
  · exact absurd left stays
  · obtain ⟨drained, -⟩ | ⟨e, -, returned⟩ := responded.ends
    · have stream : clientStream events =
          (l.requests.map Request.raw).flatten ++ l.proxy.bufs.clientBuf := by
        rw [← parsed, read]
        rfl
      rw [stream, completeMessages_of_accepted accepted (.inl drained),
        (takeAll_of_accepted accepted).1 drained]
      exact ⟨writes, .inl ⟨open_, rfl⟩⟩
    · simp [open_] at returned
  · obtain ⟨-, other⟩ | ⟨e', bad, returned⟩ := responded.ends
    · exact absurd failed (other e)
    · obtain rfl : e' = e := by simpa [returned] using failed
      have stream : clientStream events =
          (l.requests.map Request.raw).flatten ++ (l.proxy.bufs.clientBuf ++ more) := by
        rw [← List.append_assoc, ← parsed, read]
        rfl
      have later : tryReadMessageWithRaw (l.proxy.bufs.clientBuf ++ more) = .error e' :=
        messageReader_incremental.failure bad more
      rw [stream, completeMessages_of_accepted accepted (.inr ⟨e', later⟩),
        (takeAll_of_accepted accepted).2 e' later]
      exact ⟨writes, .inr ⟨e', failed, rfl⟩⟩

structure SameOutput (l k : SlowLoop) : Prop where
  server : serverWrites l.written = serverWrites k.written
  notices : notices l.written = notices k.written
  ends : (l.returned = none ∧ k.returned = none ∧ l.proxy.bufs.clientBuf = k.proxy.bufs.clientBuf) ∨
    ∃ e, l.returned = some (.client, .fail (.message e)) ∧ k.returned = some (.client, .fail (.message e))

theorem sameOutput_of_stream {ctx : Settings} {size : Option Nat}
    {scanner scanner' : MessageBoundaryScanner} {events events' : List Event} {l k : SlowLoop}
    (cut : Cutting size events) (cut' : Cutting size events')
    (same : clientStream events = clientStream events')
    (ran : Transition.run (step ctx) (start scanner) events = some l)
    (ran' : Transition.run (step ctx) (start scanner') events' = some k)
    (stays : ¬ l.LeftByServer) (stays' : ¬ k.LeftByServer) : SameOutput l k := by
  obtain ⟨writes, ends⟩ := run_takeAll cut ran stays
  obtain ⟨writes', ends'⟩ := run_takeAll cut' ran' stays'
  rw [same] at writes ends
  have sides : clientSide l.written = clientSide k.written := writes.trans writes'.symm
  refine ⟨?_, ?_, ?_⟩
  · rw [← serverWrites_clientSide, sides, serverWrites_clientSide]
  · rw [← notices_clientSide, sides, notices_clientSide]
  · obtain ⟨open_, drained⟩ | ⟨e, failed, ended⟩ := ends
    · obtain ⟨open', drained'⟩ | ⟨e', failed', ended'⟩ := ends'
      · exact .inl ⟨open_, open', congrArg Prod.fst (drained.symm.trans drained')⟩
      · simp [drained] at ended'
    · obtain ⟨open', drained'⟩ | ⟨e', failed', ended'⟩ := ends'
      · simp [drained'] at ended
      · obtain rfl : e = e' := by simpa [ended] using ended'
        exact .inr ⟨e, failed, failed'⟩

theorem Responded.forwards {ctx : Settings} {l : SlowLoop} (responded : Responded ctx l)
    (never : ∀ r ∈ l.requests, asksSize r.raw = true → ¬ r.OverLimit ctx) :
    (serverWrites l.written).flatten ++ l.proxy.bufs.clientBuf = l.clientRead := by
  have each : ∀ r ∈ l.requests, r.reply ctx = [r.raw] := by
    intro r member
    refine if_neg ?_
    rintro ⟨query, beyond, -⟩
    have asks : asksSize r.raw = true := by
      simp only [asksSize, Bool.or_eq_true, decide_eq_true_eq]
      exact .inl query
    exact never r member asks beyond
  have raws : l.requests.flatMap (reply ctx) = l.requests.map Request.raw := by
    rw [List.flatMap_def, List.map_congr_left each]
    exact List.flatMap_pure_eq_map Request.raw l.requests
  rw [responded.replies, raws, ← responded.parsed]

end SlowLoop

theorem Session.run_fast (ctx : Settings) (events : List Event)
    (reads : ∀ event ∈ events, event.clientChunk ≠ []) {s : Session} {pending : Bool}
    (mode : s.proxy.mode = .fast pending) (empty : s.proxy.bufs.clientBuf = []) :
    ∃ t, Transition.run (Session.step ctx) s events = some t ∧ t.proxy.bufs.clientBuf = [] ∧
      serverWrites t.written = serverWrites s.written ++ events.map Event.clientChunk := by
  induction events generalizing s pending with
  | nil => exact ⟨s, rfl, empty, by simp⟩
  | cons event rest ih =>
    obtain ⟨first, others, loads, rfl⟩ := read_of_clientChunk (reads event (by simp))
    obtain ⟨t, stepped, fast, left, wrote⟩ : ∃ t,
        Session.step ctx s ⟨.client, .ok (first :: others), loads⟩ = some t ∧
        (∃ pending, t.proxy.mode = .fast pending) ∧ t.proxy.bufs.clientBuf = [] ∧
        serverWrites t.written = serverWrites s.written ++ [first :: others] := by
      refine ⟨_, by simp only [Session.step, selectPass, mode, fastClient, next]; rfl, ⟨_, rfl⟩, rfl, ?_⟩
      simp [empty, serverWrites, Write.toServer?]
    obtain ⟨later, fast⟩ := fast
    obtain ⟨u, ran, last, writes⟩ := ih (fun other member => reads other (by simp [member])) fast left
    refine ⟨u, Transition.run_cons.mpr ⟨t, stepped, ran⟩, last, ?_⟩
    simp [writes, wrote, Event.clientChunk]

namespace SlowLoop

/-- What the slow loop does for a client depends on what the client sends and not on how it is cut
into reads; without enforcement the loop forwards it, as the fast loop does. -/
theorem output_of_stream (ctx : Settings) :
    (∀ (size : Option Nat) (scanner scanner' : MessageBoundaryScanner) (events events' : List Event)
      (l k : SlowLoop), Cutting size events → Cutting size events' →
      clientStream events = clientStream events' →
      Transition.run (step ctx) (start scanner) events = some l →
      Transition.run (step ctx) (start scanner') events' = some k →
      ¬ l.LeftByServer → ¬ k.LeftByServer → SameOutput l k) ∧
    (∀ (scanner : MessageBoundaryScanner) (events : List Event) (l : SlowLoop),
      Transition.run (step ctx) (start scanner) events = some l →
      (∀ r ∈ l.requests, asksSize r.raw = true → ¬ r.OverLimit ctx) →
      (serverWrites l.written).flatten ++ l.proxy.bufs.clientBuf = l.clientRead) ∧
    (∀ (p : Proxy) (pending : Bool) (events : List Event), p.mode = .fast pending →
      p.bufs.clientBuf = [] → (∀ event ∈ events, event.clientChunk ≠ []) →
      ∃ s, Transition.run (Session.step ctx) { proxy := p } events = some s ∧
        (serverWrites s.written).flatten = clientStream events) := by
  refine ⟨?_, ?_, ?_⟩
  · intro size scanner scanner' events events' l k cut cut' same ran ran' stays stays'
    exact sameOutput_of_stream cut cut' same ran ran' stays stays'
  · intro scanner events l ran never
    exact (Transition.invariant responded_step (responded_start ctx scanner) ran).forwards never
  · intro p pending events mode empty reads
    obtain ⟨s, ran, -, writes⟩ := Session.run_fast ctx events reads (s := { proxy := p }) mode empty
    refine ⟨s, ran, ?_⟩
    rw [writes, clientStream, List.flatMap_def]
    rfl

-- The second read starts in the middle of the query's length.
def cutQuery : List Event :=
  [overLimitReads ((query "SELECT 1").encode.take 3), overLimitReads ((query "SELECT 1").encode.drop 3)]

theorem output_of_stream_cutQuery :
    ∃ l k, Transition.run (step testSettings) (start .new) cutQuery = some l ∧
      Transition.run (step testSettings) (start .new) [overLimitReads (query "SELECT 1").encode] = some k ∧
      serverWrites l.written = [readOnlyQuery "SELECT 1"] ∧ SameOutput l k := by
  obtain ⟨l, ran, stays, wrote⟩ : ∃ l,
      Transition.run (step testSettings) (start .new) cutQuery = some l ∧ l.returned = none ∧
      serverWrites l.written = [readOnlyQuery "SELECT 1"] :=
    Transition.exists_run (by decide)
  obtain ⟨k, ran', stays'⟩ : ∃ k, Transition.run (step testSettings) (start .new)
      [overLimitReads (query "SELECT 1").encode] = some k ∧ k.returned = none :=
    Transition.exists_run (by decide)
  refine ⟨l, k, ran, ran', wrote, (output_of_stream testSettings).1 (some 2000) .new .new cutQuery
    [overLimitReads (query "SELECT 1").encode] l k ⟨?_, ?_⟩ ⟨?_, ?_⟩ (by decide) ran ran' ?_ ?_⟩
  · simp [cutQuery, overLimitReads]
  · decide
  · simp [overLimitReads]
  · decide
  · simp [LeftByServer, stays]
  · simp [LeftByServer, stays']

end SlowLoop

end PgMux
