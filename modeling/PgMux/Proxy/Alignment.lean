import PgMux.Proxy.Session

set_option autoImplicit false

namespace PgMux

open Framing

@[simp] theorem relayedBy_append (first second : List Write) :
    relayedBy (first ++ second) = relayedBy first ++ relayedBy second :=
  List.flatMap_append

@[simp] theorem relayedBy_toServer (bytes : Bytes) : relayedBy [.toServer bytes] = [] := rfl

@[simp] theorem relayedBy_toClient (bytes : Bytes) : relayedBy [.toClient bytes] = bytes := by
  simp [relayedBy, Write.toClient?]

theorem relayedBy_map (raws : List Bytes) : relayedBy (raws.map .toClient) = raws.flatten := by
  induction raws with
  | nil => rfl
  | cons raw rest ih =>
    simp only [relayedBy, List.map_cons, List.flatMap_cons, List.flatten_cons] at ih ⊢
    rw [ih]
    rfl

theorem relayedBy_quiet {writes : List Write} (quiet : ∀ write ∈ writes, write.toClient? = []) :
    relayedBy writes = [] := by
  rw [relayedBy, List.flatMap_eq_nil_iff]
  exact quiet

theorem SameFraming.valid {first second : MessageBoundaryScanner} (same : SameFraming first second)
    (valid : first.Valid) : second.Valid := by
  obtain ⟨skip, length, header⟩ := same
  refine ⟨?_, ?_, ?_⟩
  · rw [header]
    exact valid.buffer
  · rw [length]
    exact valid.short
  · rw [skip, length]
    exact valid.exclusive

theorem SameFraming.position {first second : MessageBoundaryScanner} (same : SameFraming first second) :
    second.position = first.position := by
  simp only [MessageBoundaryScanner.position, same.skip, same.length, same.header]

namespace Session

theorem taken_eq {front buf read : Bytes} (split : front ++ buf = read) : taken read buf = front := by
  subst split
  simp [taken]

structure Conserved (s : Session) : Prop where
  relayed : s.relayed ++ s.proxy.bufs.serverBuf = s.serverRead
  client : s.clientTaken ++ s.proxy.bufs.clientBuf = s.clientRead
  scanner : s.proxy.scanner.Valid
  -- The flag is looked at only after a client read, and that empties the buffer.
  pending : s.proxy.mode = .fast true → s.proxy.bufs.clientBuf = []

theorem turn_relayed {s t : Session} {loads : Loads} {chunk : Bytes} {peer : Peer}
    (conserved : s.relayed ++ s.proxy.bufs.serverBuf = s.serverRead)
    (turn : Turn s loads chunk peer t) : t.relayed ++ t.proxy.bufs.serverBuf = t.serverRead := by
  simp only [relayed] at conserved ⊢
  cases turn with
  | fastClient pending mode => simpa using conserved
  | fastServer pending mode stays | toSlow mode idle => simp [← conserved]
  | slowClient injected after raws rest more mode frames accepted drained quiet =>
    simpa [relayedBy_quiet quiet] using conserved
  | slowServer injected scanner raws rest mode frames accepted drained set framing =>
    simp [relayedBy_map, ← conserved, frames]
  | toFast injected scanner raws ready rest mode frames accepted last idle set cleared framing =>
    simp only [relayedBy_append, relayedBy_map, List.flatten_append, List.flatten_singleton,
      List.append_assoc, ← conserved] at frames ⊢
    rw [frames]

theorem turn_clientTaken {s t : Session} {loads : Loads} {chunk : Bytes} {peer : Peer}
    (conserved : s.clientTaken ++ s.proxy.bufs.clientBuf = s.clientRead)
    (turn : Turn s loads chunk peer t) :
    t.clientTaken ++ t.proxy.bufs.clientBuf = t.clientRead ∧
      (t.clientTaken = s.clientTaken ∨ t.proxy.bufs.clientBuf = [] ∨
        ∃ raws : List Bytes, (∀ raw ∈ raws, Accepted raw) ∧
          t.clientTaken = s.clientTaken ++ raws.flatten) := by
  cases turn with
  | fastClient pending mode => exact ⟨by simp [clientTaken, taken], .inr (.inl rfl)⟩
  | fastServer pending mode stays | toSlow mode idle => exact ⟨conserved, .inl rfl⟩
  | slowClient injected after raws rest more mode frames accepted drained quiet =>
    have split : (s.clientTaken ++ raws.flatten) ++ rest = s.clientRead ++ chunk := by
      rw [List.append_assoc, ← frames, ← List.append_assoc, conserved]
    have cut := taken_eq split
    exact ⟨by rw [clientTaken, cut]; exact split, .inr (.inr ⟨raws, accepted, cut⟩)⟩
  | slowServer injected scanner raws rest mode frames accepted drained set framing =>
    exact ⟨conserved, .inl rfl⟩
  | toFast injected scanner raws ready rest mode frames accepted last idle set cleared framing =>
    exact ⟨conserved, .inl rfl⟩

theorem step_conserved {ctx : Settings} (s : Session) (event : Event) (t : Session)
    (conserved : Conserved s) (stepped : step ctx s event = some t) : Conserved t := by
  obtain ⟨chunk, -, -, turn⟩ := step_turn stepped
  generalize event.peer = peer at turn
  refine ⟨turn_relayed conserved.relayed turn, (turn_clientTaken conserved.client turn).1, ?_, ?_⟩
  · cases turn with
    | fastClient pending mode => exact conserved.scanner
    | fastServer pending mode stays | toSlow mode idle =>
      exact MessageBoundaryScanner.scan_valid conserved.scanner _
    | slowClient injected after raws rest more mode frames accepted drained quiet =>
      exact conserved.scanner
    | slowServer injected scanner raws rest mode frames accepted drained set framing =>
      exact framing.valid conserved.scanner
    | toFast injected scanner raws ready rest mode frames accepted last idle set cleared framing =>
      exact framing.valid conserved.scanner
  · cases turn with
    | fastClient pending mode => exact fun _ => rfl
    | fastServer pending mode stays => exact conserved.pending
    | slowServer injected scanner raws rest mode frames accepted drained set framing =>
      exact conserved.pending
    | _ => simp

theorem conserved_initial : Conserved {} :=
  ⟨rfl, rfl, MessageBoundaryScanner.new_valid, fun _ => rfl⟩

theorem relayed_conserved (ctx : Settings) (events : List Event) :
    Transition.Always (step ctx) (fun s => s.relayed ++ s.proxy.bufs.serverBuf = s.serverRead) {}
      events :=
  (Transition.always step_conserved events conserved_initial).mono fun _ conserved => conserved.relayed

/-- Out of the stream, whole messages were taken, and the buffer starts with the next one. -/
def OwnMessages (front buf read : Bytes) : Prop :=
  ∀ msgs : List PgMessage, (∀ msg ∈ msgs, msg.WellFormed) → read <+: wire msgs →
    ∃ k, front = wire (msgs.take k) ∧ buf <+: wire (msgs.drop k)

theorem ownMessages_of_atBoundary {front buf read : Bytes} (split : front ++ buf = read)
    (whole : AtBoundary pgFormat front) : OwnMessages front buf read := by
  rintro msgs valid ⟨later, stream⟩
  rw [← split, List.append_assoc] at stream
  obtain ⟨k, first, second⟩ := atBoundary_wire valid whole stream.symm
  exact ⟨k, first, ⟨later, second⟩⟩

def NoticesBetween (written : List Write) : Prop :=
  ∀ before bytes after, written = before ++ .notice bytes :: after → AtBoundary pgFormat (relayedBy before)

def ServerAligned (s : Session) : Prop :=
  NoticesBetween s.written ∧
    match s.proxy.mode with
    | .fast _ => s.proxy.scanner.position = advance pgFormat boundary s.relayed
    | .slow _ =>
      s.proxy.scanner.remainingSkip = 0 ∧ s.proxy.scanner.headerLen = 0 ∧
        AtBoundary pgFormat s.relayed ∧ OwnMessages s.relayed s.proxy.bufs.serverBuf s.serverRead

def ClientAligned (s : Session) : Prop :=
  match s.proxy.mode with
  | .fast _ => True
  | .slow _ =>
    AtBoundary pgFormat s.clientTaken ∧ OwnMessages s.clientTaken s.proxy.bufs.clientBuf s.clientRead

theorem ServerAligned.slow {s : Session} {injected : Bool} (aligned : ServerAligned s)
    (mode : s.proxy.mode = .slow injected) :
    s.proxy.scanner.remainingSkip = 0 ∧ s.proxy.scanner.headerLen = 0 ∧
      AtBoundary pgFormat s.relayed ∧ OwnMessages s.relayed s.proxy.bufs.serverBuf s.serverRead := by
  have framed := aligned.2
  rwa [mode] at framed

theorem ClientAligned.slow {s : Session} {injected : Bool} (aligned : ClientAligned s)
    (mode : s.proxy.mode = .slow injected) :
    AtBoundary pgFormat s.clientTaken ∧
      OwnMessages s.clientTaken s.proxy.bufs.clientBuf s.clientRead := by
  rwa [ClientAligned, mode] at aligned

/-- A read of the server at which the fast loop, with a transition pending, sees an idle point. -/
def IdleRead (s : Session) (event : Event) (chunk : Bytes) : Prop :=
  s.proxy.mode = .fast true ∧ event.peer = .server ∧ event.read = .ok chunk ∧ chunk ≠ [] ∧
    (s.proxy.scanner.scan (s.proxy.bufs.serverBuf ++ chunk)).2 = true

def EndsServerMessage (s : Session) (event : Event) : Prop :=
  ∀ chunk, IdleRead s event chunk → AtBoundary pgFormat (s.serverRead ++ chunk)

def BetweenClientMessages (s : Session) (event : Event) : Prop :=
  ∀ chunk, IdleRead s event chunk → AtBoundary pgFormat s.clientRead

/-- No read of the server comes with a transition pending while the client is in the middle of a message. -/
def WholeWhenPending (s : Session) (event : Event) : Prop :=
  s.proxy.mode = .fast true → event.peer = .server → AtBoundary pgFormat s.clientRead

instance (s : Session) (event : Event) : Decidable (WholeWhenPending s event) :=
  inferInstanceAs (Decidable (_ → _ → _))

theorem WholeWhenPending.between {s : Session} {event : Event} (whole : WholeWhenPending s event) :
    BetweenClientMessages s event := fun _ idle => whole idle.1 idle.2.1

theorem idleRead_enabled (ctx : Settings) {s : Session} {event : Event} {chunk : Bytes}
    (idle : IdleRead s event chunk) : step ctx s event ≠ none := by
  obtain ⟨peer, read, loads⟩ := event
  obtain ⟨mode, rfl, rfl, nonempty, saw⟩ := idle
  obtain ⟨first, others, rfl⟩ := List.exists_cons_of_ne_nil nonempty
  simp [step, selectPass, mode, fastServer, saw, next]

theorem noticesBetween_append {written more : List Write} (before : NoticesBetween written)
    (whole : ∀ front bytes back, more = front ++ .notice bytes :: back →
      AtBoundary pgFormat (relayedBy (written ++ front))) : NoticesBetween (written ++ more) := by
  intro front bytes back same
  obtain ⟨extra, rfl, rfl⟩ | ⟨extra, rfl, rest⟩ := List.append_eq_append_iff.mp same
  · exact whole extra bytes back rfl
  · cases extra with
    | nil => simpa using whole [] bytes back (by simpa using rest.symm)
    | cons write others =>
      obtain ⟨rfl, rfl⟩ : .notice bytes = write ∧ back = others ++ more := by simpa using rest
      exact before front bytes others rfl

theorem noticesBetween_plain {written more : List Write} (before : NoticesBetween written)
    (plain : ∀ bytes, .notice bytes ∉ more) : NoticesBetween (written ++ more) := by
  refine noticesBetween_append before fun front bytes back same => ?_
  exact absurd (by simp [same]) (plain bytes)

theorem turn_of_idleRead {s t : Session} {event : Event} {chunk : Bytes}
    (turn : Turn s event.loads chunk event.peer t) (idle : IdleRead s event chunk) :
    t = { s with
      proxy := {
        mode := .slow false
        scanner := (s.proxy.scanner.scan (s.proxy.bufs.serverBuf ++ chunk)).1
        bufs := { s.proxy.bufs with serverBuf := [] } }
      serverRead := s.serverRead ++ chunk
      written := s.written ++ [.toClient (s.proxy.bufs.serverBuf ++ chunk)] } := by
  obtain ⟨mode, peer, -, -, saw⟩ := idle
  rw [peer] at turn
  cases turn with
  | fastServer pending fast stays =>
    obtain rfl : pending = true := by simpa [mode] using fast.symm
    simp [saw] at stays
  | toSlow fast idle => rfl
  | slowServer injected scanner raws rest slow frames accepted drained set framing =>
    simp [mode] at slow
  | toFast injected scanner raws ready rest slow frames accepted last idle set cleared framing =>
    simp [mode] at slow

theorem idleRead_unique {s : Session} {event : Event} {chunk : Bytes} (read : event.read = .ok chunk)
    {holds : Bytes → Prop} :
    (∀ other, IdleRead s event other → holds other) ↔ (IdleRead s event chunk → holds chunk) := by
  constructor
  · exact fun all => all chunk
  · intro here other idle
    obtain rfl : other = chunk := by simpa [read] using idle.2.2.1.symm
    exact here idle

theorem advance_relayed {s : Session} (conserved : Conserved s) (chunk : Bytes) :
    advance pgFormat (advance pgFormat boundary s.relayed) (s.proxy.bufs.serverBuf ++ chunk) =
      advance pgFormat boundary (s.serverRead ++ chunk) := by
  rw [← advance_append, ← List.append_assoc, conserved.relayed]

theorem turn_serverAligned {s t : Session} {event : Event} {chunk : Bytes} (conserved : Conserved s)
    (after : Conserved t) (read : event.read = .ok chunk) (nonempty : chunk ≠ [])
    (aligned : ServerAligned s) (turn : Turn s event.loads chunk event.peer t)
    (unseen : ¬ IdleRead s event chunk) : ServerAligned t := by
  obtain ⟨notices, framed⟩ := aligned
  have conserved' := after.relayed
  generalize peerIs : event.peer = peer at turn
  cases turn with
  | fastClient pending mode =>
    rw [mode] at framed
    exact ⟨noticesBetween_plain notices (by simp), by simpa [relayed] using framed⟩
  | fastServer pending mode stays =>
    rw [mode] at framed
    refine ⟨noticesBetween_plain notices (by simp), ?_⟩
    simp only [mode, relayed, relayedBy_append, relayedBy_toClient]
    rw [MessageBoundaryScanner.scan_position conserved.scanner, framed]
    exact (advance_append _ _ _ _).symm
  | toSlow mode idle => exact absurd ⟨mode, peerIs, read, nonempty, idle⟩ unseen
  | slowClient injected later raws rest more mode frames accepted drained quiet =>
    rw [mode] at framed
    obtain ⟨skip, length, whole, own⟩ := framed
    have silent := relayedBy_quiet quiet
    refine ⟨noticesBetween_append notices fun front bytes back same => ?_, skip, length, ?_, ?_⟩
    · have before : relayedBy front = [] := relayedBy_quiet fun write member =>
        quiet write (by simp [same, member])
      rw [relayedBy_append, before, List.append_nil]
      exact whole
    · simpa [relayed, silent] using whole
    · simpa [relayed, silent] using own
  | slowServer injected scanner raws rest mode frames accepted drained set framing =>
    rw [mode] at framed
    obtain ⟨skip, length, whole, -⟩ := framed
    have further : AtBoundary pgFormat (relayedBy (s.written ++ raws.map .toClient)) := by
      rw [relayedBy_append, relayedBy_map]
      exact whole.append (atBoundary_flatten (frames_of_accepted accepted))
    refine ⟨noticesBetween_plain notices (by simp), ?_⟩
    simp only [mode]
    exact ⟨framing.skip.trans skip, framing.length.trans length, further,
      ownMessages_of_atBoundary conserved' further⟩
  | toFast injected scanner raws ready rest mode frames accepted last idle set cleared framing =>
    rw [mode] at framed
    obtain ⟨skip, length, whole, -⟩ := framed
    have start := (MessageBoundaryScanner.position_eq_boundary conserved.scanner).mpr ⟨skip, length⟩
    refine ⟨noticesBetween_plain notices (by simp), ?_⟩
    have further : AtBoundary pgFormat (relayedBy (s.written ++ (raws ++ [ready]).map .toClient)) := by
      rw [relayedBy_append, relayedBy_map]
      refine whole.append (atBoundary_flatten (frames_of_accepted ?_))
      simpa [or_imp, forall_and] using ⟨accepted, last⟩
    simp only [relayed]
    rw [framing.position, start, further]

theorem step_serverAligned {ctx : Settings} (s : Session) (event : Event) (t : Session)
    (conserved : Conserved s) (after : Conserved t) (aligned : ServerAligned s)
    (stepped : step ctx s event = some t) : ServerAligned t ↔ EndsServerMessage s event := by
  obtain ⟨chunk, read, nonempty, turn⟩ := step_turn stepped
  rw [EndsServerMessage, idleRead_unique read]
  by_cases idle : IdleRead s event chunk
  · simp only [idle, forall_const]
    obtain ⟨notices, framed⟩ := aligned
    rw [idle.1] at framed
    have conserved' := after.relayed
    obtain rfl := turn_of_idleRead turn idle
    have stands := MessageBoundaryScanner.scan_position conserved.scanner
      (s.proxy.bufs.serverBuf ++ chunk)
    rw [framed, advance_relayed conserved] at stands
    constructor
    · rintro ⟨-, skip, length, -⟩
      rw [AtBoundary, ← stands]
      exact (MessageBoundaryScanner.position_eq_boundary after.scanner).mpr ⟨skip, length⟩
    · intro whole
      have both := (MessageBoundaryScanner.position_eq_boundary after.scanner).mp (stands.trans whole)
      have relays : AtBoundary pgFormat
          (relayedBy (s.written ++ [.toClient (s.proxy.bufs.serverBuf ++ chunk)])) := by
        rw [relayedBy_append, relayedBy_toClient, ← List.append_assoc]
        exact conserved.relayed ▸ whole
      exact ⟨noticesBetween_plain notices (by simp), both.1, both.2, relays,
        ownMessages_of_atBoundary conserved' relays⟩
  · exact iff_of_true (turn_serverAligned conserved after read nonempty aligned turn idle)
      fun here => absurd here idle

theorem step_clientAligned {ctx : Settings} (s : Session) (event : Event) (t : Session)
    (conserved : Conserved s) (after : Conserved t) (aligned : ClientAligned s)
    (stepped : step ctx s event = some t) : ClientAligned t ↔ BetweenClientMessages s event := by
  obtain ⟨chunk, read, nonempty, turn⟩ := step_turn stepped
  rw [BetweenClientMessages, idleRead_unique read]
  have conserved' := after.client
  by_cases idle : IdleRead s event chunk
  · simp only [idle, forall_const]
    have emptied := conserved.pending idle.1
    have all : s.clientTaken = s.clientRead := by simpa [emptied] using conserved.client
    obtain rfl := turn_of_idleRead turn idle
    constructor
    · rintro ⟨whole, -⟩
      exact all ▸ whole
    · intro whole
      rw [← all] at whole
      exact ⟨whole, ownMessages_of_atBoundary conserved' whole⟩
  · refine iff_of_true ?_ fun here => absurd here idle
    generalize peerIs : event.peer = peer at turn
    cases turn with
    | fastClient pending mode => trivial
    | fastServer pending mode stays =>
      simp only [ClientAligned, mode]
    | toSlow mode saw => exact absurd ⟨mode, peerIs, read, nonempty, saw⟩ idle
    | slowClient injected later raws rest more mode frames accepted drained quiet =>
      simp only [ClientAligned, mode] at aligned
      have split : (s.clientTaken ++ raws.flatten) ++ rest = s.clientRead ++ chunk := by
        rw [List.append_assoc, ← frames, ← List.append_assoc, conserved.client]
      have whole := aligned.1.append (atBoundary_flatten (frames_of_accepted accepted))
      rw [← taken_eq split] at whole
      exact ⟨whole, ownMessages_of_atBoundary conserved' whole⟩
    | slowServer injected scanner raws rest mode frames accepted drained set framing =>
      simp only [ClientAligned, mode] at aligned ⊢
      exact aligned
    | toFast injected scanner raws ready rest mode frames accepted last saw set cleared framing => trivial

theorem serverAligned_initial : ServerAligned {} := by
  refine ⟨fun before bytes after same => ?_, rfl⟩
  simp at same

theorem serverAligned_iff (ctx : Settings) (events : List Event) :
    Transition.Always (step ctx) ServerAligned {} events ↔
      Transition.Along (step ctx) EndsServerMessage {} events := by
  refine Transition.always_iff_along step_serverAligned ?_
    (Transition.always step_conserved events conserved_initial) serverAligned_initial
  intro s event disabled chunk idle
  exact absurd disabled (idleRead_enabled ctx idle)

theorem clientAligned_iff (ctx : Settings) (events : List Event) :
    Transition.Always (step ctx) ClientAligned {} events ↔
      Transition.Along (step ctx) BetweenClientMessages {} events := by
  refine Transition.always_iff_along step_clientAligned ?_
    (Transition.always step_conserved events conserved_initial) trivial
  intro s event disabled chunk idle
  exact absurd disabled (idleRead_enabled ctx idle)

def reads (peer : Peer) (chunk : Bytes) (overLimit : Bool) : Event :=
  ⟨peer, .ok chunk, ⟨fun _ => overLimit, fun _ => none⟩⟩

theorem clientAligned_of_wholeWhenPending (ctx : Settings) (events : List Event)
    (whole : Transition.Along (step ctx) WholeWhenPending {} events) :
    Transition.Always (step ctx) ClientAligned {} events :=
  (clientAligned_iff ctx events).mpr (whole.mono fun _ _ here => here.between)

-- The answer to the first query comes while the second one is cut, but nothing is pending yet. The loop changes
-- over with the answer to the second one, and the slow loop meets the third one in two parts.
def wholeBeforeIdle : List Event :=
  [reads .client (wire [query "SELECT 1"] ++ (wire [query "SELECT 2"]).take 3) false,
    reads .server (wire [commandComplete "SELECT 1", readyForQuery 'I']) true,
    reads .client ((wire [query "SELECT 2"]).drop 3) true,
    reads .server (wire [commandComplete "SELECT 1", readyForQuery 'I']) true,
    reads .client ((wire [query "SELECT 3"]).take 3) true, reads .client ((wire [query "SELECT 3"]).drop 3) true]

theorem clientAligned_of_wholeWhenPending_changesOver :
    (∃ s, Transition.run (step testSettings) {} wholeBeforeIdle = some s ∧ s.proxy.mode = .slow false ∧
        s.clientTaken = wire [query "SELECT 1", query "SELECT 2", query "SELECT 3"]) ∧
      Transition.Always (step testSettings) ClientAligned {} wholeBeforeIdle :=
  ⟨Transition.exists_run (by decide), clientAligned_of_wholeWhenPending testSettings wholeBeforeIdle (by decide)⟩

-- Two queries are sent at once. The read with the answer to the first one also brings the first
-- three bytes of the answer to the second one.
def cutAfterIdle : List Event :=
  [reads .client (wire [query "SELECT 1", query "SELECT 2"]) true,
    reads .server (wire [commandComplete "SELECT 1", readyForQuery 'I'] ++
      (wire [commandComplete "SELECT 1"]).take 3) true]

theorem not_serverAligned_cutAfterIdle :
    (∃ s msgs, Transition.run (step testSettings) {} cutAfterIdle = some s ∧
      (∀ msg ∈ msgs, msg.WellFormed) ∧ s.serverRead <+: wire msgs) ∧
    ¬ Transition.Always (step testSettings) ServerAligned {} cutAfterIdle := by
  obtain ⟨s, ran, mode, header, stream⟩ : ∃ s,
      Transition.run (step testSettings) {} cutAfterIdle = some s ∧ s.proxy.mode = .slow false ∧
      s.proxy.scanner.headerLen = 3 ∧ s.serverRead <+:
        wire [commandComplete "SELECT 1", readyForQuery 'I', commandComplete "SELECT 1"] :=
    Transition.exists_run (by decide)
  refine ⟨⟨s, _, ran, by decide, stream⟩, fun always => ?_⟩
  have last := (always.last ran).slow mode
  omega

-- The second query of the client is cut when the answer to the first one comes.
def cutBeforeIdle : List Event :=
  [reads .client (wire [query "SELECT 1"] ++ (wire [query "SELECT 2"]).take 3) true,
    reads .server (wire [commandComplete "SELECT 1", readyForQuery 'I']) true]

theorem not_clientAligned_cutBeforeIdle :
    (∃ s msgs, Transition.run (step testSettings) {} cutBeforeIdle = some s ∧
      (∀ msg ∈ msgs, msg.WellFormed) ∧ s.clientRead <+: wire msgs) ∧
    ¬ Transition.Always (step testSettings) ClientAligned {} cutBeforeIdle := by
  obtain ⟨s, ran, mode, inside, stream⟩ : ∃ s,
      Transition.run (step testSettings) {} cutBeforeIdle = some s ∧ s.proxy.mode = .slow false ∧
      ¬ AtBoundary pgFormat s.clientTaken ∧ s.clientRead <+: wire [query "SELECT 1", query "SELECT 2"] :=
    Transition.exists_run (by decide)
  refine ⟨⟨s, _, ran, by decide, stream⟩, fun always => ?_⟩
  exact inside ((always.last ran).slow mode).1

end Session

end PgMux
