import PgMux.Proxy.Alignment

set_option autoImplicit false

namespace PgMux

open Framing

namespace Session

def StartsWithMessage (buf : Bytes) : Prop :=
  ∃ frame rest, IsFrame pgFormat frame ∧ buf = frame ++ rest

/-- A whole message of the stream has been read, and no byte of it has left the buffer. -/
def Stranded (front read : Bytes) : Prop :=
  ∃ before frame after, AtBoundary pgFormat before ∧ IsFrame pgFormat frame ∧
    read = before ++ frame ++ after ∧ front.length ≤ before.length

def NothingStranded (s : Session) : Prop :=
  ¬ Stranded s.clientTaken s.clientRead ∧ ¬ Stranded s.relayed s.serverRead

/-- A read of the server with the first idle point at which the slow loop finds the flag cleared. -/
structure ClearedRead (s : Session) (event : Event) (raws : List Bytes) (ready rest : Bytes) : Prop where
  mode : ∃ injected, s.proxy.mode = .slow injected
  peer : event.peer = .server
  read : ∃ chunk, event.read = .ok chunk ∧ chunk ≠ [] ∧
    s.proxy.bufs.serverBuf ++ chunk = raws.flatten ++ ready ++ rest
  accepted : ∀ raw ∈ raws, Accepted raw
  last : Accepted ready
  idle : isIdleReady ready = true
  set : ∀ k, k < raws.countP isIdleReady → event.loads.overLimit k = true
  cleared : event.loads.overLimit (raws.countP isIdleReady) = false

def LastMessageOfRead (s : Session) (event : Event) : Prop :=
  ∀ raws ready rest, ClearedRead s event raws ready rest → ¬ StartsWithMessage rest

theorem not_startsWithMessage_of_drained {buf : Bytes}
    (drained : tryReadMessageWithRaw buf = .ok none) : ¬ StartsWithMessage buf := by
  rintro ⟨frame, rest, isFrame, rfl⟩
  exact not_frame_of_drained isFrame drained

theorem stranded_iff {front buf read : Bytes} (split : front ++ buf = read)
    (placed : buf = [] ∨ AtBoundary pgFormat front) : Stranded front read ↔
      AtBoundary pgFormat front ∧ StartsWithMessage buf := by
  subst split
  constructor
  · rintro ⟨before, frame, after, whole, isFrame, same, behind⟩
    obtain ⟨skipped, rfl, tail⟩ : ∃ skipped, before = front ++ skipped ∧
        buf = skipped ++ (frame ++ after) := by
      rw [List.append_assoc] at same
      obtain ⟨extra, rfl, tail⟩ | ⟨extra, rfl, tail⟩ := List.append_eq_append_iff.mp same
      · exact ⟨extra, rfl, tail⟩
      · obtain rfl : extra = [] := by
          simp only [List.length_append] at behind
          exact List.length_eq_zero_iff.mp (by omega)
        exact ⟨[], by simp, by simpa using tail.symm⟩
    have aligned : AtBoundary pgFormat front := by
      refine placed.resolve_left fun empty => ?_
      have nonempty := isFrame.ne_nil
      simp_all
    refine ⟨aligned, ?_⟩
    have rest := (atBoundary_append aligned skipped).mp whole
    by_cases here : skipped = []
    · subst here
      exact ⟨frame, after, isFrame, by simpa using tail⟩
    · obtain ⟨first, others, isFirst, rfl⟩ := rest.first here
      exact ⟨first, others ++ (frame ++ after), isFirst, by rw [tail, List.append_assoc]⟩
  · rintro ⟨aligned, frame, rest, isFrame, rfl⟩
    exact ⟨front, frame, rest, aligned, isFrame, (List.append_assoc _ _ _).symm, Nat.le_refl _⟩

theorem clearedRead_enabled (ctx : Settings) {s : Session} {event : Event} {raws : List Bytes}
    {ready rest : Bytes} (stops : ClearedRead s event raws ready rest) : step ctx s event ≠ none := by
  obtain ⟨peer, read, loads⟩ := event
  obtain ⟨⟨injected, mode⟩, rfl, ⟨chunk, rfl, nonempty, frames⟩, accepted, last, idle, -, cleared⟩ := stops
  obtain ⟨ms, after, left, passes, ends⟩ := messageReader.drain_passes
    (slowServerMessage loads) { scanner := s.proxy.scanner } (s.proxy.bufs.serverBuf ++ chunk)
  obtain ⟨took, each⟩ := passes_frames passes
  obtain ⟨-, -, loaded, passedSet⟩ := passes_server passes
  simp only [Nat.zero_add, Nat.zero_le, forall_const] at loaded passedSet
  obtain ⟨first, others, isFirst, rfl⟩ := cleared_reached frames accepted last idle cleared took each
    (by rwa [← loaded])
  have next := tryReadMessageWithRaw_append isFirst others
  obtain ⟨drained, -⟩ | ⟨e, failed, -⟩ | ⟨m, tail, final, reason, -, stopped, run⟩ := ends
  · simp [messageReader, next] at drained
  · simp [messageReader, next] at failed
  · obtain ⟨-, -, -, stop⟩ := slowServerMessage_spec loads after m
    simp only [stopped] at stop
    split at stop
    · obtain rfl := Option.some.inj stop
      obtain ⟨byte, bytes, rfl⟩ := List.exists_cons_of_ne_nil nonempty
      simp [step, selectPass, mode, slowServer, run, Outcome.ofEnded, PgMux.next]
    · simp at stop

def SwitchesInStep (s : Session) (event : Event) : Prop :=
  EndsServerMessage s event ∧ BetweenClientMessages s event

structure Placed (s : Session) : Prop where
  client : s.proxy.bufs.clientBuf = [] ∨ AtBoundary pgFormat s.clientTaken
  server : s.proxy.bufs.serverBuf = [] ∨ AtBoundary pgFormat s.relayed

structure InStep (s : Session) : Prop where
  conserved : Conserved s
  server : ServerAligned s
  client : ClientAligned s

theorem step_placed {ctx : Settings} (s : Session) (event : Event) (t : Session) (before : InStep s)
    (after : InStep t) (placed : Placed s) (stepped : step ctx s event = some t) : Placed t := by
  obtain ⟨chunk, -, -, turn⟩ := step_turn stepped
  generalize event.peer = peer at turn
  cases turn with
  | fastClient pending mode =>
    exact ⟨.inl rfl, by simpa [relayed] using placed.server⟩
  | fastServer pending mode stays | toSlow mode idle => exact ⟨placed.client, .inl rfl⟩
  | slowClient injected later raws rest more mode frames accepted drained quiet =>
    exact ⟨.inr (after.client.slow rfl).1, .inr (after.server.slow rfl).2.2.1⟩
  | slowServer injected scanner raws rest mode frames accepted drained set framing =>
    exact ⟨.inr (after.client.slow mode).1, .inr (after.server.slow mode).2.2.1⟩
  | toFast injected scanner raws ready rest mode frames accepted last idle set cleared framing =>
    refine ⟨.inr (before.client.slow mode).1, .inr ?_⟩
    have whole := (before.server.slow mode).2.2.1
    simp only [relayed, relayedBy_append, relayedBy_map]
    refine whole.append (atBoundary_flatten (frames_of_accepted ?_))
    simpa [or_imp, forall_and] using ⟨accepted, last⟩

theorem always_inStep {ctx : Settings} {events : List Event}
    (along : Transition.Along (step ctx) SwitchesInStep {} events) :
    Transition.Always (step ctx) (fun s => InStep s ∧ Placed s) {} events := by
  have conserved := Transition.always (@step_conserved ctx) events conserved_initial
  have idle (s : Session) (event : Event) (disabled : step ctx s event = none) (chunk : Bytes)
      (here : IdleRead s event chunk) : False := idleRead_enabled ctx here disabled
  have server := (Transition.always_iff_along step_serverAligned
    (fun s event disabled chunk here => (idle s event disabled chunk here).elim) conserved
    serverAligned_initial).mpr (along.mono fun _ _ => And.left)
  have client := (Transition.always_iff_along step_clientAligned
    (fun s event disabled chunk here => (idle s event disabled chunk here).elim) conserved
    trivial).mpr (along.mono fun _ _ => And.right)
  have inStep := ((conserved.and server).and client).mono
    fun s all => (⟨all.1.1, all.1.2, all.2⟩ : InStep s)
  exact inStep.and (inStep.also step_placed ⟨.inl rfl, .inl rfl⟩)

theorem nothingStranded_iff_front {s : Session} (inStep : InStep s) (placed : Placed s) :
    NothingStranded s ↔
      (AtBoundary pgFormat s.clientTaken → ¬ StartsWithMessage s.proxy.bufs.clientBuf) ∧
        (AtBoundary pgFormat s.relayed → ¬ StartsWithMessage s.proxy.bufs.serverBuf) := by
  rw [NothingStranded, stranded_iff inStep.conserved.client placed.client,
    stranded_iff inStep.conserved.relayed placed.server, not_and, not_and]

theorem not_startsWithMessage_nil : ¬ StartsWithMessage [] := by
  rintro ⟨frame, rest, isFrame, same⟩
  exact isFrame.ne_nil (List.append_eq_nil_iff.mp same.symm).1

theorem step_nothingStranded {ctx : Settings} (s : Session) (event : Event) (t : Session)
    (before : InStep s ∧ Placed s) (after : InStep t ∧ Placed t) (clear : NothingStranded s)
    (stepped : step ctx s event = some t) : NothingStranded t ↔ LastMessageOfRead s event := by
  obtain ⟨chunk, read, nonempty, turn⟩ := step_turn stepped
  have afterFront := nothingStranded_iff_front after.1 after.2
  rw [nothingStranded_iff_front before.1 before.2] at clear
  rw [afterFront]
  generalize peerIs : event.peer = peer at turn
  have free (other : ∀ injected, s.proxy.mode ≠ .slow injected ∨ peer ≠ .server) :
      LastMessageOfRead s event := by
    intro raws ready rest stops
    obtain ⟨injected, mode⟩ := stops.mode
    obtain wrong | wrong := other injected
    · exact absurd mode wrong
    · exact absurd (peerIs.symm.trans stops.peer) wrong
  cases turn with
  | fastClient pending mode =>
    refine iff_of_true ⟨fun _ => not_startsWithMessage_nil, ?_⟩ (free fun _ => .inr (by simp))
    simpa [relayed] using clear.2
  | fastServer pending mode stays | toSlow mode idle =>
    exact iff_of_true ⟨clear.1, fun _ => not_startsWithMessage_nil⟩ (free fun _ => .inl (by simp [mode]))
  | slowClient injected later raws rest more mode frames accepted drained quiet =>
    refine iff_of_true ⟨fun _ => not_startsWithMessage_of_drained drained, ?_⟩ (free fun _ => .inr (by simp))
    simpa [relayed, relayedBy_quiet quiet] using clear.2
  | slowServer injected scanner raws rest mode frames accepted drained set framing =>
    refine iff_of_true ⟨clear.1, fun _ => not_startsWithMessage_of_drained drained⟩ ?_
    intro others ready left stops
    obtain ⟨chunk', read', -, frames'⟩ := stops.read
    obtain rfl : chunk = chunk' := by simpa [read] using read'
    obtain ⟨first, more, isFirst, rfl⟩ := cleared_reached frames' stops.accepted stops.last stops.idle
      stops.cleared frames accepted set
    simp [tryReadMessageWithRaw_append isFirst more] at drained
  | toFast injected scanner raws ready rest mode frames accepted last idle set cleared framing =>
    have here : ClearedRead s event raws ready rest :=
      ⟨⟨injected, mode⟩, peerIs, ⟨chunk, read, nonempty, frames⟩, accepted, last, idle, set, cleared⟩
    have whole : AtBoundary pgFormat (relayedBy (s.written ++ (raws ++ [ready]).map .toClient)) := by
      rw [relayedBy_append, relayedBy_map]
      refine (before.1.server.slow mode).2.2.1.append (atBoundary_flatten (frames_of_accepted ?_))
      simpa [or_imp, forall_and] using ⟨accepted, last⟩
    constructor
    · rintro ⟨-, none⟩ others other left stops
      obtain ⟨chunk', read', -, frames'⟩ := stops.read
      obtain rfl : chunk = chunk' := by simpa [read] using read'
      obtain rfl := cleared_unique frames accepted last idle set cleared frames' stops.accepted
        stops.last stops.idle stops.set stops.cleared
      exact none whole
    · exact fun none => ⟨clear.1, fun _ => none raws ready rest here⟩

theorem nothingStranded_iff (ctx : Settings) (events : List Event)
    (inStep : Transition.Along (step ctx) SwitchesInStep {} events) :
    Transition.Always (step ctx) NothingStranded {} events ↔
      Transition.Along (step ctx) LastMessageOfRead {} events := by
  refine Transition.always_iff_along step_nothingStranded ?_ (always_inStep inStep) ?_
  · intro s event disabled raws ready rest stops
    exact absurd disabled (clearedRead_enabled ctx stops)
  · rw [nothingStranded_iff_front (always_inStep inStep).head.1 (always_inStep inStep).head.2]
    exact ⟨fun _ => not_startsWithMessage_nil, fun _ => not_startsWithMessage_nil⟩

instance (s : Session) (event : Event) : Decidable (SwitchesInStep s event) :=
  match read : event.read with
  | .error _ => isTrue ⟨fun _ idle => by simp [IdleRead, read] at idle,
      fun _ idle => by simp [IdleRead, read] at idle⟩
  | .ok chunk =>
    decidable_of_iff
      (s.proxy.mode = .fast true ∧ event.peer = .server ∧ chunk ≠ [] ∧
          (s.proxy.scanner.scan (s.proxy.bufs.serverBuf ++ chunk)).2 = true →
        AtBoundary pgFormat (s.serverRead ++ chunk) ∧ AtBoundary pgFormat s.clientRead) (by
      rw [SwitchesInStep, EndsServerMessage, BetweenClientMessages, idleRead_unique read,
        idleRead_unique read, ← imp_and]
      simp [IdleRead, read])

-- The flag is found cleared at the first of two answers that come in one read.
def answeredTogether : List Event :=
  [reads .client (wire [query "SELECT 1"]) true,
    reads .server (wire [commandComplete "SELECT 1", readyForQuery 'I']) true,
    reads .client (wire [query "SELECT 2", query "SELECT 3"]) true,
    reads .server (wire [commandComplete "SELECT 1", readyForQuery 'I', commandComplete "SELECT 1",
      readyForQuery 'I']) false]

theorem nothingStranded_iff_answeredTogether :
    Transition.Along (step testSettings) SwitchesInStep {} answeredTogether ∧
      (Transition.Always (step testSettings) NothingStranded {} answeredTogether ↔
        Transition.Along (step testSettings) LastMessageOfRead {} answeredTogether) :=
  ⟨by decide, nothingStranded_iff testSettings answeredTogether (by decide)⟩

theorem not_nothingStranded_answeredTogether :
    ¬ Transition.Always (step testSettings) NothingStranded {} answeredTogether := by
  intro always
  have inStep : Transition.Along (step testSettings) SwitchesInStep {} answeredTogether := by decide
  obtain ⟨s, ran, relays, buffered⟩ : ∃ s,
      Transition.run (step testSettings) {} answeredTogether = some s ∧
      AtBoundary pgFormat s.relayed ∧
      s.proxy.bufs.serverBuf = wire [commandComplete "SELECT 1"] ++ wire [readyForQuery 'I'] :=
    Transition.exists_run (by decide)
  obtain ⟨framed, placed⟩ := (always_inStep inStep).last ran
  have none := ((nothingStranded_iff_front framed placed).mp (always.last ran)).2 relays
  rw [buffered] at none
  exact none ⟨_, _, (show IsMessage (wire [commandComplete "SELECT 1"]) by decide).isFrame, rfl⟩

end Session

end PgMux
