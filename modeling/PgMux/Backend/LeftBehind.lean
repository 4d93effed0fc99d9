import PgMux.Backend.Clean

set_option autoImplicit false

namespace PgMux

theorem plainReader_drained {frame rest : Bytes} (isFrame : Framing.IsFrame pgFormat frame) :
    plainReader.read (frame ++ rest) ≠ .ok none := by
  change tryReadMessage _ false ≠ _
  have more : tryReadMessageWithRaw (frame ++ rest) ≠ .ok none := not_frame_of_drained isFrame
  rw [tryReadMessage_eq]
  cases read : tryReadMessageWithRaw (frame ++ rest) with
  | error error => simp [Except.map]
  | ok message =>
    cases message with
    | none => exact absurd read more
    | some message => simp [Except.map]

theorem drain_whole {stream : Bytes} {msgs : List PgMessage} (whole : Whole stream msgs)
    (fine : ¬ MeetsError stream) :
    (∃ rest, plainReader.drain resetMessage () stream = ((), rest, .stopped (.ok ()))) ∨
      (plainReader.drain resetMessage () stream = ((), [], .drained) ∧ NoReady msgs) := by
  obtain ⟨bytes, valid⟩ := whole
  obtain ⟨taken, after, rest, passes, ends⟩ := plainReader.drain_passes resetMessage () stream
  have all : stream ++ [] = wire msgs := by rw [List.append_nil, bytes]
  obtain ⟨left, rfl, tail, unready⟩ := passes_wire passes valid all
  rw [List.append_nil] at tail
  have front : stream = (taken.map PgMessage.encode).flatten ++ rest := by
    rw [bytes, wire_append, tail, wire_frames]
  have each : ∀ raw ∈ taken.map PgMessage.encode, Accepted raw ∧ raw.headD 0 ≠ 'Z'.toUInt8 := by
    intro raw member
    obtain ⟨msg, inside, rfl⟩ := List.mem_map.mp member
    obtain ⟨plain, accepted⟩ := unready msg inside
    exact ⟨accepted, by rwa [PgMessage.headD_encode (valid msg (by simp [inside]))]⟩
  rcases ends with ⟨none, run⟩ | ⟨error, bad, -⟩ | ⟨msg, last, final, result, took, stop, run⟩
  · cases left with
    | nil =>
      obtain rfl : rest = [] := tail
      refine .inr ⟨run, fun msg member => ?_⟩
      simp [PgMessage.isReady, (unready msg (by simpa using member)).1]
    | cons first others =>
      have frame := (PgMessage.isMessage_encode (valid first (by simp))).isFrame
      have bytes : rest = first.encode ++ wire others := by simpa [wire] using tail
      rw [bytes] at none
      exact absurd none (plainReader_drained frame)
  · exact absurd ⟨_, rest, front, each, .inl ⟨error, plainReader_error.mp bad⟩⟩ fine
  · cases result with
    | ok _ => exact .inl ⟨last, run⟩
    | error error =>
      obtain ⟨raw, rfl, accepted, rfl⟩ := tryReadMessage_some took
      refine absurd ⟨_, _, front, each, .inr ⟨raw, last, rfl, accepted, ?_⟩⟩ fine
      simp only [resetMessage] at stop
      split_ifs at stop with ready failed
      · simp at stop
      · exact failed
      · simp at stop

theorem exists_requests (bytes : Bytes) :
    ∃ (requests : List Bytes) (last : Bytes), bytes = requests.flatten ++ last ∧
      (∀ raw ∈ requests, IsMessage raw ∧ awaitsReady raw = false) ∧
      (takeRequest last = none ∨
        ∃ raw rest, takeRequest last = some (raw, rest) ∧ awaitsReady raw = true) := by
  induction size : bytes.length using Nat.strongRecOn generalizing bytes with
  | _ n ih =>
    cases took : takeRequest bytes with
    | none => exact ⟨[], bytes, by simp, by simp, .inl took⟩
    | some first =>
      obtain ⟨raw, rest⟩ := first
      by_cases awaits : awaitsReady raw = true
      · exact ⟨[], bytes, by simp, by simp, .inr ⟨raw, rest, took, awaits⟩⟩
      · obtain ⟨rfl, message⟩ := takeRequest_some.mp took
        have long := message.long
        simp only [List.length_append] at size
        obtain ⟨requests, last, rfl, plain, ends⟩ := ih rest.length (by omega) rest rfl
        refine ⟨raw :: requests, last, by simp, ?_, ends⟩
        simpa [message, Bool.eq_false_iff.mpr awaits] using plain

namespace Link

open Transition

def BetweenMessages (l : Link) : LinkAction → Prop
  | .client (.ok []) _ => ∃ msgs, Whole l.outbox msgs
  | _ => True

theorem run_answers {l : Link} {requests : List Bytes} {last : Bytes}
    (inbox : l.inbox = requests.flatten ++ last) (open_ : l.closed = false)
    (plain : ∀ raw ∈ requests, IsMessage raw ∧ awaitsReady raw = false) :
    run step l (requests.map fun _ => .answer []) =
      some { l with inbox := last, answered := l.answered ++ requests.map fun raw => (raw, []) } := by
  induction requests generalizing l with
  | nil => simp [← show l.inbox = last by simpa using inbox]
  | cons raw requests ih =>
    obtain ⟨message, awaits⟩ := plain raw (by simp)
    have took : takeRequest l.inbox = some (raw, requests.flatten ++ last) :=
      takeRequest_some.mpr ⟨by simp [inbox], message⟩
    have stepped : step l (.answer []) = some { l with
        inbox := requests.flatten ++ last, answered := l.answered ++ [(raw, [])] } := by
      simp [step, took, open_, Answers, awaits, NoReady, wire]
    rw [List.map_cons, run_cons]
    refine ⟨_, stepped, ?_⟩
    have rest := ih (l := { l with
      inbox := requests.flatten ++ last, answered := l.answered ++ [(raw, [])] }) rfl open_
      fun other member => plain other (by simp [member])
    simpa using rest

theorem receive_all {l : Link} (sent : l.outbox ≠ []) :
    l.receive l.outbox.length =
      some (l.outbox, { l with outbox := [], heard := l.heard ++ l.outbox }) := by
  have taken : l.outbox.take (l.outbox.length + 1) = l.outbox := List.take_of_length_le (by omega)
  have dropped : l.outbox.drop (l.outbox.length + 1) = [] := List.drop_of_length_le (by omega)
  simp [receive, sent, taken, dropped]

theorem reset_all {l : Link} {rest : Bytes} (stage : l.stage = .resetting [])
    (stops : plainReader.drain resetMessage () l.outbox = ((), rest, .stopped (.ok ()))) :
    step l (.reset l.outbox.length) =
      some { l with stage := .idle, outbox := [], heard := l.heard ++ l.outbox } := by
  have sent : l.outbox ≠ [] := by
    intro empty
    rw [empty, plainReader.drain_drained rfl] at stops
    simp at stops
  have done : resetPass [] (.ok l.outbox) = .returned (.ok ()) := by
    rw [resetPass_eq sent, List.nil_append, stops]
  simp only [step, stage, receive_all sent, done]

theorem step_leaves {l : Link} {ctx : Settings} {proxy : Proxy} (stage : l.stage = .proxying ctx proxy)
    (loads : Loads) :
    step l (.client (.ok []) loads) = some { l.write discardAll with stage := .resetting [] } := by
  simp [step, stage, pass, selectPass, next, forwardedBy, Link.write]

theorem step_ready {l : Link} {raw rest : Bytes} (open_ : l.closed = false)
    (took : takeRequest l.inbox = some (raw, rest)) (awaits : awaitsReady raw = true) :
    step l (.answer [readyForQuery 'I']) = some { l with
      inbox := rest
      outbox := l.outbox ++ wire [readyForQuery 'I']
      answered := l.answered ++ [(raw, [readyForQuery 'I'])] } := by
  have answers : Answers raw [readyForQuery 'I'] := by
    rw [Answers, awaits]
    decide
  simp [step, took, open_, answers]

theorem drain_ready {stream : Bytes}
    (drains : plainReader.drain resetMessage () stream = ((), [], .drained)) :
    plainReader.drain resetMessage () (stream ++ wire [readyForQuery 'I']) =
      ((), [], .stopped (.ok ())) := by
  rw [plainReader.drain_append plainReader_incremental () stream, drains]
  rfl

theorem answers_unclean {l : Link} {requests : List Bytes} {last raw rest : Bytes}
    (stage : l.stage = .resetting []) (open_ : l.closed = false)
    (inbox : l.inbox = requests.flatten ++ last)
    (plain : ∀ raw ∈ requests, IsMessage raw ∧ awaitsReady raw = false)
    (took : takeRequest last = some (raw, rest)) (awaits : awaitsReady raw = true)
    (other : last ≠ discardAll)
    (drains : plainReader.drain resetMessage () l.outbox = ((), [], .drained)) :
    ∃ more t, run step l more = some t ∧ t.stage = .idle ∧ ¬ t.Settled := by
  have first := run_answers inbox open_ plain
  have second := step_ready (l := { l with
    inbox := last, answered := l.answered ++ requests.map fun raw => (raw, []) }) open_ took awaits
  have third := reset_all (l := { l with
    inbox := rest
    outbox := l.outbox ++ wire [readyForQuery 'I']
    answered := (l.answered ++ requests.map fun raw => (raw, [])) ++ [(raw, [readyForQuery 'I'])] })
    stage (drain_ready drains)
  have tail := run_cons.mpr ⟨_, second, run_cons.mpr ⟨_, third, run_nil _⟩⟩
  refine ⟨_, _, run_append.mpr ⟨_, first, tail⟩, rfl, fun settled => other ?_⟩
  obtain ⟨bytes, -⟩ := takeRequest_some.mp took
  have empty : rest = [] := settled.inbox
  have own : raw = discardAll := by simpa using settled.last
  rw [bytes, empty, own, List.append_nil]

theorem leaves_unclean {l : Link} {ctx : Settings} {proxy : Proxy} {msgs : List PgMessage} (loads : Loads)
    (stage : l.stage = .proxying ctx proxy) (whole : Whole l.outbox msgs) (unquiet : ¬ l.Quiet)
    (fine : ¬ MeetsError l.outbox) :
    ∃ more t, run step l (.client (.ok []) loads :: more) = some t ∧ t.stage = .idle ∧ ¬ t.Settled := by
  have left := step_leaves stage loads
  obtain ⟨rest, stops⟩ | ⟨drains, unready⟩ := drain_whole whole fine
  -- The answer that the session did not read ends the reset before DISCARD ALL is taken.
  · have reset := reset_all (l := { l.write discardAll with stage := .resetting [] }) rfl stops
    refine ⟨_, _, run_cons.mpr ⟨_, left, run_cons.mpr ⟨_, reset, run_nil _⟩⟩, rfl, fun settled => ?_⟩
    have empty := settled.inbox
    simp [Link.write, discardAll] at empty
  · have open_ : l.closed = false := by
      by_contra closed
      exact unquiet ⟨.inl (by simpa using closed), msgs, whole, unready⟩
    obtain ⟨requests, last, bytes, plain, none | ⟨raw, rest, took, awaits⟩⟩ :=
      exists_requests (l.inbox ++ discardAll)
    · exact absurd ⟨.inr ⟨requests, last, bytes, plain, .inr none⟩, msgs, whole, unready⟩ unquiet
    · have other : last ≠ discardAll := by
        rintro rfl
        exact unquiet ⟨.inr ⟨requests, _, bytes, plain, .inl rfl⟩, msgs, whole, unready⟩
      obtain ⟨more, t, ran, idle, unsettled⟩ :=
        answers_unclean (l := { l.write discardAll with stage := .resetting [] }) rfl open_ bytes plain
          took awaits other drains
      exact ⟨more, t, run_cons.mpr ⟨_, left, ran⟩, idle, unsettled⟩

/-- A connection whose sessions all leave it so is clean whenever it is in the idle queue, and whoever
acquires it reads only answers to requests of its own. A run in which a session does not leave it so,
and has stopped reading between two messages, can go on to a connection that is not clean. -/
theorem clean_of_leavesQuiet (ctx : Settings) (actions : List LinkAction) :
    (Along step LeavesQuiet (opened ctx) actions → Always step Clean (opened ctx) actions) ∧
    (Along step BetweenMessages (opened ctx) actions → ¬ Along step LeavesQuiet (opened ctx) actions →
      ∃ (n : Nat) (more : List LinkAction), ¬ Always step Clean (opened ctx) (actions.take n ++ more)) := by
  constructor
  · intro quiet
    exact (always_of_along step_kept quiet (opened_kept ctx)).mono fun _ kept => ⟨kept.own, kept.settled⟩
  · intro between broken
    obtain ⟨n, l, a, reached, -, found, unquiet⟩ := exists_of_not_along broken
    have whole := between.guard reached found
    match a with
    | .client (.ok []) loads =>
      simp only [LeavesQuiet, not_forall, not_or] at unquiet
      obtain ⟨ctx', proxy, stage, unquiet, fine⟩ := unquiet
      obtain ⟨msgs, whole⟩ := whole
      obtain ⟨more, t, ran, idle, unsettled⟩ := leaves_unclean loads stage whole unquiet fine
      refine ⟨n, .client (.ok []) loads :: more, fun always => unsettled ?_⟩
      exact (always.last (run_append.mpr ⟨l, reached, ran⟩)).settled idle
    | .client (.ok (_ :: _)) _ | .client (.error _) _ | .server _ _ | .answer _ | .close | .reset _
    | .lose | .acquire _ => exact absurd trivial unquiet

def withinLimit : Loads := ⟨fun _ => false, fun _ => none⟩

def selectOne : List PgMessage := [commandComplete "SELECT 1", readyForQuery 'I']

-- The client disconnects after it has its answer, and the next session gets the connection.
def leftAnswered : List LinkAction :=
  [.client (.ok (wire [query "SELECT 1"])) withinLimit, .answer selectOne, .server 100 withinLimit,
    .client (.ok []) withinLimit, .answer [commandComplete "DISCARD ALL", readyForQuery 'I'], .reset 100,
    .acquire testSettings]

def LeavesEmpty (l : Link) : LinkAction → Prop
  | .client (.ok []) _ => l.inbox = [] ∧ l.outbox = []
  | _ => True

instance (l : Link) (a : LinkAction) : Decidable (l.LeavesEmpty a) :=
  match a with
  | .client (.ok []) _ => inferInstanceAs (Decidable (_ ∧ _))
  | .client (.ok (_ :: _)) _ | .client (.error _) _ | .server _ _ | .answer _ | .close | .reset _ | .lose
  | .acquire _ => isTrue trivial

theorem LeavesEmpty.quiet (l : Link) (a : LinkAction) (empty : l.LeavesEmpty a) : l.LeavesQuiet a := by
  match a with
  | .client (.ok []) _ =>
    obtain ⟨inbox, outbox⟩ := empty
    intro _ _ _
    refine .inl ⟨.inr ⟨[], discardAll, by simp [inbox], by simp, .inl rfl⟩, [], ?_, by simp [NoReady]⟩
    exact ⟨by simp [outbox, wire], by simp⟩
  | .client (.ok (_ :: _)) _ | .client (.error _) _ | .server _ _ | .answer _ | .close | .reset _ | .lose
  | .acquire _ => trivial

theorem clean_leftAnswered : Always step Clean (opened testSettings) leftAnswered := by
  have empty : Along step LeavesEmpty (opened testSettings) leftAnswered := by decide
  exact (clean_of_leavesQuiet testSettings leftAnswered).1 (empty.mono LeavesEmpty.quiet)

-- The client disconnects with a query in flight, and the reset takes its answer for that of
-- DISCARD ALL.
def leftInFlight : List LinkAction :=
  [.client (.ok (wire [query "SELECT 1"])) withinLimit, .client (.ok []) withinLimit, .answer selectOne,
    .reset 100]

theorem not_clean_leftInFlight : ¬ Always step Clean (opened testSettings) leftInFlight := by
  intro always
  obtain ⟨l, ran, idle, owed⟩ : ∃ l, run step (opened testSettings) leftInFlight = some l ∧
      l.stage = .idle ∧ l.inbox ≠ [] := Transition.exists_run (by decide)
  exact owed ((always.last ran).settled idle).inbox

end Link

end PgMux
