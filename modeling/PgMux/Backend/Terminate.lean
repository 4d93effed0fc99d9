import PgMux.Backend.Link

set_option autoImplicit false

namespace PgMux

def terminate : Bytes := PgMessage.encode ⟨'X'.toUInt8, []⟩

/-- A connection whose client has only this left to send before it closes its end. -/
structure Parting where
  link : Link
  left : Bytes := terminate
deriving DecidableEq, Repr

inductive PartingAction where
  -- A read of the client's socket takes at most this number of bytes and one more.
  | client (n : Nat) (loads : Loads)
  | server (n : Nat) (loads : Loads)
  | answer (answer : List PgMessage)
  | close
  | reset (n : Nat)
  | lose

namespace Parting

def step (s : Parting) : PartingAction → Option Parting
  | .client n loads =>
    (s.link.step (.client (.ok (s.left.take (n + 1))) loads)).map fun l => ⟨l, s.left.drop (n + 1)⟩
  | .server n loads => (s.link.step (.server n loads)).map fun l => { s with link := l }
  | .answer answer =>
    match takeRequest s.link.inbox with
    -- Postgres does not answer a Terminate, and takes nothing behind it.
    | some (raw, _) =>
      if raw.headD 0 = 'X'.toUInt8 then none
      else (s.link.step (.answer answer)).map fun l => { s with link := l }
    | none => none
  | .close => (s.link.step .close).map fun l => { s with link := l }
  | .reset n => (s.link.step (.reset n)).map fun l => { s with link := l }
  | .lose => (s.link.step .lose).map fun l => { s with link := l }

-- A session between two messages of its client, with a backend that owes it nothing.
def Quiet (l : Link) : Prop :=
  l.inbox = [] ∧ l.outbox = [] ∧ ∃ ctx proxy, l.stage = .proxying ctx proxy ∧ proxy.bufs.clientBuf = []

/-- The connection is not in the idle queue, and where it is being reset for it after its client has
gone, the Terminate was written to it in front of `DISCARD ALL`. -/
def NotPushed (before : Bytes) (s : Parting) : Prop :=
  s.link.stage ≠ .idle ∧ (s.left = [] → ∀ buf, s.link.stage = .resetting buf →
    s.link.asked = before ++ terminate ++ discardAll)

-- What the backend has been sent of the Terminate, what the proxy holds back, and what is to come.
structure Underway (before : Bytes) (l : Link) (left : Bytes) (proxy : Proxy) (sent held : Bytes) :
    Prop where
  whole : sent ++ held ++ left = terminate
  buffer : proxy.bufs.clientBuf = held
  inbox : l.inbox = sent
  asked : l.asked = before ++ sent
  fast : ∀ pending, proxy.mode = .fast pending → held = []
  slow : ∀ injected, proxy.mode = .slow injected → sent = [] ∨ left = []
  done : left = [] → held = []

def Parts (before : Bytes) (s : Parting) : Prop :=
  match s.link.stage with
  | .proxying _ proxy => s.link.outbox = [] ∧ ∃ sent held, Underway before s.link s.left proxy sent held
  | .resetting _ => s.link.outbox = [] ∧
      (s.link.closed = true ∨ s.link.inbox = terminate ++ discardAll) ∧
      (s.left = [] → s.link.asked = before ++ terminate ++ discardAll)
  | .idle => False
  | .dropped => True

theorem Parts.proxying {before : Bytes} {s : Parting} {ctx : Settings} {proxy : Proxy}
    (parts : s.Parts before) (stage : s.link.stage = .proxying ctx proxy) :
    s.link.outbox = [] ∧ ∃ sent held, Underway before s.link s.left proxy sent held := by
  rwa [Parts, stage] at parts

theorem Parts.resetting {before : Bytes} {s : Parting} {buf : Bytes} (parts : s.Parts before)
    (stage : s.link.stage = .resetting buf) : s.link.outbox = [] ∧
      (s.link.closed = true ∨ s.link.inbox = terminate ++ discardAll) ∧
      (s.left = [] → s.link.asked = before ++ terminate ++ discardAll) := by
  rwa [Parts, stage] at parts

theorem Parts.dropped {before : Bytes} {s : Parting} (stage : s.link.stage = .dropped) :
    s.Parts before := by
  rw [Parts, stage]
  trivial

theorem Parts.notPushed {before : Bytes} {s : Parting} (parts : s.Parts before) : s.NotPushed before := by
  constructor
  · intro idle
    rwa [Parts, idle] at parts
  · intro gone buf stage
    exact (parts.resetting stage).2.2 gone

theorem slowClient_short (ctx : Settings) (loads : Loads) (p : Proxy) (injected : Bool) (chunk : Bytes)
    (short : (p.bufs.clientBuf ++ chunk).length < 5) :
    slowClient ctx loads p injected chunk =
      ({ p with mode := .slow injected, bufs := { p.bufs with clientBuf := p.bufs.clientBuf ++ chunk } },
        [], .again) := by
  have more : messageReader.read (p.bufs.clientBuf ++ chunk) = .ok none :=
    tryReadMessageWithRaw_none.mpr (.inl short)
  rw [slowClient, messageReader.drain_drained more]
  rfl

theorem accepted_terminate : Accepted terminate := by
  decide

theorem slowClient_terminate (ctx : Settings) (loads : Loads) (p : Proxy) (injected : Bool) (chunk : Bytes)
    (whole : p.bufs.clientBuf ++ chunk = terminate) :
    slowClient ctx loads p injected chunk =
      ({ p with mode := .slow false, bufs := { p.bufs with clientBuf := [] } },
        [.toServer terminate], .again) := by
  have one : messageReader.read terminate = .ok (some ((parseRaw terminate, terminate), [])) := by
    have read := tryReadMessageWithRaw_append accepted_terminate []
    rwa [List.append_nil] at read
  have nothing : messageReader.read [] = .ok none := rfl
  have goes : slowClientMessage ctx loads { injected := injected } (parseRaw terminate, terminate) =
      ({ injected := false, writes := [.toServer terminate] }, none) := rfl
  rw [slowClient, whole, messageReader.drain_continued one goes, messageReader.drain_drained nothing]
  rfl

theorem Underway.released {before : Bytes} {l : Link} {left : Bytes} {proxy : Proxy} {sent held : Bytes}
    (underway : Underway before l left proxy sent held) (quiet : l.outbox = [])
    (over_ : l.closed = true ∨ left = []) :
    Parts before ⟨{ l.write discardAll with stage := .resetting [] }, left⟩ := by
  have all (gone : left = []) : sent = terminate := by
    have whole := underway.whole
    rwa [underway.done gone, gone, List.append_nil, List.append_nil] at whole
  refine ⟨quiet, ?_, fun gone => ?_⟩
  · refine over_.imp id fun gone => ?_
    simp only [Link.write, underway.inbox, all gone]
  · simp only [Link.write, underway.asked, all gone]

theorem fastClient_underway {before : Bytes} {l : Link} {left : Bytes} {proxy : Proxy} {sent held : Bytes}
    (underway : Underway before l left proxy sent held) {pending : Bool} (mode : proxy.mode = .fast pending)
    (stage : Stage) (loads : Loads) (n : Nat) :
    Underway before { l.write (left.take (n + 1)) with stage := stage } (left.drop (n + 1))
      (fastClient loads proxy pending (left.take (n + 1))).1 (sent ++ left.take (n + 1)) [] where
  whole := by
    have whole := underway.whole
    rw [underway.fast pending mode, List.append_nil] at whole
    rw [List.append_nil, List.append_assoc, List.take_append_drop, whole]
  buffer := rfl
  inbox := by simp only [Link.write, underway.inbox]
  asked := by simp only [Link.write, underway.asked, List.append_assoc]
  fast _ _ := rfl
  slow injected slow := by simp [fastClient] at slow
  done _ := rfl

-- In the slow loop the whole Terminate is forwarded at once.
theorem Underway.completed {before : Bytes} {l : Link} {left : Bytes} {proxy : Proxy} {held : Bytes}
    (underway : Underway before l left proxy [] held) (stage : Stage) :
    Underway before { l.write terminate with stage := stage } []
      { proxy with mode := .slow false, bufs := { proxy.bufs with clientBuf := [] } } terminate [] where
  whole := by simp
  buffer := rfl
  inbox := by simp only [Link.write, underway.inbox, List.nil_append]
  asked := by simp only [Link.write, underway.asked, List.append_nil]
  fast _ _ := rfl
  slow _ _ := .inr rfl
  done _ := rfl

theorem Underway.heldBack {before : Bytes} {l : Link} {left : Bytes} {proxy : Proxy} {held : Bytes}
    (underway : Underway before l left proxy [] held) {n : Nat} (more : left.drop (n + 1) ≠ []) (stage : Stage)
    (injected : Bool) :
    Underway before { l with stage := stage } (left.drop (n + 1))
      { proxy with
        mode := .slow injected
        bufs := { proxy.bufs with clientBuf := proxy.bufs.clientBuf ++ left.take (n + 1) } }
      [] (proxy.bufs.clientBuf ++ left.take (n + 1)) where
  whole := by
    have whole := underway.whole
    rwa [← underway.buffer, ← List.take_append_drop (n + 1) left, ← List.append_assoc, List.nil_append] at whole
  buffer := rfl
  inbox := underway.inbox
  asked := underway.asked
  fast _ fast := by cases fast
  slow _ _ := .inl rfl
  done over_ := absurd over_ more

theorem client_parts {before : Bytes} {s : Parting} {ctx : Settings} {proxy : Proxy}
    (parts : s.Parts before) (stage : s.link.stage = .proxying ctx proxy) (loads : Loads) (n : Nat) :
    Parts before ⟨s.link.pass ctx proxy ⟨.client, .ok (s.left.take (n + 1)), loads⟩,
      s.left.drop (n + 1)⟩ := by
  obtain ⟨quiet, sent, held, underway⟩ := parts.proxying stage
  obtain ⟨link, left⟩ := s
  dsimp only at *
  by_cases gone : left = []
  · subst gone
    have ends : link.pass ctx proxy ⟨.client, .ok (List.take (n + 1) []), loads⟩ =
        { link.write discardAll with stage := .resetting [] } := by
      simp [Link.pass, selectPass, next, forwardedBy, Link.write]
    rw [ends, List.drop_nil]
    exact underway.released quiet (.inr rfl)
  · obtain ⟨first, others, more⟩ := List.exists_cons_of_ne_nil gone
    have chunk : left.take (n + 1) = first :: others.take n := by rw [more, List.take_succ_cons]
    cases mode : proxy.mode with
    | fast pending =>
      have empty : proxy.bufs.clientBuf = [] := by rw [underway.buffer, underway.fast pending mode]
      have passes : link.pass ctx proxy ⟨.client, .ok (left.take (n + 1)), loads⟩ =
          { link.write (left.take (n + 1)) with
            stage := .proxying ctx (fastClient loads proxy pending (left.take (n + 1))).1 } := by
        rw [chunk]
        simp [Link.pass, selectPass, mode, fastClient, next, forwardedBy, empty]
      rw [passes]
      exact ⟨quiet, _, _, fastClient_underway underway mode _ loads n⟩
    | slow injected =>
      obtain rfl : sent = [] := (underway.slow injected mode).resolve_right gone
      have whole := underway.whole
      rw [List.nil_append, ← List.take_append_drop (n + 1) left, ← List.append_assoc,
        ← underway.buffer] at whole
      by_cases last : left.drop (n + 1) = []
      · rw [last, List.append_nil] at whole
        have passes : link.pass ctx proxy ⟨.client, .ok (left.take (n + 1)), loads⟩ =
            { link.write terminate with
              stage := .proxying ctx
                { proxy with mode := .slow false, bufs := { proxy.bufs with clientBuf := [] } } } := by
          have handled := slowClient_terminate ctx loads proxy injected _ whole
          rw [chunk] at handled ⊢
          simp [Link.pass, selectPass, mode, handled, next, forwardedBy]
        rw [passes, last]
        exact ⟨quiet, terminate, [], underway.completed _⟩
      · have short : (proxy.bufs.clientBuf ++ left.take (n + 1)).length < 5 := by
          have length := congrArg List.length whole
          have rest := List.length_pos_iff.mpr last
          have five : terminate.length = 5 := by decide
          rw [List.length_append, five] at length
          omega
        have passes : link.pass ctx proxy ⟨.client, .ok (left.take (n + 1)), loads⟩ =
            { link with
              stage := .proxying ctx { proxy with
                mode := .slow injected
                bufs := { proxy.bufs with clientBuf := proxy.bufs.clientBuf ++ left.take (n + 1) } } } := by
          have handled := slowClient_short ctx loads proxy injected _ short
          rw [chunk] at handled ⊢
          simp [Link.pass, selectPass, mode, handled, next, forwardedBy, Link.write]
        rw [passes]
        exact ⟨quiet, [], proxy.bufs.clientBuf ++ left.take (n + 1), underway.heldBack last _ injected⟩

theorem receive_quiet {l m : Link} {n : Nat} {chunk : Bytes} (quiet : l.outbox = [])
    (received : l.receive n = some (chunk, m)) : l.closed = true ∧ chunk = [] ∧ m = l := by
  rw [Link.receive, if_pos quiet] at received
  split at received
  · rename_i closed
    obtain ⟨rfl, rfl⟩ : [] = chunk ∧ l = m := by simpa using received
    exact ⟨closed, rfl, rfl⟩
  · cases received

theorem takeRequest_part {sent held left : Bytes} (whole : sent ++ held ++ left = terminate) {raw rest : Bytes}
    (taken : takeRequest sent = some (raw, rest)) : raw.headD 0 = 'X'.toUInt8 := by
  have long : 5 ≤ sent.length := by
    rw [takeRequest] at taken
    split at taken
    · rename_i complete
      exact complete.1
    · cases taken
  have all : sent = terminate := by
    have five : terminate.length = 5 := by decide
    rw [List.append_assoc] at whole
    have start : sent = terminate.take sent.length := by rw [← whole, List.take_left]
    rw [start, List.take_of_length_le (by omega)]
  have first : takeRequest terminate = some (terminate, []) := by decide
  rw [all, first] at taken
  obtain ⟨rfl, -⟩ : terminate = raw ∧ [] = rest := by simpa using taken
  rfl

theorem takeRequest_terminate {raw rest : Bytes}
    (taken : takeRequest (terminate ++ discardAll) = some (raw, rest)) : raw.headD 0 = 'X'.toUInt8 := by
  have first : takeRequest (terminate ++ discardAll) = some (terminate, discardAll) := by decide
  rw [first] at taken
  obtain ⟨rfl, -⟩ : terminate = raw ∧ discardAll = rest := by simpa using taken
  rfl

theorem Parts.unanswered {before : Bytes} {s : Parting} (parts : s.Parts before)
    (open_ : s.link.closed = false) {raw rest : Bytes}
    (taken : takeRequest s.link.inbox = some (raw, rest)) (other : raw.headD 0 ≠ 'X'.toUInt8) :
    s.link.stage = .dropped := by
  cases stage : s.link.stage with
  | proxying ctx proxy =>
    obtain ⟨-, sent, held, underway⟩ := parts.proxying stage
    rw [underway.inbox] at taken
    exact absurd (takeRequest_part underway.whole taken) other
  | resetting buf =>
    obtain ⟨-, closed | inbox, -⟩ := parts.resetting stage
    · simp [open_] at closed
    · rw [inbox] at taken
      exact absurd (takeRequest_terminate taken) other
  | idle =>
    rw [Parts, stage] at parts
    exact parts.elim
  | dropped => rfl

theorem close_parts {before : Bytes} {s : Parting} (parts : s.Parts before) :
    Parts before { s with link := { s.link with closed := true } } := by
  cases stage : s.link.stage with
  | proxying ctx proxy =>
    obtain ⟨quiet, sent, held, whole, buffer, inbox, asked, fast, slow, done⟩ := parts.proxying stage
    rw [Parts, stage]
    exact ⟨quiet, sent, held, whole, buffer, inbox, asked, fast, slow, done⟩
  | resetting buf =>
    obtain ⟨quiet, -, asked⟩ := parts.resetting stage
    rw [Parts, stage]
    exact ⟨quiet, .inl rfl, asked⟩
  | idle =>
    rw [Parts, stage] at parts
    exact parts.elim
  | dropped => exact .dropped stage

theorem step_parts {before : Bytes} (s : Parting) (a : PartingAction) (t : Parting)
    (parts : s.Parts before) (stepped : step s a = some t) : t.Parts before := by
  cases a with
  | client n loads =>
    obtain ⟨l, passed, rfl⟩ := Option.map_eq_some_iff.mp stepped
    simp only [Link.step] at passed
    split at passed
    · rename_i ctx proxy stage
      exact Option.some.inj passed ▸ client_parts parts stage loads n
    · cases passed
  | server n loads =>
    obtain ⟨l, passed, rfl⟩ := Option.map_eq_some_iff.mp stepped
    simp only [Link.step] at passed
    split at passed
    · rename_i ctx proxy chunk m stage received
      obtain ⟨quiet, sent, held, underway⟩ := parts.proxying stage
      obtain ⟨closed, rfl, rfl⟩ := receive_quiet quiet received
      have ends : s.link.pass ctx proxy ⟨.server, .ok [], loads⟩ =
          { s.link.write discardAll with stage := .resetting [] } := by
        simp [Link.pass, selectPass, next, forwardedBy, Link.write]
      rw [← Option.some.inj passed, ends]
      exact underway.released quiet (.inl closed)
    · cases passed
  | answer answer =>
    simp only [step] at stepped
    split at stepped
    · rename_i raw rest taken
      split at stepped
      · cases stepped
      · rename_i other
        obtain ⟨l, answered, rfl⟩ := Option.map_eq_some_iff.mp stepped
        simp only [Link.step, taken] at answered
        split at answered
        · rename_i may
          obtain rfl := Option.some.inj answered
          exact .dropped (parts.unanswered may.1 taken other)
        · cases answered
    · cases stepped
  | close =>
    simp only [step, Link.step, Option.map_some, Option.some.injEq] at stepped
    exact stepped ▸ close_parts parts
  | reset n =>
    obtain ⟨l, passed, rfl⟩ := Option.map_eq_some_iff.mp stepped
    simp only [Link.step] at passed
    split at passed
    · rename_i buf chunk m stage received
      obtain ⟨quiet, -, -⟩ := parts.resetting stage
      obtain ⟨closed, rfl, rfl⟩ := receive_quiet quiet received
      exact .dropped (Option.some.inj passed ▸ rfl)
    · cases passed
  | lose =>
    simp only [step, Link.step, Option.map_some, Option.some.injEq] at stepped
    exact .dropped (stepped ▸ rfl)

theorem parts_quiet {l : Link} (quiet : Quiet l) : Parts l.asked ⟨l, terminate⟩ := by
  obtain ⟨inbox, outbox, ctx, proxy, stage, buffer⟩ := quiet
  rw [Parts, stage]
  refine ⟨outbox, [], [], rfl, buffer, inbox, (List.append_nil _).symm, fun _ _ => rfl, fun _ _ => .inl rfl, ?_⟩
  have some : terminate ≠ [] := by decide
  exact fun over_ => absurd over_ some

theorem terminate_notPushed {l : Link} (quiet : Quiet l) (actions : List PartingAction) :
    Transition.Always step (NotPushed l.asked) ⟨l, terminate⟩ actions :=
  (Transition.always step_parts actions (parts_quiet quiet)).mono fun _ parts => parts.notPushed

-- The Terminate in two reads, the end of the client's stream, and the reset of the closed connection.
def cleanExit : List PartingAction :=
  [.client 1 ⟨fun _ => false, fun _ => none⟩, .client 9 ⟨fun _ => false, fun _ => none⟩,
    .client 0 ⟨fun _ => false, fun _ => none⟩, .close, .reset 0]

theorem terminate_notPushed_cleanExit :
    Transition.Always step (NotPushed []) ⟨Link.opened testSettings, terminate⟩ cleanExit :=
  terminate_notPushed ⟨rfl, rfl, testSettings, {}, rfl, rfl⟩ cleanExit

theorem dropped_cleanExit :
    ∃ s, Transition.run step ⟨Link.opened testSettings, terminate⟩ cleanExit = some s ∧
      s.link.stage = .dropped ∧ s.link.asked = terminate ++ discardAll :=
  Transition.exists_run (by decide)

end Parting

end PgMux
