import PgMux.Shared.Transition
import PgMux.Proxy.Drains

set_option autoImplicit false

namespace PgMux

structure Session where
  proxy : Proxy := {}
  clientRead : Bytes := []
  serverRead : Bytes := []
  written : List Write := []
deriving DecidableEq, Repr

def relayedBy (writes : List Write) : Bytes := writes.flatMap Write.toClient?

namespace Session

def relayed (s : Session) : Bytes := relayedBy s.written

def taken (read buf : Bytes) : Bytes := read.take (read.length - buf.length)

def clientTaken (s : Session) : Bytes := taken s.clientRead s.proxy.bufs.clientBuf

def step (ctx : Settings) (s : Session) (event : Event) : Option Session :=
  let (p, writes, outcome) := selectPass ctx s.proxy event
  match next p outcome, event.read with
  | .proxying p, .ok chunk =>
    some {
      proxy := p
      clientRead := s.clientRead ++ if event.peer = .client then chunk else []
      serverRead := s.serverRead ++ if event.peer = .server then chunk else []
      written := s.written ++ writes }
  | _, _ => none

end Session

namespace Session

inductive Turn (s : Session) (loads : Loads) (chunk : Bytes) : Peer → Session → Prop
  | fastClient (pending : Bool) (mode : s.proxy.mode = .fast pending) :
      Turn s loads chunk .client
        { s with
          proxy := { s.proxy with
            mode := .fast (pending || loads.overLimit 0)
            bufs := { s.proxy.bufs with clientBuf := [] } }
          clientRead := s.clientRead ++ chunk
          written := s.written ++ [.toServer (s.proxy.bufs.clientBuf ++ chunk)] }
  | fastServer (pending : Bool) (mode : s.proxy.mode = .fast pending)
      (stays : (pending && (s.proxy.scanner.scan (s.proxy.bufs.serverBuf ++ chunk)).2) = false) :
      Turn s loads chunk .server
        { s with
          proxy := { s.proxy with
            scanner := (s.proxy.scanner.scan (s.proxy.bufs.serverBuf ++ chunk)).1
            bufs := { s.proxy.bufs with serverBuf := [] } }
          serverRead := s.serverRead ++ chunk
          written := s.written ++ [.toClient (s.proxy.bufs.serverBuf ++ chunk)] }
  | toSlow (mode : s.proxy.mode = .fast true)
      (idle : (s.proxy.scanner.scan (s.proxy.bufs.serverBuf ++ chunk)).2 = true) :
      Turn s loads chunk .server
        { s with
          proxy := {
            mode := .slow false
            scanner := (s.proxy.scanner.scan (s.proxy.bufs.serverBuf ++ chunk)).1
            bufs := { s.proxy.bufs with serverBuf := [] } }
          serverRead := s.serverRead ++ chunk
          written := s.written ++ [.toClient (s.proxy.bufs.serverBuf ++ chunk)] }
  | slowClient (injected after : Bool) (raws : List Bytes) (rest : Bytes) (more : List Write)
      (mode : s.proxy.mode = .slow injected)
      (frames : s.proxy.bufs.clientBuf ++ chunk = raws.flatten ++ rest)
      (accepted : ∀ raw ∈ raws, Accepted raw) (drained : tryReadMessageWithRaw rest = .ok none)
      (quiet : ∀ write ∈ more, write.toClient? = []) :
      Turn s loads chunk .client
        { s with
          proxy := { s.proxy with
            mode := .slow after
            bufs := { s.proxy.bufs with clientBuf := rest } }
          clientRead := s.clientRead ++ chunk
          written := s.written ++ more }
  | slowServer (injected : Bool) (scanner : MessageBoundaryScanner) (raws : List Bytes) (rest : Bytes)
      (mode : s.proxy.mode = .slow injected)
      (frames : s.proxy.bufs.serverBuf ++ chunk = raws.flatten ++ rest)
      (accepted : ∀ raw ∈ raws, Accepted raw) (drained : tryReadMessageWithRaw rest = .ok none)
      (set : ∀ k, k < raws.countP isIdleReady → loads.overLimit k = true)
      (framing : SameFraming s.proxy.scanner scanner) :
      Turn s loads chunk .server
        { s with
          proxy := { s.proxy with
            scanner := scanner
            bufs := { s.proxy.bufs with serverBuf := rest } }
          serverRead := s.serverRead ++ chunk
          written := s.written ++ raws.map .toClient }
  | toFast (injected : Bool) (scanner : MessageBoundaryScanner) (raws : List Bytes) (ready rest : Bytes)
      (mode : s.proxy.mode = .slow injected)
      (frames : s.proxy.bufs.serverBuf ++ chunk = raws.flatten ++ ready ++ rest)
      (accepted : ∀ raw ∈ raws, Accepted raw) (last : Accepted ready)
      (idle : isIdleReady ready = true)
      (set : ∀ k, k < raws.countP isIdleReady → loads.overLimit k = true)
      (cleared : loads.overLimit (raws.countP isIdleReady) = false)
      (framing : SameFraming s.proxy.scanner scanner) :
      Turn s loads chunk .server
        { s with
          proxy := {
            mode := .fast false
            scanner := scanner
            bufs := { s.proxy.bufs with serverBuf := rest } }
          serverRead := s.serverRead ++ chunk
          written := s.written ++ (raws ++ [ready]).map .toClient }

theorem slowClient_turn {ctx : Settings} {s t : Session} {loads : Loads} {injected : Bool}
    {chunk : Bytes} (mode : s.proxy.mode = .slow injected) (nonempty : chunk ≠ [])
    (stepped : step ctx s ⟨.client, .ok chunk, loads⟩ = some t) : Turn s loads chunk .client t := by
  obtain ⟨ms, after, rest, passes, ends⟩ := messageReader.drain_passes
    (slowClientMessage ctx loads) { injected := injected } (s.proxy.bufs.clientBuf ++ chunk)
  obtain ⟨frames, accepted⟩ := passes_frames passes
  obtain ⟨more, writes, quiet⟩ := passes_client passes
  obtain ⟨first, others, rfl⟩ := List.exists_cons_of_ne_nil nonempty
  simp only [step, selectPass, mode, slowClient] at stepped
  obtain ⟨drained, run⟩ | ⟨e, failed, run⟩ | ⟨m, left, last, reason, took, stopped, run⟩ := ends
  · simp only [run, Outcome.ofEnded, next, Option.some.injEq] at stepped
    have turn : Turn s loads _ .client _ := .slowClient injected after.injected _ rest more mode
      frames accepted drained quiet
    simp only [writes, List.nil_append] at stepped
    simpa [← stepped] using turn
  · simp [run, Outcome.ofEnded, next] at stepped
  · have never := (slowClientMessage_spec ctx loads after m).2
    simp [stopped] at never

theorem slowServer_turn {ctx : Settings} {s t : Session} {loads : Loads} {injected : Bool}
    {chunk : Bytes} (mode : s.proxy.mode = .slow injected) (nonempty : chunk ≠ [])
    (stepped : step ctx s ⟨.server, .ok chunk, loads⟩ = some t) : Turn s loads chunk .server t := by
  obtain ⟨ms, after, rest, passes, ends⟩ := messageReader.drain_passes
    (slowServerMessage loads) { scanner := s.proxy.scanner } (s.proxy.bufs.serverBuf ++ chunk)
  obtain ⟨frames, accepted⟩ := passes_frames passes
  obtain ⟨writes, framing, loaded, set⟩ := passes_server passes
  simp only [List.nil_append, Nat.zero_add, Nat.zero_le, forall_const] at writes loaded set
  obtain ⟨first, others, rfl⟩ := List.exists_cons_of_ne_nil nonempty
  simp only [step, selectPass, mode, slowServer] at stepped
  obtain ⟨drained, run⟩ | ⟨e, failed, run⟩ | ⟨m, left, last, reason, took, stopped, run⟩ := ends
  · simp only [run, Outcome.ofEnded, next, Option.some.injEq] at stepped
    have turn : Turn s loads _ .server _ := .slowServer injected after.scanner _ rest mode frames
      accepted drained (by rwa [← loaded]) framing
    simpa [← stepped, writes, mode] using turn
  · simp [run, Outcome.ofEnded, next] at stepped
  · obtain ⟨rfl, last_accepted, -⟩ := tryReadMessageWithRaw_some.mp took
    obtain ⟨wrote, same, counted, stop⟩ := slowServerMessage_spec loads after m
    simp only [stopped] at wrote same counted stop
    split at stop
    · rename_i idle
      obtain rfl := Option.some.inj stop
      simp only [Bool.and_eq_true, Bool.not_eq_true', loaded] at idle
      have turn : Turn s loads _ .server _ := .toFast injected last.scanner _ m.2 left mode
        (by rw [frames, List.append_assoc]) accepted last_accepted idle.1 (by rwa [← loaded]) idle.2
        (framing.trans same)
      simp only [run, Outcome.ofEnded, next, Option.some.injEq] at stepped
      simpa [← stepped, wrote, writes] using turn
    · simp at stop

theorem fastServer_turn {ctx : Settings} {s t : Session} {loads : Loads} {pending : Bool}
    {chunk : Bytes} (mode : s.proxy.mode = .fast pending) (nonempty : chunk ≠ [])
    (stepped : step ctx s ⟨.server, .ok chunk, loads⟩ = some t) : Turn s loads chunk .server t := by
  obtain ⟨first, others, rfl⟩ := List.exists_cons_of_ne_nil nonempty
  simp only [step, selectPass, mode, fastServer] at stepped
  by_cases idle : (pending && (s.proxy.scanner.scan (s.proxy.bufs.serverBuf ++ first :: others)).2) = true
  · obtain ⟨rfl, saw⟩ := Bool.and_eq_true_iff.mp idle
    simp only [idle, if_true, next, Option.some.injEq] at stepped
    have turn : Turn s loads _ .server _ := .toSlow mode saw
    simpa [← stepped] using turn
  · have stays := Bool.eq_false_iff.mpr idle
    simp only [stays, Bool.false_eq_true, if_false, next, Option.some.injEq] at stepped
    have turn : Turn s loads _ .server _ := .fastServer pending mode stays
    simpa [← stepped, mode] using turn

theorem step_turn {ctx : Settings} {s t : Session} {event : Event}
    (stepped : step ctx s event = some t) :
    ∃ chunk, event.read = .ok chunk ∧ chunk ≠ [] ∧ Turn s event.loads chunk event.peer t := by
  obtain ⟨peer, read, loads⟩ := event
  match read with
  | .error cause => simp [step, selectPass, next] at stepped
  | .ok [] => simp [step, selectPass, next] at stepped
  | .ok (first :: others) =>
    have nonempty : first :: others ≠ [] := by simp
    refine ⟨first :: others, rfl, nonempty, ?_⟩
    cases mode : s.proxy.mode with
    | fast pending =>
      cases peer with
      | client =>
        have flag : (if (!pending && loads.overLimit 0) = true then true else pending) =
            (pending || loads.overLimit 0) := by cases pending <;> simp
        have turn : Turn s loads (first :: others) .client _ := .fastClient pending mode
        simp only [step, selectPass, mode, next, fastClient, flag, Option.some.injEq] at stepped
        simpa [← stepped] using turn
      | server => exact fastServer_turn mode nonempty stepped
    | slow injected =>
      cases peer with
      | client => exact slowClient_turn mode nonempty stepped
      | server => exact slowServer_turn mode nonempty stepped

end Session

end PgMux
