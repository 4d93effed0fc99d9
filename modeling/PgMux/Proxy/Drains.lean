import PgMux.Proxy.Loops

set_option autoImplicit false

namespace PgMux

open Framing

def Write.toClient? : Write → Bytes
  | .toClient bytes => bytes
  | _ => []

def isIdleReady (raw : Bytes) : Bool :=
  raw.headD 0 = 'Z'.toUInt8 && raw.length = 6 && raw.getD 5 0 = 'I'.toUInt8

structure SameFraming (first second : MessageBoundaryScanner) : Prop where
  skip : second.remainingSkip = first.remainingSkip
  length : second.headerLen = first.headerLen
  header : second.headerBuf = first.headerBuf

theorem SameFraming.trans {first second third : MessageBoundaryScanner}
    (one : SameFraming first second) (other : SameFraming second third) : SameFraming first third :=
  ⟨other.skip.trans one.skip, other.length.trans one.length, other.header.trans one.header⟩

theorem slowServerMessage_spec (loads : Loads) (pass : ServerPass) (m : PgMessage × Bytes) :
    (slowServerMessage loads pass m).1.writes = pass.writes ++ [.toClient m.2] ∧
      SameFraming pass.scanner (slowServerMessage loads pass m).1.scanner ∧
      (slowServerMessage loads pass m).1.flagLoads =
        pass.flagLoads + (if isIdleReady m.2 then 1 else 0) ∧
      (slowServerMessage loads pass m).2 =
        if isIdleReady m.2 && !loads.overLimit pass.flagLoads then some .switchToFast else none := by
  simp only [slowServerMessage, isIdleReady]
  split_ifs with ready status flag <;> simp_all <;> exact ⟨rfl, rfl, rfl⟩

theorem passes_server {loads : Loads} {s after : ServerPass} {buf rest : Bytes}
    {ms : List (PgMessage × Bytes)}
    (passes : messageReader.Passes (slowServerMessage loads) s buf ms after rest) :
    after.writes = s.writes ++ (ms.map Prod.snd).map Write.toClient ∧
      SameFraming s.scanner after.scanner ∧
      after.flagLoads = s.flagLoads + (ms.map Prod.snd).countP isIdleReady ∧
      ∀ k, s.flagLoads ≤ k → k < after.flagLoads → loads.overLimit k = true := by
  induction passes with
  | refl s buf =>
    refine ⟨by simp, ⟨rfl, rfl, rfl⟩, by simp, ?_⟩
    intro k lower upper
    omega
  | @head s next after buf mid rest m ms took continued tail ih =>
    obtain ⟨writes, framing, loaded, set⟩ := ih
    obtain ⟨wrote, same, counted, stop⟩ := slowServerMessage_spec loads s m
    simp only [continued] at wrote same counted stop
    refine ⟨by simp [writes, wrote], same.trans framing, ?_, ?_⟩
    · rw [loaded, counted]
      simp only [List.map_cons, List.countP_cons]
      omega
    · intro k lower upper
      by_cases later : next.flagLoads ≤ k
      · exact set k later upper
      · by_cases idle : isIdleReady m.2
        · have here : k = s.flagLoads := by
            rw [counted, if_pos idle] at later
            omega
          subst here
          simpa [idle] using stop
        · rw [counted, if_neg idle] at later
          omega

theorem enforce_writes (ctx : Settings) (pass : ClientPass) (msg : PgMessage) (raw : Bytes) :
    ∃ more, (enforce ctx pass msg raw).writes = pass.writes ++ more ∧
      ∀ write ∈ more, write.toClient? = [] := by
  simp only [enforce]
  split
  · exact ⟨_, rfl, by simp [Write.toClient?]⟩
  · split
    · split
      · split
        · exact ⟨_, rfl, by simp [Write.toClient?]⟩
        · exact ⟨_, List.append_assoc _ _ _, by simp [Write.toClient?]⟩
      · exact ⟨[], by simp⟩
    · exact ⟨_, rfl, by simp [Write.toClient?]⟩

theorem shouldInject_writes (ctx : Settings) (loads : Loads) (pass : ClientPass) :
    (shouldInject ctx loads pass).2.writes = pass.writes := by
  rw [shouldInject]
  split <;> rfl

theorem slowClientMessage_spec (ctx : Settings) (loads : Loads) (pass : ClientPass)
    (m : PgMessage × Bytes) :
    (∃ more, (slowClientMessage ctx loads pass m).1.writes = pass.writes ++ more ∧
      ∀ write ∈ more, write.toClient? = []) ∧ (slowClientMessage ctx loads pass m).2 = none := by
  have same := shouldInject_writes ctx loads pass
  simp only [slowClientMessage]
  split_ifs
  · exact ⟨⟨_, rfl, by simp [Write.toClient?]⟩, rfl⟩
  · refine ⟨?_, rfl⟩
    rw [← same]
    exact enforce_writes ctx _ m.1 m.2
  · refine ⟨?_, rfl⟩
    rw [← same]
    exact ⟨_, rfl, by simp [Write.toClient?]⟩

theorem passes_client {ctx : Settings} {loads : Loads} {s after : ClientPass} {buf rest : Bytes}
    {ms : List (PgMessage × Bytes)}
    (passes : messageReader.Passes (slowClientMessage ctx loads) s buf ms after rest) :
    ∃ more, after.writes = s.writes ++ more ∧ ∀ write ∈ more, write.toClient? = [] := by
  induction passes with
  | refl s buf => exact ⟨[], by simp⟩
  | @head s next after buf mid rest m ms took continued tail ih =>
    obtain ⟨later, writes, silent⟩ := ih
    obtain ⟨⟨more, wrote, quiet⟩, -⟩ := slowClientMessage_spec ctx loads s m
    rw [continued] at wrote
    refine ⟨more ++ later, by rw [writes, wrote, List.append_assoc], fun write member => ?_⟩
    obtain old | new := List.mem_append.mp member
    · exact quiet write old
    · exact silent write new

variable {flag : Nat → Bool} {buf ready rest : Bytes} {raws : List Bytes}

theorem cleared_not_passed {taken more : List Bytes} (idle : isIdleReady ready = true)
    (cleared : flag (raws.countP isIdleReady) = false) (passed : taken = raws ++ [ready] ++ more)
    (set : ∀ k, k < taken.countP isIdleReady → flag k = true) : False := by
  have bound : raws.countP isIdleReady < taken.countP isIdleReady := by
    simp only [passed, List.countP_append, List.countP_singleton, if_pos idle]
    omega
  simp [set _ bound] at cleared

theorem cleared_reached {taken : List Bytes} {left : Bytes}
    (frames : buf = raws.flatten ++ ready ++ rest) (accepted : ∀ raw ∈ raws, Accepted raw)
    (last : Accepted ready) (idle : isIdleReady ready = true)
    (cleared : flag (raws.countP isIdleReady) = false)
    (took : buf = taken.flatten ++ left) (each : ∀ raw ∈ taken, Accepted raw)
    (set : ∀ k, k < taken.countP isIdleReady → flag k = true) :
    ∃ first others, Accepted first ∧ left = first ++ others := by
  have all : ∀ raw ∈ raws ++ [ready], Accepted raw := by
    simpa [or_imp, forall_and] using ⟨accepted, last⟩
  have same : (raws ++ [ready]).flatten ++ rest = taken.flatten ++ left := by
    rw [← took, frames]
    simp
  obtain ⟨more, passed, -⟩ | ⟨more, whole, tail⟩ :=
    frames_comparable (frames_of_accepted all) (frames_of_accepted each) same
  · exact (cleared_not_passed idle cleared passed set).elim
  · cases more with
    | nil =>
      have passed : taken = raws ++ [ready] ++ [] := by simpa using whole.symm
      exact (cleared_not_passed idle cleared passed set).elim
    | cons first more =>
      refine ⟨first, more.flatten ++ rest, all first (by simp [whole]), ?_⟩
      rw [tail, List.flatten_cons, List.append_assoc]

theorem cleared_unique {others : List Bytes} {other left : Bytes}
    (frames : buf = raws.flatten ++ ready ++ rest) (accepted : ∀ raw ∈ raws, Accepted raw)
    (last : Accepted ready) (idle : isIdleReady ready = true)
    (set : ∀ k, k < raws.countP isIdleReady → flag k = true)
    (cleared : flag (raws.countP isIdleReady) = false)
    (frames' : buf = others.flatten ++ other ++ left) (accepted' : ∀ raw ∈ others, Accepted raw)
    (last' : Accepted other) (idle' : isIdleReady other = true)
    (set' : ∀ k, k < others.countP isIdleReady → flag k = true)
    (cleared' : flag (others.countP isIdleReady) = false) : rest = left := by
  have same : (raws ++ [ready]).flatten ++ rest = (others ++ [other]).flatten ++ left := by
    simpa using frames.symm.trans frames'
  have framed : ∀ raw ∈ raws ++ [ready], IsFrame pgFormat raw := by
    simpa [or_imp, forall_and] using ⟨frames_of_accepted accepted, last.1.isFrame⟩
  have framed' : ∀ raw ∈ others ++ [other], IsFrame pgFormat raw := by
    simpa [or_imp, forall_and] using ⟨frames_of_accepted accepted', last'.1.isFrame⟩
  obtain ⟨more, whole, tail⟩ | ⟨more, whole, tail⟩ := frames_comparable framed framed' same
  · obtain rfl | ⟨before, final, rfl⟩ := List.eq_nil_or_concat' more
    · simpa using tail
    · rw [← List.append_assoc] at whole
      obtain ⟨passed, -⟩ := List.append_inj' whole rfl
      exact (cleared_not_passed idle cleared passed set').elim
  · obtain rfl | ⟨before, final, rfl⟩ := List.eq_nil_or_concat' more
    · simpa using tail.symm
    · rw [← List.append_assoc] at whole
      obtain ⟨passed, -⟩ := List.append_inj' whole rfl
      exact (cleared_not_passed idle' cleared' passed set).elim

def MeetsBadLength (flag : Nat → Bool) (buf : Bytes) : Prop :=
  ∃ (raws : List Bytes) (rest : Bytes) (error : MessageError),
    buf = raws.flatten ++ rest ∧ (∀ raw ∈ raws, Accepted raw) ∧
    (∀ k, k < raws.countP isIdleReady → flag k = true) ∧ tryReadMessageWithRaw rest = .error error

theorem not_error_of_accepted {raw rest : Bytes} {error : MessageError} (accepted : Accepted raw) :
    tryReadMessageWithRaw (raw ++ rest) ≠ .error error := by
  simp [tryReadMessageWithRaw_append accepted rest]

theorem not_meetsBadLength {taken : List Bytes} {left : Bytes} (took : buf = taken.flatten ++ left)
    (each : ∀ raw ∈ taken, Accepted raw) (ends : ∀ error, tryReadMessageWithRaw left ≠ .error error)
    (beyond : ∀ first others, left = first ++ others → Accepted first →
      isIdleReady first = true ∧ flag (taken.countP isIdleReady) = false) :
    ¬ MeetsBadLength flag buf := by
  rintro ⟨raws, rest, error, frames, accepted, set, bad⟩
  have same : taken.flatten ++ left = raws.flatten ++ rest := by rw [← took, frames]
  obtain ⟨more, whole, tail⟩ | ⟨more, whole, tail⟩ :=
    frames_comparable (frames_of_accepted each) (frames_of_accepted accepted) same
  · cases more with
    | nil =>
      subst tail
      exact ends error (by simpa using bad)
    | cons first more =>
      rw [List.flatten_cons, List.append_assoc] at tail
      have passed : raws = taken ++ [first] ++ more := by simpa using whole
      obtain ⟨idle, cleared⟩ := beyond first _ tail (accepted first (by simp [passed]))
      exact cleared_not_passed idle cleared passed set
  · cases more with
    | nil =>
      apply ends error
      simpa [tail] using bad
    | cons first more =>
      rw [tail, List.flatten_cons, List.append_assoc] at bad
      exact not_error_of_accepted (each first (by simp [whole])) bad

theorem drain_failed_iff {S : Type} {body : S → PgMessage × Bytes → S × Option ProxyLoopExit} {s : S}
    (passed : ∀ ms after rest, messageReader.Passes body s buf ms after rest →
      ∀ k, k < (ms.map Prod.snd).countP isIdleReady → flag k = true)
    (stops : ∀ ms after rest m last result, messageReader.Passes body s buf ms after rest →
      body after m = (last, some result) →
      isIdleReady m.2 = true ∧ flag ((ms.map Prod.snd).countP isIdleReady) = false) :
    (∃ error, (messageReader.drain body s buf).2.2 = .failed error) ↔ MeetsBadLength flag buf := by
  obtain ⟨ms, after, rest, passes, ends⟩ := messageReader.drain_passes body s buf
  obtain ⟨frames, accepted⟩ := passes_frames passes
  obtain ⟨read, drained⟩ | ⟨error, read, failed⟩ | ⟨m, left, last, result, read, stop, stopped⟩ := ends
  · simp only [drained, reduceCtorEq, exists_false, false_iff]
    replace read : tryReadMessageWithRaw rest = .ok none := read
    apply not_meetsBadLength frames accepted
    · simp [read]
    · rintro first others rfl whole
      simp [tryReadMessageWithRaw_append whole others] at read
  · simp only [failed, Reader.Ended.failed.injEq, exists_eq', true_iff]
    exact ⟨ms.map Prod.snd, rest, error, frames, accepted, passed ms after rest passes, read⟩
  · simp only [stopped, reduceCtorEq, exists_false, false_iff]
    obtain ⟨rfl, whole, -⟩ := tryReadMessageWithRaw_some.mp read
    apply not_meetsBadLength frames accepted
    · exact fun error => not_error_of_accepted whole
    · intro first others same other
      obtain ⟨rfl, -⟩ := whole.1.isFrame.append_inj other.1.isFrame same
      exact stops ms after _ m last result passes stop

theorem drain_server_failed_iff {loads : Loads} {s : ServerPass} (fresh : s.flagLoads = 0) :
    (∃ error, (messageReader.drain (slowServerMessage loads) s buf).2.2 = .failed error) ↔
      MeetsBadLength loads.overLimit buf := by
  apply drain_failed_iff
  · intro ms after rest passes k below
    obtain ⟨-, -, loaded, set⟩ := passes_server passes
    exact set k (by omega) (by omega)
  · intro ms after rest m last result passes stop
    obtain ⟨-, -, loaded, -⟩ := passes_server passes
    obtain ⟨-, -, -, stopped⟩ := slowServerMessage_spec loads after m
    simp only [stop] at stopped
    rw [loaded, fresh, Nat.zero_add] at stopped
    have both : (isIdleReady m.2 = true ∧
        loads.overLimit ((ms.map Prod.snd).countP isIdleReady) = false) ∧
        result = ProxyLoopExit.switchToFast := by
      simpa using stopped
    exact both.1

theorem drain_client_failed_iff {ctx : Settings} {loads : Loads} {s : ClientPass} :
    (∃ error, (messageReader.drain (slowClientMessage ctx loads) s buf).2.2 = .failed error) ↔
      MeetsBadLength (fun _ => true) buf := by
  apply drain_failed_iff
  · exact fun _ _ _ _ _ _ => rfl
  · intro ms after rest m last result passes stop
    have runs := (slowClientMessage_spec ctx loads after m).2
    simp [stop] at runs

theorem drain_server_stopped {loads : Loads} {s : ServerPass} {reason : ProxyLoopExit}
    (stopped : (messageReader.drain (slowServerMessage loads) s buf).2.2 = .stopped reason) :
    reason = .switchToFast := by
  obtain ⟨ms, after, rest, -, ends⟩ := messageReader.drain_passes (slowServerMessage loads) s buf
  rcases ends with ⟨-, run⟩ | ⟨error, -, run⟩ | ⟨m, left, last, result, -, stop, run⟩
  · simp [run] at stopped
  · simp [run] at stopped
  · have spec := (slowServerMessage_spec loads after m).2.2.2
    simp only [run, Reader.Ended.stopped.injEq] at stopped
    rw [stop, stopped] at spec
    split at spec
    · exact Option.some.inj spec
    · simp at spec

theorem drain_client_stopped {ctx : Settings} {loads : Loads} {s : ClientPass} {reason : ProxyLoopExit} :
    (messageReader.drain (slowClientMessage ctx loads) s buf).2.2 ≠ .stopped reason := by
  obtain ⟨ms, after, rest, -, ends⟩ := messageReader.drain_passes (slowClientMessage ctx loads) s buf
  rcases ends with ⟨-, run⟩ | ⟨error, -, run⟩ | ⟨m, left, last, result, -, stop, run⟩
  · simp [run]
  · simp [run]
  · have runs := (slowClientMessage_spec ctx loads after m).2
    simp [stop] at runs

def PassFails (p : Proxy) (event : Event) : Prop :=
  match event.read with
  | .error _ => True
  | .ok chunk => chunk ≠ [] ∧ (∃ injected, p.mode = .slow injected) ∧
    match event.peer with
    | .client => MeetsBadLength (fun _ => true) (p.bufs.clientBuf ++ chunk)
    | .server => MeetsBadLength event.loads.overLimit (p.bufs.serverBuf ++ chunk)

def passEnds (ctx : Settings) (p : Proxy) (event : Event) : Next :=
  next (selectPass ctx p event).1 (selectPass ctx p event).2.2

theorem pass_ends (ctx : Settings) (p : Proxy) (event : Event) :
    (PassFails p event ∧ ∃ error, passEnds ctx p event = .failed error) ∨
      (¬ PassFails p event ∧
        ((event.read = .ok [] ∧ passEnds ctx p event = .disconnected) ∨
          ∃ q, passEnds ctx p event = .proxying q)) := by
  obtain ⟨peer, read, loads⟩ := event
  match read with
  | .error cause => exact .inl ⟨trivial, _, rfl⟩
  | .ok [] => exact .inr ⟨fun fails => fails.1 rfl, .inl ⟨rfl, rfl⟩⟩
  | .ok (first :: others) =>
    cases mode : p.mode with
    | fast pending =>
      refine .inr ⟨fun fails => ?_, .inr ?_⟩
      · obtain ⟨injected, slow⟩ := fails.2.1
        simp [mode] at slow
      · cases peer with
        | client => simp [passEnds, selectPass, mode, fastClient, next]
        | server =>
          simp only [passEnds, selectPass, mode, fastServer]
          split <;> simp [next]
    | slow injected =>
      cases peer with
      | client =>
        have fails := @drain_client_failed_iff (p.bufs.clientBuf ++ first :: others) ctx loads
          { injected := injected }
        have never := @drain_client_stopped (p.bufs.clientBuf ++ first :: others) ctx loads
          { injected := injected }
        simp only [PassFails, passEnds, selectPass, mode, slowClient, ← fails]
        cases ended : (messageReader.drain (slowClientMessage ctx loads) { injected := injected }
            (p.bufs.clientBuf ++ first :: others)).2.2 with
        | drained => simp [Outcome.ofEnded, next]
        | failed error => simp [Outcome.ofEnded, next]
        | stopped reason => exact (never ended).elim
      | server =>
        have fails := @drain_server_failed_iff (p.bufs.serverBuf ++ first :: others) loads
          { scanner := p.scanner } rfl
        simp only [PassFails, passEnds, selectPass, mode, slowServer, ← fails]
        cases ended : (messageReader.drain (slowServerMessage loads) { scanner := p.scanner }
            (p.bufs.serverBuf ++ first :: others)).2.2 with
        | drained => simp [Outcome.ofEnded, next]
        | failed error => simp [Outcome.ofEnded, next]
        | stopped reason =>
          obtain rfl := drain_server_stopped ended
          simp [Outcome.ofEnded, next]

end PgMux
