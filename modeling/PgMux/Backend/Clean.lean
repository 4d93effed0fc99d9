import PgMux.Backend.Link

set_option autoImplicit false

namespace PgMux

open Framing

theorem takeRequest_some {inbox raw rest : Bytes} :
    takeRequest inbox = some (raw, rest) ↔ inbox = raw ++ rest ∧ IsMessage raw := by
  simp only [takeRequest]
  constructor
  · intro took
    split_ifs at took with complete
    simp only [Option.some.injEq, Prod.mk.injEq] at took
    obtain ⟨rfl, rfl⟩ := took
    exact ⟨(List.take_append_drop _ _).symm, complete.2⟩
  · rintro ⟨rfl, message⟩
    have length := lengthField_append raw rest message.long
    have size := message.size
    have cut : (raw ++ rest).take (1 + lengthField (raw ++ rest)) = raw := by
      rw [length, ← size, List.take_left]
    have behind : (raw ++ rest).drop (1 + lengthField (raw ++ rest)) = rest := by
      rw [length, ← size, List.drop_left]
    have long := message.long
    rw [cut, behind, if_pos ⟨by simp; omega, message⟩]

theorem takeRequest_first {first others raw rest : Bytes} (message : IsMessage first)
    (took : takeRequest (first ++ others) = some (raw, rest)) : raw = first ∧ rest = others := by
  obtain ⟨same, whole⟩ := takeRequest_some.mp took
  obtain ⟨rfl, rfl⟩ := message.isFrame.append_inj whole.isFrame same
  exact ⟨rfl, rfl⟩

theorem discardAll_isMessage : IsMessage discardAll := by
  decide

theorem discardAll_awaitsReady : awaitsReady discardAll = true := by
  decide

theorem EndsInReady.split {msgs : List PgMessage} (ends : EndsInReady msgs) :
    ∃ body ready, msgs = body ++ [ready] ∧ NoReady body ∧ ready.isReady = true := by
  obtain ⟨unready, last⟩ := ends
  obtain ⟨ready, found, is⟩ := Option.map_eq_some_iff.mp last
  exact ⟨msgs.dropLast, ready, (List.dropLast_append_getLast? ready found).symm, unready, is⟩

theorem NoReady.append {first second : List PgMessage} (one : NoReady first) (other : NoReady second) :
    NoReady (first ++ second) := by
  intro msg member
  obtain inside | inside := List.mem_append.mp member
  · exact one msg inside
  · exact other msg inside

def Whole (stream : Bytes) (msgs : List PgMessage) : Prop :=
  stream = wire msgs ∧ ∀ msg ∈ msgs, msg.WellFormed

theorem Whole.append {stream : Bytes} {msgs answer : List PgMessage} (whole : Whole stream msgs)
    (valid : ∀ msg ∈ answer, msg.WellFormed) : Whole (stream ++ wire answer) (msgs ++ answer) := by
  refine ⟨by rw [wire_append, whole.1], ?_⟩
  simpa [or_imp, forall_and] using ⟨whole.2, valid⟩

namespace Link

open Transition

/-- Since the session acquired the connection, the backend has taken requests of this session only, and
everything it wrote answers them: the first byte read is the first byte of such an answer. -/
structure Own (l : Link) : Prop where
  asked : l.asked = (l.answered.map Prod.fst).flatten ++ l.inbox
  heard : l.heard ++ l.outbox = wire (l.answered.flatMap Prod.snd)
  each : ∀ pair ∈ l.answered, IsMessage pair.1 ∧ Answers pair.1 pair.2

-- In the idle queue, every request is answered and every answer is read, that of the reset too.
structure Settled (l : Link) : Prop where
  inbox : l.inbox = []
  outbox : l.outbox = []
  last : (l.answered.map Prod.fst).getLast? = some discardAll

structure Clean (l : Link) : Prop where
  own : l.Own
  settled : l.stage = .idle → l.Settled

/-- Only the reset awaits a ReadyForQuery: of the requests that an open backend has once DISCARD ALL is
written no other one is a Query or a Sync, and what is not yet read are whole messages without one. -/
structure Quiet (l : Link) : Prop where
  inbox : l.closed = true ∨ ∃ (requests : List Bytes) (last : Bytes),
    l.inbox ++ discardAll = requests.flatten ++ last ∧
    (∀ raw ∈ requests, IsMessage raw ∧ awaitsReady raw = false) ∧
    (last = discardAll ∨ takeRequest last = none)
  outbox : ∃ msgs, Whole l.outbox msgs ∧ NoReady msgs

/-- The client disconnects when only the reset awaits a ReadyForQuery, or when an error comes first in
what is not yet read. -/
def LeavesQuiet (l : Link) : LinkAction → Prop
  | .client (.ok []) _ => ∀ ctx proxy, l.stage = .proxying ctx proxy → l.Quiet ∨ MeetsError l.outbox
  | _ => True

inductive Resets (l : Link) (buf : Bytes) : Prop
  | waits (requests : List Bytes) (last : Bytes) (msgs : List PgMessage)
      (inbox : l.inbox = requests.flatten ++ last)
      (plain : ∀ raw ∈ requests, IsMessage raw ∧ awaitsReady raw = false)
      (own : last = discardAll ∨ takeRequest last = none)
      (stream : Whole (buf ++ l.outbox) msgs) (unready : NoReady msgs)
  | answered (body : List PgMessage) (ready : PgMessage) (inbox : l.inbox = [])
      (last : (l.answered.map Prod.fst).getLast? = some discardAll)
      (stream : Whole (buf ++ l.outbox) (body ++ [ready])) (unready : NoReady body)
      (is : ready.isReady = true)
  | fails (stream : ResetFails (buf ++ l.outbox))
  -- The backend closed its end before the reset began.
  | gone (msgs : List PgMessage) (closed : l.closed = true) (stream : Whole (buf ++ l.outbox) msgs)
      (unready : NoReady msgs)

structure Kept (l : Link) : Prop where
  own : l.Own
  resets : ∀ buf, l.stage = .resetting buf → l.Resets buf
  settled : l.stage = .idle → l.Settled

theorem Resets.later {l : Link} {buf : Bytes} (resets : l.Resets buf) (stage : Stage) (closed : Bool)
    (still : l.closed = true → closed = true) : Resets { l with stage := stage, closed := closed } buf := by
  cases resets with
  | waits requests last msgs inbox plain one stream unready =>
    exact .waits requests last msgs inbox plain one stream unready
  | answered body ready inbox last stream unready is =>
    exact .answered body ready inbox last stream unready is
  | fails stream => exact .fails stream
  | gone msgs shut stream unready => exact .gone msgs (still shut) stream unready

theorem Own.write {l : Link} (own : l.Own) (bytes : Bytes) : (l.write bytes).Own :=
  ⟨by simp [Link.write, own.asked], own.heard, own.each⟩

theorem Own.stage {l : Link} (own : l.Own) (stage : Stage) : Own { l with stage := stage } :=
  ⟨own.asked, own.heard, own.each⟩

theorem Own.receive {l after : Link} {n : Nat} {chunk : Bytes} (own : l.Own)
    (received : l.receive n = some (chunk, after)) : after.Own := by
  simp only [Link.receive] at received
  split_ifs at received
  · obtain ⟨-, rfl⟩ := Prod.mk.inj (Option.some.inj received)
    exact own
  · obtain ⟨-, rfl⟩ := Prod.mk.inj (Option.some.inj received)
    exact ⟨own.asked, by simpa using own.heard, own.each⟩

theorem receive_eq {l after : Link} {n : Nat} {chunk : Bytes}
    (received : l.receive n = some (chunk, after)) :
    chunk ++ after.outbox = l.outbox ∧ after.inbox = l.inbox ∧ after.answered = l.answered ∧
      after.closed = l.closed ∧ (chunk = [] → after.closed = true ∧ after.outbox = []) := by
  simp only [Link.receive] at received
  split_ifs at received with empty closed
  · obtain ⟨rfl, rfl⟩ := Prod.mk.inj (Option.some.inj received)
    exact ⟨rfl, rfl, rfl, rfl, fun _ => ⟨closed, empty⟩⟩
  · obtain ⟨rfl, rfl⟩ := Prod.mk.inj (Option.some.inj received)
    exact ⟨List.take_append_drop _ _, rfl, rfl, rfl, fun none => by simp_all⟩

theorem pass_eq (l : Link) (ctx : Settings) (proxy : Proxy) (event : Event) :
    l.pass ctx proxy event =
      let written := l.write (forwardedBy (selectPass ctx proxy event).2.1)
      match passEnds ctx proxy event with
      | .proxying proxy => { written with stage := .proxying ctx proxy }
      | .disconnected => { written.write discardAll with stage := .resetting [] }
      | .failed _ | .panicked => { written with stage := .dropped } :=
  rfl

theorem pass_kept {l : Link} {ctx : Settings} {proxy : Proxy} {event : Event} (own : l.Own)
    (ends : event.read = .ok [] → l.Quiet ∨ MeetsError l.outbox) :
    (l.pass ctx proxy event).Kept := by
  have written := own.write (forwardedBy (selectPass ctx proxy event).2.1)
  rw [pass_eq]
  obtain ⟨-, error, failed⟩ | ⟨-, ⟨eof, left⟩ | ⟨q, goes⟩⟩ := pass_ends ctx proxy event
  · simp only [failed]
    exact ⟨written.stage _, by simp, by simp⟩
  · simp only [left]
    refine ⟨(written.write discardAll).stage _, fun buf is => ?_, by simp⟩
    obtain rfl : [] = buf := by simpa using is
    have silent : (selectPass ctx proxy event).2.1 = [] := by simp [selectPass, eof]
    obtain ⟨closed | ⟨requests, last, inbox, plain, one⟩, msgs, stream, unready⟩ | meets := ends eof
    · exact .gone msgs closed stream unready
    · refine .waits requests last msgs ?_ plain one stream unready
      simpa [Link.write, silent, forwardedBy] using inbox
    · exact .fails meets.fails
  · simp only [goes]
    exact ⟨written.stage _, by simp, by simp⟩

theorem answer_own {l : Link} {raw rest : Bytes} {answer : List PgMessage} (own : l.Own)
    (took : takeRequest l.inbox = some (raw, rest)) (answers : Answers raw answer) :
    Own { l with
      inbox := rest
      outbox := l.outbox ++ wire answer
      answered := l.answered ++ [(raw, answer)] } := by
  obtain ⟨inbox, message⟩ := takeRequest_some.mp took
  constructor
  · simp [own.asked, inbox]
  · simp [← List.append_assoc, own.heard, wire_append]
  · intro pair member
    obtain old | rfl := by simpa using member
    · exact own.each pair old
    · exact ⟨message, answers⟩

theorem answer_resets {l : Link} {buf raw rest : Bytes} {answer : List PgMessage}
    (resets : l.Resets buf) (took : takeRequest l.inbox = some (raw, rest)) (open_ : l.closed = false)
    (answers : Answers raw answer) :
    Resets { l with
      inbox := rest
      outbox := l.outbox ++ wire answer
      answered := l.answered ++ [(raw, answer)] } buf := by
  cases resets with
  | waits requests last msgs inbox plain one stream unready =>
    have longer := stream.append answers.1
    rw [List.append_assoc] at longer
    cases requests with
    | nil =>
      rw [inbox, List.flatten_nil, List.nil_append] at took
      obtain rfl : last = discardAll := by
        refine one.resolve_right fun none => ?_
        simp [none] at took
      rw [← List.append_nil discardAll] at took
      obtain ⟨rfl, rfl⟩ := takeRequest_first discardAll_isMessage took
      have ends := answers.2
      rw [if_pos discardAll_awaitsReady] at ends
      obtain ⟨body, ready, rfl, before, is⟩ := ends.split
      rw [← List.append_assoc msgs] at longer
      exact .answered (msgs ++ body) ready rfl (by simp) longer (unready.append before) is
    | cons first others =>
      rw [inbox, List.flatten_cons, List.append_assoc] at took
      obtain ⟨rfl, rfl⟩ := takeRequest_first (plain first (by simp)).1 took
      have none := answers.2
      rw [if_neg (by simp [(plain raw (by simp)).2])] at none
      exact .waits others last (msgs ++ answer) rfl (fun raw member => plain raw (by simp [member])) one
        longer (unready.append none)
  | answered body ready inbox last stream unready is =>
    rw [inbox] at took
    simp [takeRequest] at took
  | fails stream =>
    apply Resets.fails
    rw [← List.append_assoc]
    exact stream.append (wire answer)
  | gone msgs closed stream unready => simp [closed] at open_

theorem answer_kept {l t : Link} {answer : List PgMessage} (kept : l.Kept)
    (stepped : step l (.answer answer) = some t) : t.Kept := by
  simp only [step] at stepped
  split at stepped
  · rename_i raw rest took
    split_ifs at stepped with may
    obtain rfl := Option.some.inj stepped
    refine ⟨answer_own kept.own took may.2, fun buf is => ?_, fun is => ?_⟩
    · exact answer_resets (kept.resets buf is) took may.1 may.2
    · rw [(kept.settled is).inbox] at took
      simp [takeRequest] at took
  · simp at stepped

theorem ready_ahead {body taken left : List PgMessage} {last : PgMessage}
    (same : body ++ [last] = taken ++ left) (is : last.isReady = true)
    (passed : ∀ msg ∈ taken, msg.msgType ≠ 'Z'.toUInt8) :
    ∃ before, body = taken ++ before ∧ left = before ++ [last] := by
  obtain rfl | ⟨before, final, rfl⟩ := List.eq_nil_or_concat' left
  · rw [List.append_nil] at same
    have unready := passed last (by simp [← same])
    simp [PgMessage.isReady, unready] at is
  · rw [← List.append_assoc] at same
    obtain ⟨rfl, rest⟩ := List.append_inj' same rfl
    obtain rfl := List.cons.inj rest |>.1
    exact ⟨before, rfl, rfl⟩

theorem ready_last {body taken left : List PgMessage} {last ready : PgMessage}
    (same : body ++ [last] = taken ++ ready :: left) (unready : NoReady body)
    (is : ready.isReady = true) : left = [] := by
  obtain rfl | ⟨before, final, rfl⟩ := List.eq_nil_or_concat' left
  · rfl
  · have shifted : body ++ [last] = (taken ++ ready :: before) ++ [final] := by simpa using same
    obtain ⟨rfl, -⟩ := List.append_inj' shifted rfl
    have never := unready ready (by simp)
    simp [is] at never

theorem reset_unready {buf chunk more : Bytes} {msgs : List PgMessage} (nonempty : chunk ≠ [])
    (stream : Whole (buf ++ (chunk ++ more)) msgs) (unready : NoReady msgs) :
    (∃ rest left, resetPass buf (.ok chunk) = .again rest ∧ Whole (rest ++ more) left ∧ NoReady left) ∨
      ∃ error, resetPass buf (.ok chunk) = .returned (.error error) := by
  obtain ⟨bytes, valid⟩ := stream
  rw [← List.append_assoc] at bytes
  obtain ⟨rest, taken, left, again, rfl, tail, -⟩ | ⟨rest, taken, ready, left, -, rfl, is, -⟩ | fails :=
    resetPass_wire nonempty valid bytes
  · refine .inl ⟨rest, left, again, ⟨tail, fun msg member => ?_⟩, fun msg member => ?_⟩
    · exact valid msg (by simp [member])
    · exact unready msg (by simp [member])
  · have never := unready ready (by simp)
    simp [PgMessage.isReady, is] at never
  · exact .inr fails

theorem reset_answered {buf chunk more : Bytes} {body : List PgMessage} {last : PgMessage}
    (nonempty : chunk ≠ []) (stream : Whole (buf ++ (chunk ++ more)) (body ++ [last]))
    (unready : NoReady body) (is : last.isReady = true) :
    (∃ rest before, resetPass buf (.ok chunk) = .again rest ∧ Whole (rest ++ more) (before ++ [last]) ∧
        NoReady before) ∨
      (resetPass buf (.ok chunk) = .returned (.ok ()) ∧ more = []) ∨
      ∃ error, resetPass buf (.ok chunk) = .returned (.error error) := by
  obtain ⟨bytes, valid⟩ := stream
  rw [← List.append_assoc] at bytes
  obtain ⟨rest, taken, left, again, same, tail, passed⟩ | ⟨rest, taken, ready, left, done, same, found, tail⟩ |
    fails := resetPass_wire nonempty valid bytes
  · obtain ⟨before, rfl, rfl⟩ := ready_ahead same is passed
    refine .inl ⟨rest, before, again, ⟨tail, fun msg member => ?_⟩, fun msg member => ?_⟩
    · exact valid msg (by simp_all)
    · exact unready msg (by simp [member])
  · obtain rfl := ready_last same unready (by simp [PgMessage.isReady, found])
    exact .inr (.inl ⟨done, (List.append_eq_nil_iff.mp tail).2⟩)
  · exact .inr (.inr fails)

theorem Resets.reads {l after : Link} {buf chunk : Bytes} (resets : l.Resets buf) (nonempty : chunk ≠ [])
    (outbox : chunk ++ after.outbox = l.outbox) (inbox : after.inbox = l.inbox)
    (answered : after.answered = l.answered) (closed : after.closed = l.closed) :
    (∃ rest, resetPass buf (.ok chunk) = .again rest ∧ after.Resets rest) ∨
      (resetPass buf (.ok chunk) = .returned (.ok ()) ∧ after.Settled) ∨
      ∃ error, resetPass buf (.ok chunk) = .returned (.error error) := by
  cases resets with
  | waits requests last msgs bytes plain one stream unready =>
    rw [← outbox] at stream
    obtain ⟨rest, left, again, stream, unready⟩ | fails := reset_unready nonempty stream unready
    · exact .inl ⟨rest, again, .waits requests last left (inbox.trans bytes) plain one stream unready⟩
    · exact .inr (.inr fails)
  | answered body ready none last stream unready is =>
    rw [← outbox] at stream
    rw [← answered] at last
    obtain ⟨rest, before, again, stream, unready⟩ | ⟨done, empty⟩ | fails :=
      reset_answered nonempty stream unready is
    · exact .inl ⟨rest, again, .answered before ready (inbox.trans none) last stream unready is⟩
    · exact .inr (.inl ⟨done, inbox.trans none, empty, last⟩)
    · exact .inr (.inr fails)
  | fails stream =>
    rw [← outbox, ← List.append_assoc] at stream
    obtain ⟨rest, again, stream⟩ | fails := resetPass_fails nonempty stream
    · exact .inl ⟨rest, again, .fails stream⟩
    · exact .inr (.inr fails)
  | gone msgs shut stream unready =>
    rw [← outbox] at stream
    obtain ⟨rest, left, again, stream, unready⟩ | fails := reset_unready nonempty stream unready
    · exact .inl ⟨rest, again, .gone left (closed.trans shut) stream unready⟩
    · exact .inr (.inr fails)

theorem reset_kept {l t : Link} {n : Nat} (kept : l.Kept) (stepped : step l (.reset n) = some t) :
    t.Kept := by
  simp only [step] at stepped
  split at stepped
  · rename_i buf chunk after stage received
    have own := kept.own.receive received
    have lost : Kept { after with stage := .dropped } := ⟨own.stage _, by simp, by simp⟩
    obtain ⟨outbox, inbox, answered, closed, -⟩ := receive_eq received
    by_cases empty : chunk = []
    · simp only [empty, resetPass, Option.some.injEq] at stepped
      exact stepped ▸ lost
    · obtain ⟨rest, again, resets⟩ | ⟨done, settled⟩ | ⟨error, failed⟩ :=
        (kept.resets buf stage).reads empty outbox inbox answered closed
      · simp only [again, Option.some.injEq] at stepped
        subst stepped
        refine ⟨own.stage _, fun other is => ?_, by simp⟩
        obtain rfl : rest = other := by simpa using is
        exact resets.later _ _ id
      · simp only [done, Option.some.injEq] at stepped
        subst stepped
        exact ⟨own.stage _, by simp, fun _ => ⟨settled.inbox, settled.outbox, settled.last⟩⟩
      · simp only [failed, Option.some.injEq] at stepped
        exact stepped ▸ lost
  · simp at stepped

theorem step_kept (l : Link) (a : LinkAction) (t : Link) (kept : l.Kept) (quiet : l.LeavesQuiet a)
    (stepped : step l a = some t) : t.Kept := by
  cases a with
  | client read loads =>
    simp only [step] at stepped
    split at stepped
    · rename_i ctx proxy stage
      obtain rfl := Option.some.inj stepped
      apply pass_kept kept.own
      rintro rfl
      exact quiet ctx proxy stage
    · simp at stepped
  | server n loads =>
    simp only [step] at stepped
    split at stepped
    · rename_i ctx proxy chunk after stage received
      obtain rfl := Option.some.inj stepped
      have own := kept.own.receive received
      obtain ⟨-, -, -, -, eof⟩ := receive_eq received
      apply pass_kept own
      intro empty
      obtain ⟨closed, outbox⟩ := eof (Except.ok.inj empty)
      exact .inl ⟨.inl closed, [], ⟨by simp [outbox, wire], by simp⟩, by simp [NoReady]⟩
    · simp at stepped
  | answer answer => exact answer_kept kept stepped
  | close =>
    obtain rfl := Option.some.inj stepped
    refine ⟨⟨kept.own.asked, kept.own.heard, kept.own.each⟩, fun buf is => ?_, fun is => ?_⟩
    · exact (kept.resets buf is).later l.stage true fun _ => rfl
    · obtain ⟨inbox, outbox, last⟩ := kept.settled is
      exact ⟨inbox, outbox, last⟩
  | reset n => exact reset_kept kept stepped
  | lose =>
    obtain rfl := Option.some.inj stepped
    exact ⟨kept.own.stage _, by simp, by simp⟩
  | acquire ctx =>
    simp only [step] at stepped
    split at stepped
    · rename_i idle
      obtain rfl := Option.some.inj stepped
      obtain ⟨inbox, outbox, -⟩ := kept.settled idle
      exact ⟨⟨by simp [inbox], by simp [outbox, wire], by simp⟩, by simp, by simp⟩
    · simp at stepped

theorem opened_kept (ctx : Settings) : (opened ctx).Kept :=
  ⟨⟨rfl, rfl, by simp [opened]⟩, by simp [opened], by simp [opened]⟩

end Link

end PgMux
