import Mathlib.Data.List.Forall2
import PgMux.Proxy.SlowLoop
import PgMux.Proxy.Alignment

set_option autoImplicit false

namespace PgMux

open Request

def notices (writes : List Write) : List Bytes :=
  writes.filterMap fun
    | .notice bytes => some bytes
    | _ => none

theorem serverWrites_append (first second : List Write) :
    serverWrites (first ++ second) = serverWrites first ++ serverWrites second :=
  List.filterMap_append

theorem serverWrites_clientSide (writes : List Write) :
    serverWrites (clientSide writes) = serverWrites writes := by
  rw [serverWrites, clientSide, List.filterMap_filter]
  refine List.filterMap_congr fun write _ => ?_
  cases write <;> rfl

theorem notices_clientSide (writes : List Write) : notices (clientSide writes) = notices writes := by
  rw [notices, clientSide, List.filterMap_filter]
  refine List.filterMap_congr fun write _ => ?_
  cases write <;> rfl

theorem serverWrites_toServer (outs : List Bytes) : serverWrites (outs.map .toServer) = outs := by
  simp [serverWrites, List.filterMap_map, Function.comp_def, Write.toServer?]

theorem serverWrites_respond (ctx : Settings) (injected : Bool) (r : Request) :
    serverWrites (r.respond ctx injected).2 = r.reply ctx := by
  simp only [respond]
  split
  · split
    · rw [serverWrites_append, serverWrites_toServer]
      cases injected <;> rfl
    · rw [serverWrites_toServer]
  · rw [serverWrites_toServer]

theorem serverWrites_respondAll (ctx : Settings) (injected : Bool) (requests : List Request) :
    serverWrites (respondAll ctx injected requests).2 = requests.flatMap (reply ctx) := by
  induction requests generalizing injected with
  | nil => rfl
  | cons r rest ih =>
    simp only [respondAll, serverWrites_append, serverWrites_respond, ih, List.flatMap_cons]

def readOnlyMessage (text : String) : PgMessage :=
  ⟨'Q'.toUInt8, asBytes ("SET TRANSACTION READ ONLY; " ++ text) ++ [0]⟩

theorem readOnlyMessage_wellFormed {r : Request} (accepted : Accepted r.raw) {text : String}
    (found : r.text = some text) : (readOnlyMessage text).WellFormed := by
  obtain ⟨-, -, rest, payload⟩ := extractQueryText_some.mp found
  have long := congrArg List.length payload
  have size := accepted.1.size
  have bounded := accepted.2
  have most : maxMessageSize = 67108864 := rfl
  have first : (asBytes "SET TRANSACTION READ ONLY; ").length = 27 := by decide
  simp only [Request.msg, parseRaw, List.length_drop, List.length_append, List.length_cons] at long
  refine ⟨show 'Q'.toUInt8 ≠ 0 by decide, ?_⟩
  simp only [readOnlyMessage, asBytes_append, List.length_append, first, List.length_singleton]
  omega

def SameType (raw out : Bytes) : Prop := IsMessage out ∧ out.headD 0 = raw.headD 0

theorem reply_cases {ctx : Settings} {r : Request} (accepted : Accepted r.raw) :
    (r.reply ctx = [] ∧ r.Enforced ctx ∧ r.text = none) ∨
      (∃ out, r.reply ctx = [out] ∧ SameType r.raw out) ∧ (r.Enforced ctx → r.text.isSome) := by
  simp only [reply]
  by_cases enforced : r.Enforced ctx
  · rw [if_pos enforced]
    cases found : r.text with
    | none => exact .inl ⟨rfl, enforced, rfl⟩
    | some text =>
      have wellFormed := readOnlyMessage_wellFormed accepted found
      refine .inr ⟨⟨_, rfl, PgMessage.isMessage_encode wellFormed, ?_⟩, fun _ => rfl⟩
      rw [show readOnlyQuery text = (readOnlyMessage text).encode from rfl,
        PgMessage.headD_encode wellFormed]
      exact enforced.1.symm
  · rw [if_neg enforced]
    exact .inr ⟨⟨r.raw, rfl, accepted.1, rfl⟩, fun does => absurd does enforced⟩

theorem reply_ne_nil {ctx : Settings} {r : Request} (accepted : Accepted r.raw) :
    r.reply ctx ≠ [] ↔ (r.IsQuery → r.OverLimit ctx → r.text.isSome) := by
  obtain ⟨empty, ⟨query, beyond, -⟩, none⟩ | ⟨⟨out, one, -⟩, readable⟩ := @reply_cases ctx r accepted
  · simp [empty, query, beyond, none]
  · refine iff_of_true (by simp [one]) fun query beyond => ?_
    by_cases exempt : r.Exempt ctx
    · obtain ⟨-, text, found, -⟩ := exempt
      rw [Option.mem_def.mp found]
      rfl
    · exact readable ⟨query, beyond, exempt⟩

theorem length_replies {ctx : Settings} {requests : List Request}
    (accepted : ∀ r ∈ requests, Accepted r.raw) :
    (requests.flatMap (reply ctx)).length ≤ requests.length ∧
      ((requests.flatMap (reply ctx)).length = requests.length → ∀ r ∈ requests, r.reply ctx ≠ []) := by
  induction requests with
  | nil => simp
  | cons r rest ih =>
    obtain ⟨below, equal⟩ := ih fun other member => accepted other (by simp [member])
    have one : (r.reply ctx).length ≤ 1 := by
      obtain ⟨empty, -⟩ | ⟨⟨out, one, -⟩, -⟩ := @reply_cases ctx r (accepted r (by simp))
      · simp [empty]
      · simp [one]
    simp only [List.flatMap_cons, List.length_append, List.length_cons]
    refine ⟨by omega, fun same other member => ?_⟩
    obtain rfl | later := List.mem_cons.mp member
    · exact List.length_pos_iff.mp (by omega)
    · exact equal (by omega) other later

theorem oneForOne_requests {ctx : Settings} {requests : List Request}
    (accepted : ∀ r ∈ requests, Accepted r.raw) :
    List.Forall₂ SameType (requests.map Request.raw) (requests.flatMap (reply ctx)) ↔
      ∀ r ∈ requests, r.reply ctx ≠ [] := by
  constructor
  · intro paired
    have same := paired.length_eq
    rw [List.length_map] at same
    exact (length_replies accepted).2 same.symm
  · intro each
    induction requests with
    | nil => exact .nil
    | cons r rest ih =>
      obtain ⟨empty, -⟩ | ⟨⟨out, one, same⟩, -⟩ := @reply_cases ctx r (accepted r (by simp))
      · exact absurd empty (each r (by simp))
      · rw [List.map_cons, List.flatMap_cons, one]
        exact .cons same (ih (fun other member => accepted other (by simp [member]))
          fun other member => each other (by simp [member]))

namespace SlowLoop

def OneForOne (l : SlowLoop) : Prop :=
  List.Forall₂ SameType (completeMessages l.clientRead) (serverWrites l.written)

def Readable (ctx : Settings) (l : SlowLoop) (event : Event) : Prop :=
  ∀ r ∈ l.newRequests event, r.IsQuery → r.OverLimit ctx → r.text.isSome

theorem Responded.replies {ctx : Settings} {l : SlowLoop} (responded : Responded ctx l) :
    serverWrites l.written = l.requests.flatMap (reply ctx) := by
  obtain ⟨injected, -, responses⟩ := responded.responded
  have writes : (respondAll ctx false l.requests).2 = clientSide l.written := congrArg Prod.snd responses
  rw [← serverWrites_clientSide, ← writes, serverWrites_respondAll]

theorem Responded.complete {ctx : Settings} {l : SlowLoop} (responded : Responded ctx l) :
    completeMessages l.clientRead = l.requests.map Request.raw := by
  have accepted : ∀ raw ∈ l.requests.map Request.raw, Accepted raw := by
    simpa using responded.accepted
  rw [responded.parsed]
  refine completeMessages_of_accepted accepted ?_
  obtain ⟨drained, -⟩ | ⟨e, failed, -⟩ := responded.ends
  · exact .inl drained
  · exact .inr ⟨e, failed⟩

theorem Responded.oneForOne {ctx : Settings} {l : SlowLoop} (responded : Responded ctx l) :
    l.OneForOne ↔ ∀ r ∈ l.requests, r.reply ctx ≠ [] := by
  rw [OneForOne, responded.complete, responded.replies]
  exact oneForOne_requests responded.accepted

theorem step_requests {ctx : Settings} {l t : SlowLoop} {event : Event}
    (stepped : step ctx l event = some t) : t.requests = l.requests ++ l.newRequests event := by
  simp only [step] at stepped
  split at stepped
  · rename_i returned
    obtain rfl := Option.some.inj stepped
    simp [newRequests, Option.isSome_iff_ne_none.mp returned]
  · obtain rfl := Option.some.inj stepped
    rfl

theorem step_some (ctx : Settings) (l : SlowLoop) (event : Event) : step ctx l event ≠ none := by
  simp only [step]
  split <;> simp

/-- A predicate that looks at the requests one by one holds throughout exactly the runs in which
every new request meets the condition that decides it. -/
theorem always_requests_iff {ctx : Settings} {holds : SlowLoop → Prop} {each guard : Request → Prop}
    (reads : ∀ l, Responded ctx l → (holds l ↔ ∀ r ∈ l.requests, each r))
    (decides : ∀ r, Accepted r.raw → (each r ↔ guard r)) (scanner : MessageBoundaryScanner)
    (events : List Event) :
    Transition.Always (step ctx) holds (start scanner) events ↔
      Transition.Along (step ctx) (fun l event => ∀ r ∈ l.newRequests event, guard r) (start scanner)
        events := by
  have kept := Transition.always responded_step events (responded_start ctx scanner)
  refine Transition.always_iff_along ?_ ?_ kept ((reads _ kept.head).mpr (by simp [start]))
  · intro l event t before after fine stepped
    have requests := step_requests stepped
    have accepted := after.accepted
    rw [reads l before] at fine
    rw [reads t after]
    simp only [requests, List.mem_append] at accepted ⊢
    constructor
    · intro all r new
      exact (decides r (accepted r (.inr new))).mp (all r (.inr new))
    · intro new r member
      obtain old | fresh := member
      · exact fine r old
      · exact (decides r (accepted r (.inr fresh))).mpr (new r fresh)
  · intro l event disabled
    exact absurd disabled (step_some ctx l event)

theorem oneForOne_iff (ctx : Settings) (scanner : MessageBoundaryScanner) (events : List Event) :
    Transition.Always (step ctx) OneForOne (start scanner) events ↔
      Transition.Along (step ctx) (Readable ctx) (start scanner) events :=
  always_requests_iff (fun _ responded => responded.oneForOne) (fun _ accepted => reply_ne_nil accepted)
    scanner events

-- A query in Latin 1, with the byte of an accented letter.
def latinQuery : Bytes := PgMessage.encode ⟨'Q'.toUInt8, asBytes "SELECT '" ++ [0xe9] ++ asBytes "'" ++ [0]⟩

def overLimitReads (chunk : Bytes) : Event :=
  ⟨.client, .ok chunk, ⟨fun _ => true, fun _ => some 2000⟩⟩

theorem not_oneForOne_latinQuery :
    ¬ Transition.Always (step testSettings) OneForOne (start .new) [overLimitReads latinQuery] := by
  intro always
  obtain ⟨l, ran, read, nothing⟩ : ∃ l,
      Transition.run (step testSettings) (start .new) [overLimitReads latinQuery] = some l ∧
      completeMessages l.clientRead = [latinQuery] ∧ serverWrites l.written = [] :=
    Transition.exists_run (by decide)
  have last := always.last ran
  rw [OneForOne, read, nothing] at last
  cases last

end SlowLoop

namespace Session

/-- In slow mode, a session is in a run of the slow loop, and has written what the loop has written
behind what it had written before. -/
def InSlowLoop (ctx : Settings) (s : Session) : Prop :=
  ∀ injected, s.proxy.mode = .slow injected → ∃ scanner events l read written,
    Transition.run (SlowLoop.step ctx) (SlowLoop.start scanner) events = some l ∧ l.returned = none ∧
      l.proxy = s.proxy ∧ s.clientRead = read ++ l.clientRead ∧ s.written = written ++ l.written

theorem selectPass_slow (ctx : Settings) {p : Proxy} {injected : Bool} (mode : p.mode = .slow injected)
    (event : Event) : ∃ after, (selectPass ctx p event).1.mode = .slow after := by
  obtain ⟨peer, read, loads⟩ := event
  match peer, read with
  | _, .error cause => exact ⟨injected, mode⟩
  | _, .ok [] => exact ⟨injected, mode⟩
  | .client, .ok (first :: others) => exact ⟨_, by simp only [selectPass, mode]; rfl⟩
  | .server, .ok (first :: others) => exact ⟨injected, by simp only [selectPass, mode]; exact mode⟩

theorem again_of_slow {p q : Proxy} {outcome : Outcome} {before after : Bool}
    (proxying : next p outcome = .proxying q) (mode : p.mode = .slow before)
    (slow : q.mode = .slow after) : outcome = .again ∧ q = p := by
  match outcome with
  | .again =>
    obtain rfl : p = q := by simpa [next] using proxying
    exact ⟨rfl, rfl⟩
  | .fail error => simp [next] at proxying
  | .exit .clientDisconnected => simp [next] at proxying
  | .exit .switchToSlow => simp [next, mode] at proxying
  | .exit .switchToFast =>
    simp only [next, mode, Next.proxying.injEq] at proxying
    simp [← proxying] at slow

theorem step_proxying {ctx : Settings} {s t : Session} {event : Event}
    (stepped : step ctx s event = some t) :
    next (selectPass ctx s.proxy event).1 (selectPass ctx s.proxy event).2.2 = .proxying t.proxy ∧
      t.clientRead = s.clientRead ++ event.clientChunk ∧
      t.written = s.written ++ (selectPass ctx s.proxy event).2.1 := by
  simp only [step] at stepped
  split at stepped
  · rename_i p chunk proxying read
    obtain rfl := Option.some.inj stepped
    refine ⟨proxying, ?_, rfl⟩
    cases peer : event.peer <;> simp [Event.clientChunk, peer, read]
  · simp at stepped

theorem step_inSlowLoop {ctx : Settings} (s : Session) (event : Event) (t : Session)
    (conserved : Conserved s) (_ : Conserved t) (inLoop : InSlowLoop ctx s)
    (stepped : step ctx s event = some t) : InSlowLoop ctx t := by
  intro after slow
  cases mode : s.proxy.mode with
  | fast pending =>
    -- The loop starts: the read of the server has emptied one buffer, and the client's is empty
    -- since the flag was seen.
    obtain ⟨chunk, -, -, turn⟩ := step_turn stepped
    have starts : t.proxy = (SlowLoop.start t.proxy.scanner).proxy := by
      generalize event.peer = peer at turn
      cases turn with
      | fastClient pending mode => simp at slow
      | fastServer pending' mode' stays => simp [mode'] at slow
      | toSlow fast idle => simp [SlowLoop.start, conserved.pending fast]
      | _ => simp_all
    exact ⟨_, [], _, t.clientRead, t.written, rfl, rfl, starts.symm, by simp [SlowLoop.start],
      by simp [SlowLoop.start]⟩
  | slow injected =>
    obtain ⟨scanner, events, l, read, written, ran, open_, same, reads, writes⟩ := inLoop injected mode
    obtain ⟨proxying, reads', writes'⟩ := step_proxying stepped
    obtain ⟨between, middle⟩ := selectPass_slow ctx mode event
    obtain ⟨again, proxy⟩ := again_of_slow proxying middle slow
    let k : SlowLoop := {
      proxy := t.proxy
      clientRead := l.clientRead ++ event.clientChunk
      requests := l.requests ++ l.newRequests event
      written := l.written ++ (selectPass ctx s.proxy event).2.1 }
    have next : SlowLoop.step ctx l event = some k := by
      simp only [SlowLoop.step, open_, Option.isSome_none, Bool.false_eq_true, if_false, same, k, proxy,
        again, SlowLoop.exitOf]
    refine ⟨scanner, events ++ [event], k, read, written, ?_, rfl, rfl, ?_, ?_⟩
    · exact Transition.run_append.mpr ⟨l, ran, Transition.run_cons.mpr ⟨k, next, rfl⟩⟩
    · rw [reads', reads, List.append_assoc]
    · rw [writes', writes, List.append_assoc]

theorem inSlowLoop (ctx : Settings) (events : List Event) :
    Transition.Always (step ctx) (InSlowLoop ctx) {} events :=
  (Transition.always step_conserved events conserved_initial).also step_inSlowLoop (by simp [InSlowLoop])

end Session

end PgMux
