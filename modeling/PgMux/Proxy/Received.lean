import Mathlib.Data.List.Induction
import Mathlib.Data.List.ReduceOption
import PgMux.Proxy.Streams

set_option autoImplicit false

namespace PgMux

open Framing Request Transition

def Write.received : Write → Bytes
  | .toClient bytes | .notice bytes => bytes
  | .toServer _ => []

def receivedBy (writes : List Write) : Bytes := writes.flatMap Write.received

def noticeMessage (ctx : Settings) : PgMessage := parseRaw (overLimitNotice ctx)

theorem encode_noticeMessage (ctx : Settings) : (noticeMessage ctx).encode = overLimitNotice ctx := by
  have notice : 'N'.toUInt8 ≠ 0 := by decide
  simp [noticeMessage, parseRaw, overLimitNotice, buildNoticeResponse, buildErrorLike, PgMessage.encode, notice,
    List.drop_left' (putI32_length _)]

theorem receivedBy_append (first second : List Write) :
    receivedBy (first ++ second) = receivedBy first ++ receivedBy second :=
  List.flatMap_append

-- A notice stands as `none`.
def deliver (ctx : Settings) (items : List (Option PgMessage)) : List PgMessage :=
  items.map (·.getD (noticeMessage ctx))

theorem deliver_append (ctx : Settings) (first second : List (Option PgMessage)) :
    deliver ctx (first ++ second) = deliver ctx first ++ deliver ctx second :=
  List.map_append

/-- The client has got the messages of the server up to those that are left, in their order, with the notices
between them, and then a part of the first message that is left. -/
structure Delivered (ctx : Settings) (writes : List Write) (msgs : List PgMessage)
    (items : List (Option PgMessage)) (left : List PgMessage) (part : Bytes) : Prop where
  messages : msgs = items.reduceOption ++ left
  notices : items.count none = (notices writes).length
  relayed : relayedBy writes = wire items.reduceOption ++ part
  received : receivedBy writes = wire (deliver ctx items) ++ part
  part : PartOfNext (left.map PgMessage.encode) part

namespace Delivered

variable {ctx : Settings} {writes : List Write} {msgs left : List PgMessage} {items : List (Option PgMessage)}
  {part : Bytes}

theorem toServer (delivered : Delivered ctx writes msgs items left part) (bytes : Bytes) :
    Delivered ctx (writes ++ [.toServer bytes]) msgs items left part := by
  obtain ⟨messages, noticed, relayed, received, next⟩ := delivered
  refine ⟨messages, ?_, ?_, ?_, next⟩
  · simpa [PgMux.notices] using noticed
  · simpa using relayed
  · simpa [receivedBy, Write.received] using received

theorem toClient (delivered : Delivered ctx writes msgs items left part) {bytes : Bytes}
    (stream : relayedBy (writes ++ [.toClient bytes]) <+: wire msgs) :
    ∃ items left part, Delivered ctx (writes ++ [.toClient bytes]) msgs items left part := by
  obtain ⟨rfl, noticed, relayed, received, -⟩ := delivered
  rw [relayedBy_append, relayedBy_toClient, relayed, wire_append, List.append_assoc,
    List.prefix_append_right_inj, wire_frames] at stream
  obtain ⟨through, after, front, same, split, next⟩ := split_prefix stream
  obtain ⟨passed, left, rfl, rfl, rfl⟩ := List.map_eq_append_iff.mp same
  rw [← wire_frames] at split
  have added : (passed.map some).reduceOption = passed := by
    rw [List.reduceOption]
    simp
  refine ⟨items ++ passed.map some, left, front, ?_, ?_, ?_, ?_, next⟩
  · rw [List.reduceOption_append, added, List.append_assoc]
  · rw [List.count_append, noticed]
    simp [PgMux.notices, List.count_eq_zero]
  · rw [relayedBy_append, relayedBy_toClient, relayed, List.reduceOption_append, added, wire_append,
      List.append_assoc, List.append_assoc, split]
  · have plain : deliver ctx (passed.map some) = passed := by simp [deliver]
    rw [receivedBy_append, received, deliver_append, plain, wire_append, List.append_assoc, List.append_assoc,
      ← split]
    simp [receivedBy, Write.received]

theorem notice (delivered : Delivered ctx writes msgs items left part) (valid : ∀ msg ∈ msgs, msg.WellFormed)
    (between : AtBoundary pgFormat (relayedBy writes)) :
    Delivered ctx (writes ++ [.notice (overLimitNotice ctx)]) msgs (items ++ [none]) left part := by
  obtain ⟨rfl, noticed, relayed, received, next⟩ := delivered
  have first : AtBoundary pgFormat (wire items.reduceOption) := by
    rw [wire_frames]
    apply atBoundary_flatten
    exact frames_of_wellFormed fun msg member => valid msg (List.mem_append_left _ member)
  rw [relayed, atBoundary_append first] at between
  have frames := frames_of_wellFormed fun msg member => valid msg (List.mem_append_right _ member)
  obtain rfl := next.empty frames between
  have same : (items ++ [none]).reduceOption = items.reduceOption := by simp [List.reduceOption_append]
  refine ⟨by rw [same], ?_, ?_, ?_, next⟩
  · rw [List.count_append, noticed]
    simp [PgMux.notices]
  · rw [same]
    simpa [relayedBy, Write.toClient?] using relayed
  · rw [receivedBy_append, received, deliver_append, wire_append]
    simp [receivedBy, Write.received, deliver, wire, encode_noticeMessage]

end Delivered

namespace Session

theorem NoticesBetween.front {first second : List Write} (between : NoticesBetween (first ++ second)) :
    NoticesBetween first := by
  intro before bytes after same
  exact between before bytes (after ++ second) (by simp [same])

theorem exists_delivered {ctx : Settings} {writes : List Write} {msgs : List PgMessage}
    (valid : ∀ msg ∈ msgs, msg.WellFormed) (between : NoticesBetween writes)
    (own : ∀ bytes ∈ notices writes, bytes = overLimitNotice ctx) (stream : relayedBy writes <+: wire msgs) :
    ∃ items left part, Delivered ctx writes msgs items left part := by
  induction writes using List.reverseRecOn with
  | nil => exact ⟨[], msgs, [], rfl, rfl, rfl, rfl, .inl rfl⟩
  | append_singleton writes write ih =>
    have start : relayedBy writes <+: wire msgs := by
      rw [relayedBy_append] at stream
      exact (List.prefix_append _ _).trans stream
    rw [notices_append, List.forall_mem_append] at own
    obtain ⟨items, left, part, delivered⟩ := ih between.front own.1 start
    cases write with
    | toServer bytes => exact ⟨items, left, part, delivered.toServer bytes⟩
    | toClient bytes => exact delivered.toClient stream
    | notice bytes =>
      obtain rfl := own.2 bytes (by simp [notices])
      exact ⟨items ++ [none], left, part, delivered.notice valid (between writes _ [] rfl)⟩

theorem respondAll_notices (ctx : Settings) (injected : Bool) (requests : List Request) :
    ∀ bytes ∈ notices (respondAll ctx injected requests).2, bytes = overLimitNotice ctx := by
  induction requests generalizing injected with
  | nil => simp [respondAll, notices]
  | cons r rest ih =>
    rw [respondAll, notices_append, List.forall_mem_append]
    refine ⟨?_, ih _⟩
    simp only [respond]
    split
    · split
      · cases injected <;> simp [notices]
      · simp [notices]
    · simp [notices]

theorem own_notices (ctx : Settings) (events : List Event) :
    Always (step ctx) (fun s => ∀ bytes ∈ notices s.written, bytes = overLimitNotice ctx) {} events := by
  refine always ?_ events (by simp [notices])
  intro s event t own stepped
  cases step_forwards stepped with
  | server new read buf forwarded noticed slow | fast pending later chunk mode mode' new read buf forwarded noticed =>
    rwa [noticed]
  | slow injected chunk mode accepted read split forwarded noticed =>
    rw [noticed, List.forall_mem_append]
    exact ⟨own, respondAll_notices ctx injected _⟩

theorem messages_delivered (ctx : Settings) {events : List Event}
    (whole : Along (step ctx) EndsServerMessage {} events) :
    Always (step ctx) (fun s => ∀ msgs : List PgMessage, (∀ msg ∈ msgs, msg.WellFormed) →
      s.serverRead <+: wire msgs → ∃ items left part, Delivered ctx s.written msgs items left part) {} events := by
  have aligned := (serverAligned_iff ctx events).mpr whole
  have conserved := relayed_conserved ctx events
  refine ((aligned.and conserved).and (own_notices ctx events)).mono ?_
  rintro s ⟨⟨⟨between, -⟩, same⟩, own⟩ msgs valid stream
  apply exists_delivered valid between own
  exact (same ▸ List.prefix_append _ _).trans stream

instance (s : Session) (event : Event) : Decidable (EndsServerMessage s event) :=
  match read : event.read with
  | .error cause => isTrue (by simp [EndsServerMessage, IdleRead, read])
  | .ok chunk => decidable_of_iff
      (s.proxy.mode = .fast true ∧ event.peer = .server ∧ chunk ≠ [] ∧
        (s.proxy.scanner.scan (s.proxy.bufs.serverBuf ++ chunk)).2 = true →
          AtBoundary pgFormat (s.serverRead ++ chunk))
      (by simp [EndsServerMessage, IdleRead, read])

theorem messages_delivered_secondRewritten : ∃ s, run (step testSettings) {} secondRewritten = some s ∧
    (notices s.written).length = 1 ∧ ∃ items left part,
      Delivered testSettings s.written [commandComplete "SELECT 1", readyForQuery 'I'] items left part := by
  obtain ⟨s, ran, noticed, read⟩ : ∃ s, run (step testSettings) {} secondRewritten = some s ∧
      (notices s.written).length = 1 ∧
      s.serverRead <+: wire [commandComplete "SELECT 1", readyForQuery 'I'] := exists_run (by decide)
  have all := @messages_delivered testSettings secondRewritten (by decide)
  exact ⟨s, ran, noticed, all.last ran _ (by decide) read⟩

end Session

end PgMux
