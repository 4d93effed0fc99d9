import PgMux.Shared.Transition
import PgMux.Scanner

set_option autoImplicit false

namespace PgMux

open Framing

-- The status of a ReadyForQuery.
def PgMessage.readyStatus (msg : PgMessage) : Option UInt8 :=
  if msg.msgType = 'Z'.toUInt8 ∧ msg.payload.length = 1 then msg.payload.head? else none

theorem PgMessage.readyStatus_eq_some {msg : PgMessage} {status : UInt8} :
    msg.readyStatus = some status ↔ msg = ⟨'Z'.toUInt8, [status]⟩ := by
  obtain ⟨msgType, payload⟩ := msg
  simp only [readyStatus]
  split
  · rename_i ready
    obtain ⟨only, rfl⟩ := List.length_eq_one_iff.mp ready.2
    simp [ready.1]
  · rename_i other
    simp only [reduceCtorEq, PgMessage.mk.injEq, false_iff]
    rintro ⟨rfl, rfl⟩
    simp at other

namespace MessageBoundaryScanner

theorem lastStatus_eq (status : UInt8) (seen : List UInt8) :
    lastStatus status seen = seen.getLast?.getD status := by
  obtain rfl | ⟨front, last, rfl⟩ := List.eq_nil_or_concat' seen
  · rfl
  · simp [lastStatus]

theorem lastIdle_iff (seen : List UInt8) :
    lastIdle false seen = true ↔ seen.getLast? = some 'I'.toUInt8 := by
  obtain rfl | ⟨front, last, rfl⟩ := List.eq_nil_or_concat' seen
  · simp [lastIdle]
  · simp [lastIdle]

theorem positive_of_isReadyHeader (header : Bytes) (ready : isReadyHeader header = true) :
    0 < pgFormat.bodySize header := by
  simp only [isReadyHeader, Bool.and_eq_true, decide_eq_true_eq] at ready
  simp only [pgFormat]
  omega

theorem statuses_of_message {raw : Bytes} (message : IsMessage raw) :
    (if isReadyHeader (raw.take 5) then (raw.drop 5).take 1 else []) =
      (parseRaw raw).readyStatus.toList := by
  have long := message.long
  have size := message.size
  have stated := lengthField_take long
  have head : (raw.take 5).headD 0 = raw.headD 0 := by
    cases raw with
    | nil => rfl
    | cons b rest => rfl
  have ready : isReadyHeader (raw.take 5) = true ↔
      raw.headD 0 = 'Z'.toUInt8 ∧ (raw.drop 5).length = 1 := by
    simp only [isReadyHeader, stated, head, Bool.and_eq_true, decide_eq_true_eq, List.length_drop]
    have lower := message.lower
    constructor
    · rintro ⟨is, one⟩
      exact ⟨is, by omega⟩
    · rintro ⟨is, one⟩
      exact ⟨is, by omega⟩
  by_cases is : isReadyHeader (raw.take 5) = true
  · obtain ⟨status, only⟩ := List.length_eq_one_iff.mp (ready.mp is).2
    rw [if_pos is, PgMessage.readyStatus, parseRaw, if_pos (ready.mp is), only]
    rfl
  · rw [if_neg is, PgMessage.readyStatus, parseRaw, if_neg (mt ready.mpr is)]
    rfl

theorem seen_messages {raws : List Bytes} (messages : ∀ raw ∈ raws, IsMessage raw) (rest : Bytes) :
    ({} : Watch UInt8).seen pgFormat isReadyHeader (raws.flatten ++ rest) =
      raws.filterMap (fun raw => (parseRaw raw).readyStatus) ++
        ({} : Watch UInt8).seen pgFormat isReadyHeader rest := by
  rw [Watch.seen_frames positive_of_isReadyHeader fun raw member => (messages raw member).isFrame]
  congr 1
  induction raws with
  | nil => rfl
  | cons raw others ih =>
    have here := statuses_of_message (messages raw (by simp))
    rw [List.flatMap_cons, ih fun other member => messages other (by simp [member])]
    rw [show pgFormat.headerSize = 5 from rfl, here]
    cases status : (parseRaw raw).readyStatus with
    | none => simp [status]
    | some status => simp [status]

theorem seen_drained {rest : Bytes} (drained : tryReadMessageWithRaw rest = .ok none) :
    ({} : Watch UInt8).seen pgFormat isReadyHeader rest = [] := by
  obtain short | ⟨lower, -, cut⟩ := tryReadMessageWithRaw_none.mp drained
  · exact (Watch.header_short [] rest (by simpa [pgFormat] using short)).2
  · by_cases short : rest.length < 5
    · exact (Watch.header_short [] rest (by simpa [pgFormat] using short)).2
    · have stated := lengthField_take (Nat.not_lt.mp short)
      have size : (rest.take 5).length = pgFormat.headerSize := by simp [pgFormat]; omega
      have within : (rest.drop 5).length ≤ pgFormat.bodySize (rest.take 5) := by
        simp only [pgFormat, stated, List.length_drop]
        omega
      have saw := (@Watch.started _ pgFormat isReadyHeader _ size _ within).2
      rw [List.take_append_drop] at saw
      rw [saw]
      split
      · rename_i ready
        simp only [isReadyHeader, stated, Bool.and_eq_true, decide_eq_true_eq] at ready
        have none_left : (rest.drop 5).length = 0 := by
          simp only [List.length_drop]
          omega
        rw [List.length_eq_zero_iff.mp none_left]
        rfl
      · rfl

theorem framing_drained {scanner : MessageBoundaryScanner} (valid : scanner.Valid) {rest : Bytes}
    (drained : tryReadMessageWithRaw rest = .ok none)
    (stands : scanner.position = advance pgFormat boundary rest) :
    (rest.length < 5 → scanner.headerLen = rest.length ∧
        scanner.headerBuf.take scanner.headerLen = rest ∧ scanner.remainingSkip = 0) ∧
      (5 ≤ rest.length → scanner.headerLen = 0 ∧
        scanner.remainingSkip = 1 + lengthField rest - rest.length) := by
  have buffer := valid.buffer
  have below := valid.short
  constructor
  · intro short
    rw [advance_header pgFormat [] rest (by simpa [pgFormat] using short), position] at stands
    split at stands
    · simp at stands
    · rename_i skip
      simp only [Position.header.injEq, List.nil_append] at stands
      have same := congrArg List.length stands
      simp only [List.length_take] at same
      exact ⟨by omega, stands, by omega⟩
  · intro long
    obtain short | ⟨lower, -, cut⟩ := tryReadMessageWithRaw_none.mp drained
    · omega
    · have stated := lengthField_take long
      have into := advance_into pgFormat (rest.take 5) (rest.drop 5) (by simp [pgFormat]; omega)
        (by simp only [pgFormat, stated, List.length_drop]; omega)
      simp only [List.take_append_drop, pgFormat, stated, List.length_drop] at into
      obtain ⟨left, missing⟩ : ∃ left, lengthField rest - 4 - (rest.length - 5) = left + 1 :=
        ⟨lengthField rest - 4 - (rest.length - 5) - 1, by omega⟩
      rw [missing] at into
      have inside : scanner.position = .body (left + 1) := stands.trans into
      rw [position] at inside
      split at inside
      · rename_i skipping
        simp only [Position.body.injEq] at inside
        exact ⟨valid.exclusive skipping, by omega⟩
      · simp at inside

theorem scan_agrees {scanner : MessageBoundaryScanner} (buffer : scanner.headerBuf.length = 5)
    (skip : scanner.remainingSkip = 0) (empty : scanner.headerLen = 0) {buf rest : Bytes}
    {ms : List (PgMessage × Bytes)} (split : messageReader.takeAll buf = (ms, rest, .drained)) :
    (scanner.scan buf).1.transactionStatus =
        (ms.filterMap fun m => m.1.readyStatus).getLast?.getD scanner.transactionStatus ∧
      ((scanner.scan buf).2 = true ↔
        (ms.filterMap fun m => m.1.readyStatus).getLast? = some 'I'.toUInt8) ∧
      (rest.length < 5 → (scanner.scan buf).1.headerLen = rest.length ∧
        (scanner.scan buf).1.headerBuf.take (scanner.scan buf).1.headerLen = rest ∧
        (scanner.scan buf).1.remainingSkip = 0) ∧
      (5 ≤ rest.length → (scanner.scan buf).1.headerLen = 0 ∧
        (scanner.scan buf).1.remainingSkip = 1 + lengthField rest - rest.length) := by
  have valid : scanner.Valid := ⟨buffer, by omega, fun _ => empty⟩
  have start : scanner.position = boundary := (position_eq_boundary valid).mpr ⟨skip, empty⟩
  obtain ⟨taken, left, passes, ⟨drained, took, -⟩ | ⟨e, -, took, -⟩⟩ :=
    @Reader.drain_endless _ _ _ _ Empty messageReader
      (fun (all : List (PgMessage × Bytes)) m => (all ++ [m], none)) (fun _ _ => rfl) [] buf
  · obtain ⟨rfl, rfl⟩ : ms = taken ∧ rest = left := by simpa using split.symm.trans took
    obtain ⟨frames, accepted⟩ := passes_frames passes
    have parsed := parsed_of_passes passes
    have seen : scanner.statusesIn buf = ms.filterMap fun m => m.1.readyStatus := by
      rw [statusesIn, start, frames]
      refine (seen_messages (fun raw member => (accepted raw member).1) rest).trans ?_
      rw [seen_drained drained, List.append_nil, List.filterMap_map]
      exact List.filterMap_congr fun m member => by simp [parsed m member]
    have followed := scan_followed valid buf
    refine ⟨?_, ?_, framing_drained followed.valid drained ?_⟩
    · rw [followed.status, seen, lastStatus_eq]
    · rw [followed.idle, seen, lastIdle_iff]
    · rw [followed.position, start, frames, advance_append,
        atBoundary_flatten (frames_of_accepted accepted)]
  · simp [split] at took

theorem scan_agrees_nextStarted :
    (new.scan (wire [commandComplete "SELECT 1", readyForQuery 'T'] ++ ['C'.toUInt8, 0, 0])).1.transactionStatus =
        'T'.toUInt8 ∧
      (new.scan (wire [commandComplete "SELECT 1", readyForQuery 'T'] ++ ['C'.toUInt8, 0, 0])).1.headerLen = 3 := by
  have split : messageReader.takeAll
      (wire [commandComplete "SELECT 1", readyForQuery 'T'] ++ ['C'.toUInt8, 0, 0]) =
      ([commandComplete "SELECT 1", readyForQuery 'T'].map fun msg => (msg, msg.encode),
        ['C'.toUInt8, 0, 0], .drained) := by decide
  obtain ⟨status, -, short, -⟩ := @scan_agrees new rfl rfl rfl _ _ _ split
  exact ⟨status, (short (by decide)).1⟩

-- The messages of which all bytes are among the first `n` bytes of the stream.
def delivered : List PgMessage → Nat → List PgMessage
  | [], _ => []
  | msg :: rest, n =>
    if msg.encode.length ≤ n then msg :: delivered rest (n - msg.encode.length) else []

def statusAfter (msgs : List PgMessage) (n : Nat) : UInt8 :=
  ((delivered msgs n).filterMap PgMessage.readyStatus).getLast?.getD 'I'.toUInt8

def completedIn (msgs : List PgMessage) (before after : Nat) : List UInt8 :=
  ((delivered msgs after).drop (delivered msgs before).length).filterMap PgMessage.readyStatus

-- The scanner after some calls, the points of the stream between which the last call was, and what
-- that call returned.
structure Calls where
  scanner : MessageBoundaryScanner := new
  before : Nat := 0
  count : Nat := 0
  returned : Bool := false
deriving DecidableEq

/-- The call of `scan` on the next bytes of the stream. A cutting is the list of the sizes. -/
def scanNext (msgs : List PgMessage) (c : Calls) (size : Nat) : Option Calls :=
  let (scanner, sawIdle) := c.scanner.scan (((wire msgs).drop c.count).take size)
  some { scanner := scanner, before := c.count, count := c.count + size, returned := sawIdle }

def Tracks (msgs : List PgMessage) (c : Calls) : Prop :=
  c.scanner.transactionStatus = statusAfter msgs c.count ∧
    (c.returned = true ↔ (completedIn msgs c.before c.count).getLast? = some 'I'.toUInt8)

/-- If the call begins with the status of a ReadyForQuery, and no other one completes in it, the
status is known already and is not the idle one. -/
def StatusKnown (msgs : List PgMessage) (c : Calls) (size : Nat) : Prop :=
  ∀ front status back, msgs = front ++ ⟨'Z'.toUInt8, [status]⟩ :: back →
    c.count = (wire front).length + 5 → completedIn msgs c.count (c.count + size) = [status] →
    status ≠ 'I'.toUInt8 ∧ status = statusAfter msgs c.count

theorem follow_message {raw : Bytes} (message : IsMessage raw) :
    ({} : Watch UInt8).follow pgFormat isReadyHeader raw = {} ∧
      ({} : Watch UInt8).seen pgFormat isReadyHeader raw = (parseRaw raw).readyStatus.toList := by
  have long := message.long
  have size : (raw.take 5).length = pgFormat.headerSize := by simp [pgFormat]; omega
  have fits : (raw.drop 5).length = pgFormat.bodySize (raw.take 5) := by
    have lower := message.lower
    have whole := message.size
    simp only [pgFormat, lengthField_take long, List.length_drop]
    omega
  have both := Watch.frame positive_of_isReadyHeader size fits
  rwa [List.take_append_drop, statuses_of_message message] at both

theorem follow_part {raw : Bytes} (message : IsMessage raw) {n : Nat} (proper : n < raw.length) :
    ({} : Watch UInt8).seen pgFormat isReadyHeader (raw.take n) = [] ∧
      ((({} : Watch UInt8).follow pgFormat isReadyHeader (raw.take n)).armed = true ↔
        n = 5 ∧ isReadyHeader (raw.take 5) = true) := by
  have long := message.long
  have whole := message.size
  by_cases short : n < 5
  · obtain ⟨after, nothing⟩ := @Watch.header_short _ pgFormat isReadyHeader [] (raw.take n)
      (by simp [pgFormat]; omega)
    refine ⟨nothing, ?_⟩
    rw [show ({} : Watch UInt8) = ⟨.header [], false⟩ from rfl, after]
    simp
    omega
  · have size : (raw.take 5).length = pgFormat.headerSize := by simp [pgFormat]; omega
    have within : ((raw.drop 5).take (n - 5)).length ≤ pgFormat.bodySize (raw.take 5) := by
      simp only [pgFormat, lengthField_take long, List.length_take, List.length_drop]
      omega
    obtain ⟨after, saw⟩ := @Watch.started _ pgFormat isReadyHeader _ size _ within
    have glued : raw.take 5 ++ (raw.drop 5).take (n - 5) = raw.take n := by
      rw [← List.take_add, Nat.add_sub_cancel' (by omega)]
    rw [glued] at after saw
    have inside (ready : isReadyHeader (raw.take 5) = true) : n = 5 := by
      simp only [isReadyHeader, lengthField_take long, Bool.and_eq_true, decide_eq_true_eq] at ready
      omega
    constructor
    · rw [saw]
      split
      · rename_i ready
        simp [inside ready]
      · rfl
    · rw [after]
      simp only [Bool.and_eq_true, List.isEmpty_iff]
      constructor
      · exact fun both => ⟨inside both.1, both.1⟩
      · rintro ⟨rfl, ready⟩
        exact ⟨ready, by simp⟩

theorem seen_stream {msgs : List PgMessage} (valid : ∀ msg ∈ msgs, msg.WellFormed) (n : Nat) :
    ({} : Watch UInt8).seen pgFormat isReadyHeader ((wire msgs).take n) =
      (delivered msgs n).filterMap PgMessage.readyStatus := by
  induction msgs generalizing n with
  | nil => simp [wire, delivered]
  | cons msg rest ih =>
    have here := PgMessage.isMessage_encode (valid msg (by simp))
    rw [show wire (msg :: rest) = msg.encode ++ wire rest from rfl, List.take_append, delivered]
    split
    · rename_i whole
      obtain ⟨after, saw⟩ := follow_message here
      rw [List.take_of_length_le whole, Watch.seen_append, after, saw,
        ih (fun other member => valid other (by simp [member])),
        PgMessage.parseRaw_encode (valid msg (by simp))]
      cases status : msg.readyStatus <;> simp [status]
    · rename_i cut
      rw [show n - msg.encode.length = 0 by omega, List.take_zero, List.append_nil]
      exact (follow_part here (by omega)).1

theorem follow_wire {msgs : List PgMessage} (valid : ∀ msg ∈ msgs, msg.WellFormed) :
    ({} : Watch UInt8).follow pgFormat isReadyHeader (wire msgs) = {} := by
  induction msgs with
  | nil => rfl
  | cons msg rest ih =>
    rw [show wire (msg :: rest) = msg.encode ++ wire rest from rfl, Watch.follow_append,
      (follow_message (PgMessage.isMessage_encode (valid msg (by simp)))).1]
    exact ih fun other member => valid other (by simp [member])

theorem armed_of_cut {front back : List PgMessage} {status : UInt8}
    (valid : ∀ msg ∈ front, msg.WellFormed) :
    (({} : Watch UInt8).follow pgFormat isReadyHeader
      ((wire (front ++ ⟨'Z'.toUInt8, [status]⟩ :: back)).take ((wire front).length + 5))).armed = true := by
  have ready : (⟨'Z'.toUInt8, [status]⟩ : PgMessage).WellFormed := ⟨show 'Z'.toUInt8 ≠ 0 by decide, by simp⟩
  have six : (⟨'Z'.toUInt8, [status]⟩ : PgMessage).encode.length = 6 := rfl
  have cut : (wire (front ++ ⟨'Z'.toUInt8, [status]⟩ :: back)).take ((wire front).length + 5) =
      wire front ++ (⟨'Z'.toUInt8, [status]⟩ : PgMessage).encode.take 5 := by
    rw [wire_append, List.take_length_add_append]
    rfl
  rw [cut, Watch.follow_append, follow_wire valid,
    (follow_part (PgMessage.isMessage_encode ready) (by omega)).2]
  exact ⟨rfl, show isReadyHeader ('Z'.toUInt8 :: putI32 5) = true by decide⟩

theorem drop_cut (front back : List PgMessage) (status : UInt8) :
    (wire (front ++ ⟨'Z'.toUInt8, [status]⟩ :: back)).drop ((wire front).length + 5) =
      status :: wire back := by
  rw [wire_append, List.drop_length_add_append]
  rfl

theorem cut_of_armed {msgs : List PgMessage} (valid : ∀ msg ∈ msgs, msg.WellFormed) {n : Nat}
    (armed : (({} : Watch UInt8).follow pgFormat isReadyHeader ((wire msgs).take n)).armed = true) :
    ∃ front status back, msgs = front ++ ⟨'Z'.toUInt8, [status]⟩ :: back ∧
      n = (wire front).length + 5 := by
  induction msgs generalizing n with
  | nil => simp [wire] at armed
  | cons msg rest ih =>
    have wellFormed := valid msg (by simp)
    have here := PgMessage.isMessage_encode wellFormed
    rw [show wire (msg :: rest) = msg.encode ++ wire rest from rfl, List.take_append] at armed
    by_cases whole : msg.encode.length ≤ n
    · rw [List.take_of_length_le whole, Watch.follow_append, (follow_message here).1] at armed
      obtain ⟨front, status, back, rfl, found⟩ :=
        ih (fun other member => valid other (by simp [member])) armed
      refine ⟨msg :: front, status, back, rfl, ?_⟩
      rw [show wire (msg :: front) = msg.encode ++ wire front from rfl, List.length_append]
      omega
    · rw [show n - msg.encode.length = 0 by omega, List.take_zero, List.append_nil,
        (follow_part here (by omega)).2] at armed
      obtain ⟨rfl, ready⟩ := armed
      have statuses := statuses_of_message here
      rw [if_pos ready, PgMessage.parseRaw_encode wellFormed] at statuses
      cases status : msg.readyStatus with
      | none =>
        simp only [status, Option.toList_none, List.take_eq_nil_iff, List.drop_eq_nil_iff] at statuses
        omega
      | some status =>
        obtain rfl := PgMessage.readyStatus_eq_some.mp status
        exact ⟨[], _, rest, rfl, rfl⟩

theorem delivered_mono (msgs : List PgMessage) (n more : Nat) :
    delivered msgs n <+: delivered msgs (n + more) := by
  induction msgs generalizing n with
  | nil => exact List.prefix_refl _
  | cons msg rest ih =>
    simp only [delivered]
    by_cases whole : msg.encode.length ≤ n
    · rw [if_pos whole, if_pos (by omega), Nat.sub_add_comm whole]
      exact List.cons_prefix_cons.mpr ⟨rfl, ih _⟩
    · rw [if_neg whole]
      exact List.nil_prefix

theorem statuses_append (msgs : List PgMessage) (n more : Nat) :
    (delivered msgs n).filterMap PgMessage.readyStatus ++ completedIn msgs n (n + more) =
      (delivered msgs (n + more)).filterMap PgMessage.readyStatus := by
  obtain ⟨later, same⟩ := delivered_mono msgs n more
  rw [completedIn, ← same, List.drop_left, List.filterMap_append]

structure InStep (msgs : List PgMessage) (c : Calls) : Prop where
  valid : c.scanner.Valid
  position : c.scanner.position = advance pgFormat boundary ((wire msgs).take c.count)

theorem scanNext_inStep {msgs : List PgMessage} (c : Calls) (size : Nat) (d : Calls)
    (inStep : InStep msgs c) (called : scanNext msgs c size = some d) : InStep msgs d := by
  obtain rfl := Option.some.inj called
  have followed := scan_followed inStep.valid (((wire msgs).drop c.count).take size)
  refine ⟨followed.valid, followed.position.trans ?_⟩
  rw [inStep.position, ← advance_append, ← List.take_add]

-- What a call sees is what completes in it, less a status with which it begins.
theorem completedIn_eq {msgs : List PgMessage} (valid : ∀ msg ∈ msgs, msg.WellFormed) {c : Calls}
    (inStep : InStep msgs c) (size : Nat) :
    completedIn msgs c.count (c.count + size) =
      (if (({} : Watch UInt8).follow pgFormat isReadyHeader ((wire msgs).take c.count)).armed
        then (((wire msgs).drop c.count).take size).take 1 else []) ++
      c.scanner.statusesIn (((wire msgs).drop c.count).take size) := by
  have all := seen_stream valid (c.count + size)
  rw [List.take_add, Watch.seen_append, seen_stream valid, ← statuses_append,
    List.append_cancel_left_eq] at all
  rw [← all, statusesIn, inStep.position, ← Watch.follow_position (f := pgFormat) ({} : Watch UInt8)]
  cases ((wire msgs).drop c.count).take size with
  | nil => simp
  | cons b rest =>
    rw [Watch.seen_cons]
    rfl

theorem statusAfter_add (msgs : List PgMessage) (n more : Nat) :
    statusAfter msgs (n + more) = lastStatus (statusAfter msgs n) (completedIn msgs n (n + more)) := by
  simp only [statusAfter, ← lastStatus_eq, ← statuses_append msgs n more]
  simp only [lastStatus, List.foldl_append]

theorem tracks_next {msgs : List PgMessage} {c d : Calls} {size : Nat} (inStep : InStep msgs c)
    (tracks : Tracks msgs c) (called : scanNext msgs c size = some d) :
    Tracks msgs d ↔
      lastStatus (statusAfter msgs c.count)
          (c.scanner.statusesIn (((wire msgs).drop c.count).take size)) =
        lastStatus (statusAfter msgs c.count) (completedIn msgs c.count (c.count + size)) ∧
      ((c.scanner.statusesIn (((wire msgs).drop c.count).take size)).getLast? = some 'I'.toUInt8 ↔
        (completedIn msgs c.count (c.count + size)).getLast? = some 'I'.toUInt8) := by
  have followed := scan_followed inStep.valid (((wire msgs).drop c.count).take size)
  have is : d = ⟨(c.scanner.scan (((wire msgs).drop c.count).take size)).1, c.count, c.count + size,
      (c.scanner.scan (((wire msgs).drop c.count).take size)).2⟩ := (Option.some.inj called).symm
  rw [is, Tracks, followed.status, followed.idle, lastIdle_iff, tracks.1, statusAfter_add]

theorem scanNext_tracks {msgs : List PgMessage} (valid : ∀ msg ∈ msgs, msg.WellFormed) (c : Calls)
    (size : Nat) (d : Calls) (inStep : InStep msgs c) (_ : InStep msgs d) (tracks : Tracks msgs c)
    (called : scanNext msgs c size = some d) : Tracks msgs d ↔ StatusKnown msgs c size := by
  rw [tracks_next inStep tracks called]
  have completed := completedIn_eq valid inStep size
  by_cases armed : (({} : Watch UInt8).follow pgFormat isReadyHeader
      ((wire msgs).take c.count)).armed = true
  · obtain ⟨front, status, back, rfl, found⟩ := cut_of_armed valid armed
    rw [if_pos armed, found, drop_cut, ← found] at completed
    rw [found, drop_cut, ← found]
    cases size with
    | zero =>
      have nothing : c.scanner.statusesIn [] = [] := rfl
      rw [List.take_zero, List.take_nil, nothing, List.append_nil] at completed
      rw [List.take_zero, nothing, completed]
      refine iff_of_true ⟨rfl, Iff.rfl⟩ fun _ _ _ _ _ one => ?_
      rw [completed] at one
      simp at one
    | succ size =>
      rw [List.take_succ_cons, List.take_succ_cons, List.take_zero] at completed
      rw [List.take_succ_cons]
      generalize c.scanner.statusesIn (status :: (wire back).take size) = seen at completed ⊢
      rw [completed]
      cases seen with
      | nil =>
        have alone : completedIn (front ++ ⟨'Z'.toUInt8, [status]⟩ :: back) c.count (c.count + (size + 1)) =
            [status] := completed
        simp only [lastStatus, List.foldl_nil, List.foldl_cons, List.append_nil, List.getLast?_nil,
          List.getLast?_singleton, reduceCtorEq, false_iff, Option.some.injEq]
        constructor
        · rintro ⟨known, busy⟩ _ other _ - - one
          obtain rfl : status = other := by simpa using alone.symm.trans one
          exact ⟨busy, known.symm⟩
        · intro known
          obtain ⟨busy, same⟩ := known front status back rfl found alone
          exact ⟨same.symm, busy⟩
      | cons next seen =>
        refine iff_of_true ⟨rfl, ?_⟩ fun _ _ _ _ _ one => ?_
        · rw [List.singleton_append, List.getLast?_cons_cons]
        · simp [completed] at one
  · rw [if_neg armed, List.nil_append] at completed
    refine iff_of_true ⟨by rw [completed], by rw [completed]⟩ ?_
    rintro front status back rfl found -
    have cut := @armed_of_cut front back status fun msg member => valid msg (by simp [member])
    rw [← found] at cut
    exact absurd cut armed

theorem tracks_iff {msgs : List PgMessage} (valid : ∀ msg ∈ msgs, msg.WellFormed) (sizes : List Nat) :
    Transition.Always (scanNext msgs) (Tracks msgs) {} sizes ↔
      Transition.Along (scanNext msgs) (StatusKnown msgs) {} sizes := by
  refine Transition.always_iff_along (scanNext_tracks valid) ?_
    (Transition.always scanNext_inStep sizes ⟨new_valid, ?_⟩) ?_
  · intro c size disabled
    simp [scanNext] at disabled
  · rw [position_skipping rfl]
    rfl
  · have none : delivered msgs 0 = [] := by
      cases msgs with
      | nil => rfl
      | cons msg rest =>
        have long := (PgMessage.isMessage_encode (valid msg (by simp))).long
        rw [delivered, if_neg (by omega)]
    exact ⟨by simp [statusAfter, none, new], by simp [completedIn]⟩

theorem tracks_iff_cutInHeader :
    Transition.Always (scanNext [commandComplete "SELECT 1", readyForQuery 'T'])
        (Tracks [commandComplete "SELECT 1", readyForQuery 'T']) {} [17, 4] ↔
      Transition.Along (scanNext [commandComplete "SELECT 1", readyForQuery 'T'])
        (StatusKnown [commandComplete "SELECT 1", readyForQuery 'T']) {} [17, 4] :=
  tracks_iff (by decide) [17, 4]

-- The transaction that the message reports is missed: its status is the first byte of a call.
theorem not_tracks_cutBeforeStatus :
    (∀ msg ∈ [readyForQuery 'T'], msg.WellFormed) ∧
      ¬ Transition.Always (scanNext [readyForQuery 'T']) (Tracks [readyForQuery 'T']) {} [5, 1] := by
  refine ⟨by decide, fun always => ?_⟩
  obtain ⟨c, ran, status, count⟩ : ∃ c, Transition.run (scanNext [readyForQuery 'T']) {} [5, 1] = some c ∧
      c.scanner.transactionStatus = 'I'.toUInt8 ∧ c.count = 6 := Transition.exists_run (by decide)
  have tracked := (always.last ran).1
  rw [status, count] at tracked
  exact absurd tracked (by decide)

end MessageBoundaryScanner

end PgMux
