import PgMux.Messages
import PgMux.Shared.Watching

set_option autoImplicit false

namespace PgMux

structure MessageBoundaryScanner where
  remainingSkip : Nat
  headerBuf : Bytes
  headerLen : Nat
  transactionStatus : UInt8
deriving DecidableEq, Repr

namespace MessageBoundaryScanner

def new : MessageBoundaryScanner :=
  { remainingSkip := 0, headerBuf := [0, 0, 0, 0, 0], headerLen := 0, transactionStatus := 'I'.toUInt8 }

-- `copy_from_slice` into the header buffer at the given offset.
def copyInto (buf : Bytes) (offset : Nat) (bytes : Bytes) : Bytes :=
  buf.take offset ++ bytes ++ buf.drop (offset + bytes.length)

-- The second phase: take header bytes from the front of `rest`.
def fillHeader (scanner : MessageBoundaryScanner) (rest : Bytes) : MessageBoundaryScanner × Bytes :=
  if scanner.headerLen < 5 then
    let need := 5 - scanner.headerLen
    let avail := min need rest.length
    ({ scanner with
        headerBuf := copyInto scanner.headerBuf scanner.headerLen (rest.take avail)
        headerLen := scanner.headerLen + avail },
      rest.drop avail)
  else (scanner, rest)

-- The third phase: the header is complete, `rest` follows it.
def finishHeader (scanner : MessageBoundaryScanner) (sawIdle : Bool) (rest : Bytes) :
    MessageBoundaryScanner × Bool × Bytes :=
  let msgType := scanner.headerBuf.headD 0
  let len := asUsize (getI32 (scanner.headerBuf.drop 1))
  let payloadLen := len - 4
  if msgType = 'Z'.toUInt8 ∧ payloadLen = 1 then
    match rest with
    | status :: rest =>
      ({ scanner with transactionStatus := status, remainingSkip := 0, headerLen := 0 },
        status == 'I'.toUInt8, rest)
    | [] => ({ scanner with remainingSkip := 1, headerLen := 0 }, sawIdle, [])
  else ({ scanner with remainingSkip := payloadLen, headerLen := 0 }, sawIdle, rest)

-- `rest` is the part of the data from `pos` on. Each pass takes at least one byte, so the length of
-- the data is enough fuel.
def scanLoop : Nat → MessageBoundaryScanner → Bool → Bytes → MessageBoundaryScanner × Bool
  | 0, scanner, sawIdle, _ => (scanner, sawIdle)
  | fuel + 1, scanner, sawIdle, rest =>
    if rest.length = 0 then (scanner, sawIdle)
    else if 0 < scanner.remainingSkip then
      let skip := min scanner.remainingSkip rest.length
      scanLoop fuel { scanner with remainingSkip := scanner.remainingSkip - skip } sawIdle
        (rest.drop skip)
    else
      let (filled, rest) := scanner.fillHeader rest
      if filled.headerLen < 5 then (filled, sawIdle)
      else
        let (scanner, sawIdle, rest) := filled.finishHeader sawIdle rest
        scanLoop fuel scanner sawIdle rest

def scan (scanner : MessageBoundaryScanner) (data : Bytes) : MessageBoundaryScanner × Bool :=
  scanLoop data.length scanner false data

open Framing

structure Valid (scanner : MessageBoundaryScanner) : Prop where
  buffer : scanner.headerBuf.length = 5
  short : scanner.headerLen < 5
  exclusive : 0 < scanner.remainingSkip → scanner.headerLen = 0

def position (scanner : MessageBoundaryScanner) : Position UInt8 :=
  if 0 < scanner.remainingSkip then .body scanner.remainingSkip
  else .header (scanner.headerBuf.take scanner.headerLen)

-- The header of a ReadyForQuery: its type and a payload of one byte, the status.
def isReadyHeader (header : Bytes) : Bool :=
  header.headD 0 = 'Z'.toUInt8 && lengthField header - 4 = 1

/-- What a call that gets the data would see of the statuses; a status that comes first in a call is
not seen. -/
def statusesIn (scanner : MessageBoundaryScanner) (data : Bytes) : List UInt8 :=
  (⟨scanner.position, false⟩ : Watch UInt8).seen pgFormat isReadyHeader data

def lastStatus (status : UInt8) (seen : List UInt8) : UInt8 := seen.foldl (fun _ next => next) status

def lastIdle (sawIdle : Bool) (seen : List UInt8) : Bool :=
  seen.foldl (fun _ next => next == 'I'.toUInt8) sawIdle

theorem new_valid : new.Valid := by
  constructor <;> decide

theorem position_skipping {scanner : MessageBoundaryScanner} (empty : scanner.headerLen = 0) :
    scanner.position = enter scanner.remainingSkip := by
  cases skip : scanner.remainingSkip <;> simp [position, skip, enter, empty, boundary]

theorem position_eq_boundary {scanner : MessageBoundaryScanner} (valid : scanner.Valid) :
    scanner.position = boundary ↔ scanner.remainingSkip = 0 ∧ scanner.headerLen = 0 := by
  have buffer := valid.buffer
  simp only [position, boundary]
  split
  · simp; omega
  · rename_i skip
    rw [Position.header.injEq, List.take_eq_nil_iff]
    constructor
    · rintro (empty | empty)
      · exact ⟨by omega, empty⟩
      · simp [empty] at buffer
    · exact fun both => Or.inl both.2

theorem copyInto_take {buf bytes : Bytes} {offset : Nat} (room : offset + bytes.length ≤ buf.length) :
    (copyInto buf offset bytes).take (offset + bytes.length) = buf.take offset ++ bytes := by
  have cut : (buf.take offset ++ bytes).length = offset + bytes.length := by simp; omega
  rw [copyInto, ← cut, List.take_left']
  rfl

theorem copyInto_length {buf bytes : Bytes} {offset : Nat}
    (room : offset + bytes.length ≤ buf.length) :
    (copyInto buf offset bytes).length = buf.length := by
  simp only [copyInto, List.length_append, List.length_take, List.length_drop]
  omega

theorem fillHeader_cases {scanner : MessageBoundaryScanner} (valid : scanner.Valid)
    (idle : scanner.remainingSkip = 0) {rest : Bytes} (nonempty : rest ≠ []) :
    (∃ filled, scanner.fillHeader rest = (filled, []) ∧ filled.Valid ∧
        filled.position = advance pgFormat scanner.position rest ∧
        scanner.statusesIn rest = [] ∧ filled.transactionStatus = scanner.transactionStatus) ∨
      ∃ filled taken after, scanner.fillHeader rest = (filled, after) ∧ rest = taken ++ after ∧
        taken ≠ [] ∧ filled.headerLen = 5 ∧ filled.headerBuf.length = 5 ∧
        (⟨scanner.position, false⟩ : Watch UInt8).follow pgFormat isReadyHeader taken =
          ⟨enter (pgFormat.bodySize filled.headerBuf), isReadyHeader filled.headerBuf⟩ ∧
        scanner.statusesIn taken = [] ∧ filled.transactionStatus = scanner.transactionStatus := by
  obtain ⟨buffer, short, -⟩ := valid
  have positive := List.length_pos_iff.mpr nonempty
  have here : scanner.position = .header (scanner.headerBuf.take scanner.headerLen) := by
    simp [position, idle]
  have seen : (scanner.headerBuf.take scanner.headerLen).length = scanner.headerLen := by
    simp; omega
  rw [fillHeader, if_pos short]
  by_cases enough : 5 - scanner.headerLen ≤ rest.length
  · right
    have room : scanner.headerLen + (rest.take (5 - scanner.headerLen)).length ≤
        scanner.headerBuf.length := by simp; omega
    have taken : (rest.take (5 - scanner.headerLen)).length = 5 - scanner.headerLen := by
      simp; omega
    have whole := copyInto_take room
    rw [taken, Nat.add_sub_cancel' (by omega)] at whole
    have full : (copyInto scanner.headerBuf scanner.headerLen
        (rest.take (5 - scanner.headerLen))).length = 5 := by rw [copyInto_length room, buffer]
    rw [List.take_of_length_le (by omega)] at whole
    have some : rest.take (5 - scanner.headerLen) ≠ [] := List.length_pos_iff.mp (by omega)
    obtain ⟨after, nothing⟩ := @Watch.header_full _ pgFormat isReadyHeader
      (scanner.headerBuf.take scanner.headerLen) (rest.take (5 - scanner.headerLen)) some
      (by simp only [seen, taken, pgFormat]; omega)
    refine ⟨_, rest.take (5 - scanner.headerLen), _, rfl, ?_, some, ?_, ?_, ?_, ?_, rfl⟩
    · simp [Nat.min_eq_left enough]
    · simp [Nat.min_eq_left enough]; omega
    · simpa [Nat.min_eq_left enough] using full
    · rw [here, after]
      simp only [Nat.min_eq_left enough, whole]
    · rw [statusesIn, here, nothing]
  · left
    have all : min (5 - scanner.headerLen) rest.length = rest.length := by omega
    have room : scanner.headerLen + rest.length ≤ scanner.headerBuf.length := by omega
    have below : (scanner.headerBuf.take scanner.headerLen).length + rest.length < pgFormat.headerSize := by
      simp only [seen, pgFormat]; omega
    refine ⟨_, by simp [all]; rfl, ⟨?_, ?_, ?_⟩, ?_, ?_, ?_⟩
    · simpa using (copyInto_length room).trans buffer
    · simp only; omega
    · simp [idle]
    · rw [here, advance_header _ _ _ below]
      simp [position, idle, copyInto_take room]
    · rw [statusesIn, here]
      exact (Watch.header_short _ _ below).2
    · rfl

theorem finishHeader_cases (scanner : MessageBoundaryScanner) (buffer : scanner.headerBuf.length = 5)
    (sawIdle : Bool) (rest : Bytes) :
    ∃ after idle taken left fresh, scanner.finishHeader sawIdle rest = (after, idle, left) ∧
      rest = taken ++ left ∧ after.Valid ∧
      after.position = advance pgFormat (enter (pgFormat.bodySize scanner.headerBuf)) taken ∧
      (⟨enter (pgFormat.bodySize scanner.headerBuf), isReadyHeader scanner.headerBuf⟩ :
        Watch UInt8).seen pgFormat isReadyHeader rest = fresh ++ after.statusesIn left ∧
      after.transactionStatus = lastStatus scanner.transactionStatus fresh ∧
      idle = lastIdle sawIdle fresh := by
  have size : pgFormat.bodySize scanner.headerBuf = asUsize (getI32 (scanner.headerBuf.drop 1)) - 4 :=
    rfl
  simp only [finishHeader]
  split
  · rename_i ready
    have armed : isReadyHeader scanner.headerBuf = true := by
      simpa [isReadyHeader, lengthField] using ready
    cases rest with
    | nil =>
      refine ⟨_, _, [], _, [], rfl, rfl, ⟨buffer, ?_, ?_⟩, ?_, rfl, rfl, rfl⟩
      · simp
      · simp
      · rw [position_skipping rfl, size, ready.2]
        rfl
    | cons status rest =>
      refine ⟨_, _, [status], _, [status], rfl, rfl, ⟨buffer, ?_, ?_⟩, ?_, ?_, rfl, rfl⟩
      · simp
      · simp
      · rw [position_skipping rfl, size, ready.2]
        rfl
      · rw [statusesIn, position_skipping rfl, size, ready.2, armed]
        rfl
  · rename_i plain
    have unarmed : isReadyHeader scanner.headerBuf = false := by
      simpa [isReadyHeader, lengthField] using plain
    refine ⟨_, _, [], _, [], rfl, rfl, ⟨buffer, ?_, ?_⟩, ?_, ?_, rfl, rfl⟩
    · simp
    · simp
    · rw [position_skipping rfl, size]
      rfl
    · rw [statusesIn, position_skipping rfl, size, unarmed]
      rfl

structure Followed (scanner : MessageBoundaryScanner) (sawIdle : Bool) (data : Bytes)
    (result : MessageBoundaryScanner × Bool) : Prop where
  valid : result.1.Valid
  position : result.1.position = advance pgFormat scanner.position data
  status : result.1.transactionStatus = lastStatus scanner.transactionStatus (scanner.statusesIn data)
  idle : result.2 = lastIdle sawIdle (scanner.statusesIn data)

theorem scanLoop_followed (fuel : Nat) {scanner : MessageBoundaryScanner} (valid : scanner.Valid)
    (sawIdle : Bool) {rest : Bytes} (enough : rest.length ≤ fuel) :
    Followed scanner sawIdle rest (scanLoop fuel scanner sawIdle rest) := by
  induction fuel generalizing scanner sawIdle rest with
  | zero =>
    obtain rfl := List.length_eq_zero_iff.mp (Nat.le_zero.mp enough)
    exact ⟨valid, rfl, rfl, rfl⟩
  | succ fuel ih =>
    by_cases empty : rest = []
    · subst empty
      exact ⟨valid, rfl, rfl, rfl⟩
    have positive := List.length_pos_iff.mpr empty
    rw [scanLoop, if_neg (by omega)]
    by_cases skipping : 0 < scanner.remainingSkip
    · have header := valid.exclusive skipping
      rw [if_pos skipping]
      let skip := min scanner.remainingSkip rest.length
      let after := { scanner with remainingSkip := scanner.remainingSkip - skip }
      have afterValid : after.Valid := ⟨valid.buffer, valid.short, fun _ => header⟩
      have next := ih afterValid sawIdle (show (rest.drop skip).length ≤ fuel by simp [skip]; omega)
      have cut : (rest.take skip).length = skip := by simp [skip]
      have here := position_skipping header
      have there := @position_skipping after header
      obtain ⟨passed, nothing⟩ := @Watch.body _ pgFormat isReadyHeader scanner.remainingSkip
        (rest.take skip) (by omega)
      rw [cut] at passed
      have split : rest = rest.take skip ++ rest.drop skip := (List.take_append_drop skip rest).symm
      have same : scanner.statusesIn rest = after.statusesIn (rest.drop skip) := by
        rw [split, statusesIn, Watch.seen_append, here, nothing, passed, List.nil_append,
          ← split, statusesIn, there]
      refine ⟨next.valid, next.position.trans ?_, ?_, ?_⟩
      · conv_rhs => rw [split]
        rw [advance_append, here, there, advance_enter _ _ (rest.take skip) (by omega), cut]
      · rw [same]
        exact next.status
      · rw [same]
        exact next.idle
    · have idle : scanner.remainingSkip = 0 := by omega
      rw [if_neg skipping]
      obtain ⟨filled, filling, filledValid, reached, nothing, kept⟩ |
        ⟨filled, taken, after, filling, rfl, nonempty, full, buffer, reached, nothing, kept⟩ :=
        fillHeader_cases valid idle empty
      · simp only [filling, filledValid.short, if_true]
        exact ⟨filledValid, reached, by rw [nothing]; exact kept, by rw [nothing]; rfl⟩
      · obtain ⟨done, idle, eaten, left, fresh, finishing, rfl, doneValid, stands, saw, status, last⟩ :=
          finishHeader_cases filled buffer sawIdle after
        have shorter := List.length_pos_iff.mpr nonempty
        simp only [List.length_append] at enough
        simp only [filling, full, Nat.lt_irrefl, if_false, finishing]
        have next := ih doneValid idle (show left.length ≤ fuel by omega)
        have all : scanner.statusesIn (taken ++ (eaten ++ left)) = fresh ++ done.statusesIn left := by
          rw [statusesIn, Watch.seen_append, reached, saw]
          exact congrArg (· ++ _) nothing
        have advanced := congrArg Watch.position reached
        rw [Watch.follow_position] at advanced
        refine ⟨next.valid, next.position.trans ?_, ?_, ?_⟩
        · rw [stands, advance_append, advanced, advance_append]
        · rw [all, next.status, status, kept, lastStatus, lastStatus, lastStatus, List.foldl_append]
        · rw [all, next.idle, last, lastIdle, lastIdle, lastIdle, List.foldl_append]

theorem scan_followed {scanner : MessageBoundaryScanner} (valid : scanner.Valid) (data : Bytes) :
    Followed scanner false data (scanner.scan data) :=
  scanLoop_followed data.length valid false (Nat.le_refl _)

theorem scan_valid {scanner : MessageBoundaryScanner} (valid : scanner.Valid) (data : Bytes) :
    (scanner.scan data).1.Valid :=
  (scan_followed valid data).valid

theorem scan_position {scanner : MessageBoundaryScanner} (valid : scanner.Valid) (data : Bytes) :
    (scanner.scan data).1.position = advance pgFormat scanner.position data :=
  (scan_followed valid data).position

end MessageBoundaryScanner

end PgMux
