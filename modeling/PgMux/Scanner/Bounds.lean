import PgMux.Scanner

set_option autoImplicit false

namespace PgMux

inductive Fault where
  | subtraction
  | slice
  | copy
  -- A pass of the loop that takes no byte.
  | stuck
deriving DecidableEq, Repr

def checkedSub (a b : Nat) : Except Fault Nat := if b ≤ a then .ok (a - b) else .error .subtraction

-- `&bytes[first..last]`
def slice (bytes : Bytes) (first last : Nat) : Except Fault Bytes :=
  if first ≤ last ∧ last ≤ bytes.length then .ok ((bytes.take last).drop first) else .error .slice

-- `bytes[i]`
def index (bytes : Bytes) (i : Nat) : Except Fault UInt8 :=
  match bytes[i]? with
  | some byte => .ok byte
  | none => .error .slice

-- `buf[first..last].copy_from_slice(source)`
def copyFromSlice (buf : Bytes) (first last : Nat) (source : Bytes) : Except Fault Bytes :=
  if first ≤ last ∧ last ≤ buf.length then
    if source.length = last - first then .ok (buf.take first ++ source ++ buf.drop last)
    else .error .copy
  else .error .slice

namespace MessageBoundaryScanner

open Framing

structure ScanState where
  scanner : MessageBoundaryScanner
  pos : Nat := 0
  sawIdle : Bool := false
deriving DecidableEq

def checkedSkip (data : Bytes) (s : ScanState) : Except Fault ScanState := do
  let left ← checkedSub data.length s.pos
  let skip := min s.scanner.remainingSkip left
  let remaining ← checkedSub s.scanner.remainingSkip skip
  return { s with scanner := { s.scanner with remainingSkip := remaining }, pos := s.pos + skip }

def checkedFill (data : Bytes) (s : ScanState) : Except Fault ScanState := do
  if s.scanner.headerLen < 5 then
    let need ← checkedSub 5 s.scanner.headerLen
    let left ← checkedSub data.length s.pos
    let avail := min need left
    let source ← slice data s.pos (s.pos + avail)
    let header ← copyFromSlice s.scanner.headerBuf s.scanner.headerLen (s.scanner.headerLen + avail) source
    return { s with
      scanner := { s.scanner with headerBuf := header, headerLen := s.scanner.headerLen + avail }
      pos := s.pos + avail }
  else return s

def checkedFinish (data : Bytes) (s : ScanState) : Except Fault ScanState := do
  let msgType ← index s.scanner.headerBuf 0
  let a ← index s.scanner.headerBuf 1
  let b ← index s.scanner.headerBuf 2
  let c ← index s.scanner.headerBuf 3
  let d ← index s.scanner.headerBuf 4
  let payloadLen := asUsize (getI32 [a, b, c, d]) - 4
  if msgType = 'Z'.toUInt8 ∧ payloadLen = 1 then
    if s.pos < data.length then
      let status ← index data s.pos
      return {
        scanner := { s.scanner with transactionStatus := status, remainingSkip := 0, headerLen := 0 }
        pos := s.pos + 1
        sawIdle := status == 'I'.toUInt8 }
    else return { s with scanner := { s.scanner with remainingSkip := 1, headerLen := 0 } }
  else return { s with scanner := { s.scanner with remainingSkip := payloadLen, headerLen := 0 } }

-- One pass of the loop, and whether the loop goes on.
def checkedPass (data : Bytes) (s : ScanState) : Except Fault (ScanState × Bool) := do
  if 0 < s.scanner.remainingSkip then return (← checkedSkip data s, true)
  else
    let filled ← checkedFill data s
    if filled.scanner.headerLen < 5 then return (filled, false)
    else return (← checkedFinish data filled, true)

def checkedLoop (data : Bytes) : Nat → ScanState → Except Fault ScanState
  | 0, _ => .error .stuck
  | fuel + 1, s =>
    if s.pos < data.length then do
      let (next, again) ← checkedPass data s
      if next.pos ≤ s.pos then .error .stuck
      else if again then checkedLoop data fuel next
      else return next
    else return s

def checkedScan (scanner : MessageBoundaryScanner) (data : Bytes) : Except Fault ScanState :=
  checkedLoop data (data.length + 1) { scanner := scanner }

theorem checkedSub_ok {a b : Nat} (le : b ≤ a) : checkedSub a b = .ok (a - b) := if_pos le

theorem slice_ok {bytes : Bytes} {first count : Nat} (within : first + count ≤ bytes.length) :
    slice bytes first (first + count) = .ok ((bytes.drop first).take count) := by
  rw [slice, if_pos ⟨by omega, within⟩, List.drop_take, Nat.add_sub_cancel_left]

theorem copyFromSlice_ok {buf source : Bytes} {first count : Nat} (within : first + count ≤ buf.length)
    (same : source.length = count) :
    copyFromSlice buf first (first + count) source = .ok (copyInto buf first source) := by
  rw [copyFromSlice, if_pos ⟨by omega, within⟩, if_pos (by omega), copyInto, same]

theorem checkedSkip_ok {data : Bytes} {s : ScanState} (within : s.pos ≤ data.length) :
    checkedSkip data s = .ok { s with
      scanner := { s.scanner with remainingSkip :=
        s.scanner.remainingSkip - min s.scanner.remainingSkip (data.length - s.pos) }
      pos := s.pos + min s.scanner.remainingSkip (data.length - s.pos) } := by
  rw [checkedSkip, checkedSub_ok within]
  simp only [bind, Except.bind, checkedSub_ok (Nat.min_le_left _ _)]
  rfl

theorem checkedFill_ok {data : Bytes} {s : ScanState} (valid : s.scanner.Valid)
    (within : s.pos ≤ data.length) :
    checkedFill data s = .ok { s with
      scanner := (s.scanner.fillHeader (data.drop s.pos)).1
      pos := s.pos + min (5 - s.scanner.headerLen) (data.length - s.pos) } := by
  have buffer := valid.buffer
  have short := valid.short
  have copied := @copyFromSlice_ok s.scanner.headerBuf
    ((data.drop s.pos).take (min (5 - s.scanner.headerLen) (data.length - s.pos))) s.scanner.headerLen
    (min (5 - s.scanner.headerLen) (data.length - s.pos)) (by omega) (by simp)
  rw [checkedFill, if_pos short, checkedSub_ok (by omega), checkedSub_ok within]
  simp only [bind, Except.bind, slice_ok (show s.pos + min (5 - s.scanner.headerLen)
    (data.length - s.pos) ≤ data.length by omega), copied]
  simp only [fillHeader, if_pos short, List.length_drop]
  rfl

theorem checkedFinish_ok {data : Bytes} {s : ScanState} (buffer : s.scanner.headerBuf.length = 5)
    (within : s.pos ≤ data.length) :
    ∃ next, checkedFinish data s = .ok next ∧
      s.scanner.finishHeader s.sawIdle (data.drop s.pos) =
        (next.scanner, next.sawIdle, data.drop next.pos) ∧
      s.pos ≤ next.pos ∧ next.pos ≤ data.length := by
  obtain ⟨t, a, b, c, d, header⟩ : ∃ t a b c d, s.scanner.headerBuf = [t, a, b, c, d] := by
    match h : s.scanner.headerBuf, buffer with
    | [t, a, b, c, d], _ => exact ⟨t, a, b, c, d, rfl⟩
  simp only [checkedFinish, finishHeader, header, index, List.getElem?_cons_zero,
    List.getElem?_cons_succ, bind, Except.bind, List.headD_cons, List.drop_one, List.tail_cons]
  split
  · by_cases more : s.pos < data.length
    · rw [if_pos more, List.drop_eq_getElem_cons more, List.getElem?_eq_getElem more]
      exact ⟨_, rfl, rfl, by simp, more⟩
    · rw [if_neg more, List.drop_eq_nil_of_le (by omega)]
      refine ⟨_, rfl, ?_, Nat.le_refl _, within⟩
      simp [List.drop_eq_nil_of_le (show data.length ≤ s.pos by omega)]
  · exact ⟨_, rfl, rfl, Nat.le_refl _, within⟩

theorem fillHeader_rest {scanner : MessageBoundaryScanner} (short : scanner.headerLen < 5) (rest : Bytes) :
    (scanner.fillHeader rest).2 = rest.drop (min (5 - scanner.headerLen) rest.length) := by
  rw [fillHeader, if_pos short]

theorem checkedPass_ok {data : Bytes} {s : ScanState} (valid : s.scanner.Valid)
    (more : s.pos < data.length) :
    ∃ next again, checkedPass data s = .ok (next, again) ∧ next.scanner.Valid ∧ s.pos < next.pos ∧
      next.pos ≤ data.length ∧ ∀ passes,
        scanLoop (passes + 1) s.scanner s.sawIdle (data.drop s.pos) =
          if again then scanLoop passes next.scanner next.sawIdle (data.drop next.pos)
          else (next.scanner, next.sawIdle) := by
  have some : data.drop s.pos ≠ [] := by simpa using more
  have length : (data.drop s.pos).length = data.length - s.pos := List.length_drop
  have loop (passes : Nat) := scanLoop.eq_2 s.scanner s.sawIdle (data.drop s.pos) passes
  simp only [length, if_neg (show ¬ data.length - s.pos = 0 by omega)] at loop
  rw [checkedPass]
  by_cases skipping : 0 < s.scanner.remainingSkip
  · have header := valid.exclusive skipping
    simp only [if_pos skipping, checkedSkip_ok (Nat.le_of_lt more), bind, Except.bind]
    refine ⟨_, true, rfl, ⟨valid.buffer, valid.short, fun _ => header⟩, ?_, ?_, fun passes => ?_⟩
    · simp only
      omega
    · simp only
      omega
    · rw [loop, if_pos skipping, if_pos rfl, List.drop_drop]
  · have idle : s.scanner.remainingSkip = 0 := by omega
    have short := valid.short
    simp only [if_neg skipping, checkedFill_ok valid (Nat.le_of_lt more), bind, Except.bind]
    have rest := fillHeader_rest short (data.drop s.pos)
    rw [length, List.drop_drop] at rest
    obtain ⟨filled, filling, filledValid, -⟩ | ⟨filled, taken, after, filling, -, -, full, buffer, -⟩ :=
      fillHeader_cases valid idle some
    · rw [filling] at rest ⊢
      simp only [if_pos filledValid.short]
      refine ⟨_, false, rfl, filledValid, ?_, ?_, fun passes => ?_⟩
      · simp only
        omega
      · simp only
        omega
      · rw [loop, if_neg skipping, filling]
        simp [filledValid.short]
    · rw [filling] at rest ⊢
      simp only at rest
      obtain ⟨next, finished, same, later, inside⟩ := @checkedFinish_ok data
        ⟨filled, s.pos + min (5 - s.scanner.headerLen) (data.length - s.pos), s.sawIdle⟩ buffer
        (by simp only; omega)
      simp only at finished same later
      simp only [if_neg (show ¬ filled.headerLen < 5 by omega), finished]
      obtain ⟨done, idle, _, left, _, finishing, -, doneValid, -⟩ :=
        finishHeader_cases filled buffer s.sawIdle after
      rw [← rest, finishing] at same
      obtain ⟨rfl, rfl, rfl⟩ : done = next.scanner ∧ idle = next.sawIdle ∧ left = data.drop next.pos := by
        simpa using same
      refine ⟨next, true, rfl, doneValid, by omega, inside, fun passes => ?_⟩
      rw [loop, if_neg skipping, filling]
      simp [full, finishing]

theorem checkedLoop_ok (fuel : Nat) {data : Bytes} {s : ScanState} (valid : s.scanner.Valid)
    (within : s.pos ≤ data.length) (enough : data.length - s.pos < fuel) (passes : Nat)
    (bound : data.length - s.pos ≤ passes) :
    ∃ last, checkedLoop data fuel s = .ok last ∧
      scanLoop passes s.scanner s.sawIdle (data.drop s.pos) = (last.scanner, last.sawIdle) := by
  induction fuel generalizing s passes with
  | zero => omega
  | succ fuel ih =>
    by_cases more : s.pos < data.length
    · obtain ⟨passes, rfl⟩ : ∃ left, passes = left + 1 := ⟨passes - 1, by omega⟩
      obtain ⟨next, again, passed, nextValid, forward, inside, same⟩ := checkedPass_ok valid more
      simp only [checkedLoop, if_pos more, passed, bind, Except.bind, if_neg (Nat.not_le.mpr forward), same]
      cases again with
      | true => exact ih nextValid inside (by omega) passes (by omega)
      | false => exact ⟨next, rfl, rfl⟩
    · have none : data.drop s.pos = [] := List.drop_eq_nil_of_le (by omega)
      refine ⟨s, by rw [checkedLoop, if_neg more]; rfl, ?_⟩
      rw [none]
      cases passes with
      | zero => rfl
      | succ passes => rfl

def scans (scanner : MessageBoundaryScanner) (chunks : List Bytes) : MessageBoundaryScanner :=
  chunks.foldl (fun scanner chunk => (scanner.scan chunk).1) scanner

theorem scans_valid {scanner : MessageBoundaryScanner} (valid : scanner.Valid) (chunks : List Bytes) :
    (scanner.scans chunks).Valid := by
  induction chunks generalizing scanner with
  | nil => exact valid
  | cons chunk rest ih => exact ih (scan_valid valid chunk)

theorem framing_of_position {first second : MessageBoundaryScanner} (valid : first.Valid)
    (valid' : second.Valid) (same : first.position = second.position) :
    first.remainingSkip = second.remainingSkip ∧ first.headerLen = second.headerLen ∧
      first.headerBuf.take first.headerLen = second.headerBuf.take second.headerLen := by
  have buffer := valid.buffer
  have buffer' := valid'.buffer
  have short := valid.short
  have short' := valid'.short
  simp only [position] at same
  split at same
  · rename_i skipping
    split at same
    · rename_i skipping'
      have none := valid.exclusive skipping
      have none' := valid'.exclusive skipping'
      exact ⟨Position.body.inj same, by omega, by simp [none, none']⟩
    · simp at same
  · split at same
    · simp at same
    · have headers := Position.header.inj same
      have lengths := congrArg List.length headers
      simp only [List.length_take] at lengths
      exact ⟨by omega, by omega, headers⟩

theorem framing_split (chunks : List Bytes) (a b : Bytes) :
    let scanner := new.scans chunks
    let twice := ((scanner.scan a).1.scan b).1
    let once := (scanner.scan (a ++ b)).1
    (twice.remainingSkip = once.remainingSkip ∧ twice.headerLen = once.headerLen ∧
      twice.headerBuf.take twice.headerLen = once.headerBuf.take once.headerLen) ∧
    (scanner.headerLen < 5 ∧ (0 < scanner.remainingSkip → scanner.headerLen = 0)) ∧
    ∃ last, checkedScan scanner a = .ok last ∧ scanner.scan a = (last.scanner, last.sawIdle) := by
  intro scanner twice once
  have valid : scanner.Valid := scans_valid new_valid chunks
  have first := scan_valid valid a
  refine ⟨framing_of_position (scan_valid first b) (scan_valid valid (a ++ b)) ?_,
    ⟨valid.short, valid.exclusive⟩, ?_⟩
  · rw [scan_position first b, scan_position valid a, scan_position valid (a ++ b), advance_append]
  · exact checkedLoop_ok (a.length + 1) valid (Nat.zero_le _) (by simp) a.length (by simp)

end MessageBoundaryScanner

end PgMux
