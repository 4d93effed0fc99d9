import PgMux.Backend.Handshake
import PgMux.Codec
import PgMux.Fields

set_option autoImplicit false

namespace PgMux

def checkedErrorFields (payload : Bytes) : Nat → Nat → String → Except Fault String
  | 0, _, _ => .error .stuck
  | fuel + 1, pos, msg =>
    if pos < payload.length then do
      let fieldType ← index payload pos
      if fieldType = 0 then return msg
      else
        let start := pos + 1
        let pos ← scanZero payload (payload.length + 1) start
        if fieldType = 'M'.toUInt8 then
          let value ← slice payload start pos
          checkedErrorFields payload fuel (pos + 1) ((fromUtf8 value).getD msg)
        else checkedErrorFields payload fuel (pos + 1) msg
    else return msg

def checkedParseErrorFields (payload : Bytes) : Except Fault String := do
  let msg ← checkedErrorFields payload (payload.length + 1) 0 ""
  return if msg = "" then "unknown error" else msg

theorem checkedErrorFields_eq {payload : Bytes} {fuel pos : Nat} (enough : payload.length - pos < fuel)
    (msg : String) : checkedErrorFields payload fuel pos msg = .ok (errorFields (payload.drop pos) msg) := by
  induction fuel generalizing pos msg with
  | zero => omega
  | succ fuel ih =>
    obtain ⟨beyond, nothing⟩ | ⟨first, rest, inside, here, behind⟩ := @drop_pos payload pos
    · rw [checkedErrorFields, if_neg (by omega), nothing, errorFields]
      rfl
    · rw [checkedErrorFields, if_pos inside, index_ok here, here, errorFields]
      simp only [bind, Except.bind]
      by_cases zero : first = 0
      · rw [if_pos zero, if_pos zero]
        rfl
      · have tail : payload.drop (pos + 1 + (rest.takeWhile (· ≠ 0)).length + 1) =
            (rest.dropWhile (· ≠ 0)).drop 1 := by
          rw [← List.drop_drop, ← behind, drop_scanned]
        rw [if_neg zero, if_neg zero, scanZero_ok (by omega), behind]
        simp only
        by_cases message : first = 'M'.toUInt8
        · have value := @slice_field payload (pos + 1) (by omega)
          rw [behind] at value
          rw [if_pos message, if_pos message, value]
          simp only
          rw [ih (by omega), tail]
        · rw [if_neg message, if_neg message, ih (by omega), tail]

theorem checkedParseErrorFields_eq (payload : Bytes) :
    checkedParseErrorFields payload = .ok (parseErrorFields payload) := by
  rw [checkedParseErrorFields, checkedErrorFields_eq (by omega)]
  rfl

section Handle

variable (lib : PgProtocol) (user password : String)

def checkedAuthentication (h : Handshake lib.ScramSha256) (payload : Bytes) :
    Except Fault (Handshake lib.ScramSha256) := do
  if payload.length < 4 then return h.fail .invalidAuth
  else
    let authType := getI32 (← slice payload 0 4)
    if authType = 0 then return { h with authenticated := true }
    else if authType = 3 then return h.write (lib.passwordMessage (asBytes password))
    else if authType = 5 then
      if payload.length < 8 then return h.fail .invalidMd5
      else
        let salt ← slice payload 4 8
        return h.write
          (lib.passwordMessage (asBytes (lib.md5Hash (asBytes user) (asBytes password) salt)))
    else if authType = 10 then
      if "SCRAM-SHA-256" ∉ mechanisms (← slice payload 4 payload.length) then return h.fail .noScram
      else
        let scram := lib.new (asBytes password)
        match lib.saslInitialResponse "SCRAM-SHA-256" (lib.message scram) with
        | .ok bytes => return {
            h with stage := .saslContinue scram, sent := h.sent ++ [bytes], begun := h.begun + 1 }
        | .error cause => return h.fail (.io cause)
    else return h.fail (.unsupportedAuth authType)

def checkedAuth (h : Handshake lib.ScramSha256) (msg : PgMessage) :
    Except Fault (Handshake lib.ScramSha256) := do
  if msg.msgType = 'R'.toUInt8 then checkedAuthentication lib user password h msg.payload
  else if msg.msgType = 'E'.toUInt8 then return h.fail (.backend .auth (← checkedParseErrorFields msg.payload))
  else if msg.msgType = 'Z'.toUInt8 then return { h with stage := .returned (.ok ()) }
  else return h

def checkedContinue (h : Handshake lib.ScramSha256) (scram : lib.ScramSha256) (msg : PgMessage) :
    Except Fault (Handshake lib.ScramSha256) := do
  if msg.msgType = 'R'.toUInt8 then
    let authType := getI32 (← slice msg.payload 0 4)
    if authType = 11 then
      match lib.update scram (← slice msg.payload 4 msg.payload.length) with
      | .ok scram =>
        match lib.saslResponse (lib.message scram) with
        | .ok bytes => return { h with stage := .saslFinal scram, sent := h.sent ++ [bytes] }
        | .error cause => return h.fail (.io cause)
      | .error cause => return h.fail (.io cause)
    else return h.fail (.unexpectedAuth .saslContinue authType)
  else if msg.msgType = 'E'.toUInt8 then
    return h.fail (.backend .saslContinue (← checkedParseErrorFields msg.payload))
  else return h

def checkedFinal (h : Handshake lib.ScramSha256) (scram : lib.ScramSha256) (msg : PgMessage) :
    Except Fault (Handshake lib.ScramSha256) := do
  if msg.msgType = 'R'.toUInt8 then
    let authType := getI32 (← slice msg.payload 0 4)
    if authType = 12 then
      match lib.finish scram (← slice msg.payload 4 msg.payload.length) with
      | .ok () => return { h with stage := .auth, finished := h.finished + 1 }
      | .error cause => return h.fail (.io cause)
    else if authType = 0 then return { h with stage := .auth }
    else return h.fail (.unexpectedAuth .saslFinal authType)
  else if msg.msgType = 'E'.toUInt8 then
    return h.fail (.backend .saslFinal (← checkedParseErrorFields msg.payload))
  else return h

def checkedReady {S : Type} (h : Handshake S) (msg : PgMessage) : Except Fault (Handshake S) := do
  if msg.msgType = 'Z'.toUInt8 then return { h with stage := .returned (.ok ()) }
  else if msg.msgType = 'E'.toUInt8 then return h.fail (.backend .ready (← checkedParseErrorFields msg.payload))
  else return h

def checkedHandle (h : Handshake lib.ScramSha256) (msg : PgMessage) :
    Except Fault (Handshake lib.ScramSha256) :=
  match h.stage with
  | .auth => checkedAuth lib user password h msg
  | .saslContinue scram => checkedContinue lib h scram msg
  | .saslFinal scram => checkedFinal lib h scram msg
  | .ready => checkedReady h msg
  | .returned _ => .ok h

end Handle

-- The message of `reset_connection`.
def checkedResetMessage (msg : PgMessage) : Except Fault (Unit × Option (Except ResetError Unit)) := do
  if msg.msgType = 'Z'.toUInt8 then return ((), some (.ok ()))
  else if msg.msgType = 'E'.toUInt8 then
    return ((), some (.error (.discardFailed (← checkedParseErrorFields msg.payload))))
  else return ((), none)

theorem slice_front {bytes : Bytes} {n : Nat} (within : n ≤ bytes.length) :
    slice bytes 0 n = .ok (bytes.take n) := by
  rw [slice, if_pos ⟨Nat.zero_le n, within⟩, List.drop_zero]

theorem slice_back {bytes : Bytes} {n : Nat} (within : n ≤ bytes.length) :
    slice bytes n bytes.length = .ok (bytes.drop n) := by
  rw [slice, if_pos ⟨within, le_rfl⟩, List.take_length]

-- An authentication message too short for its code, where SCRAM awaits the server.
def ShortAuth {S : Type} (h : Handshake S) (msg : PgMessage) : Prop :=
  Connect.inSasl h = 1 ∧ msg.msgType = 'R'.toUInt8 ∧ msg.payload.length < 4

instance {S : Type} (h : Handshake S) (msg : PgMessage) : Decidable (ShortAuth h msg) :=
  inferInstanceAs (Decidable (_ ∧ _))

section Handle

variable {lib : PgProtocol} {user password : String} {h : Handshake lib.ScramSha256} {msg : PgMessage}

theorem checkedAuthentication_eq (payload : Bytes) :
    checkedAuthentication lib user password h payload =
      .ok (handleAuthentication lib user password h payload) := by
  rw [checkedAuthentication, handleAuthentication]
  by_cases short : payload.length < 4
  · rw [if_pos short, if_pos short]
    rfl
  · have long : 4 ≤ payload.length := by omega
    rw [if_neg short, if_neg short, slice_front long, slice_back long]
    simp only [bind, Except.bind, getI32_take long]
    split_ifs with ok cleartext md5 tiny sasl supported
    · rfl
    · rfl
    · rfl
    · have salt := MessageBoundaryScanner.slice_ok (show 4 + 4 ≤ payload.length by omega)
      rw [show slice payload 4 8 = .ok ((payload.drop 4).take 4) from salt]
      rfl
    · cases lib.saslInitialResponse "SCRAM-SHA-256" (lib.message (lib.new (asBytes password))) <;> rfl
    · rfl
    · rfl

theorem checkedAuth_eq (msg : PgMessage) :
    checkedAuth lib user password h msg = .ok (handleAuth lib user password h msg) := by
  rw [checkedAuth, handleAuth, checkedAuthentication_eq, checkedParseErrorFields_eq]
  split_ifs <;> rfl

theorem checkedReady_eq {S : Type} (h : Handshake S) (msg : PgMessage) :
    checkedReady h msg = .ok (handleReady h msg) := by
  rw [checkedReady, handleReady, checkedParseErrorFields_eq]
  split_ifs <;> rfl

theorem checkedContinue_eq {scram : lib.ScramSha256} (long : msg.msgType = 'R'.toUInt8 → 4 ≤ msg.payload.length) :
    checkedContinue lib h scram msg = .ok (handleContinue lib h scram msg) := by
  rw [checkedContinue, handleContinue, checkedParseErrorFields_eq]
  by_cases auth : msg.msgType = 'R'.toUInt8
  · have four := long auth
    rw [if_pos auth, if_pos auth, if_neg (by omega), slice_front four, slice_back four]
    simp only [bind, Except.bind, getI32_take four]
    split_ifs
    · cases lib.update scram (msg.payload.drop 4) with
      | error cause => rfl
      | ok scram =>
        dsimp only
        cases lib.saslResponse (lib.message scram) <;> rfl
    · rfl
  · rw [if_neg auth, if_neg auth]
    split_ifs <;> rfl

theorem checkedFinal_eq {scram : lib.ScramSha256} (long : msg.msgType = 'R'.toUInt8 → 4 ≤ msg.payload.length) :
    checkedFinal lib h scram msg = .ok (handleFinal lib h scram msg) := by
  rw [checkedFinal, handleFinal, checkedParseErrorFields_eq]
  by_cases auth : msg.msgType = 'R'.toUInt8
  · have four := long auth
    rw [if_pos auth, if_pos auth, if_neg (by omega), slice_front four, slice_back four]
    simp only [bind, Except.bind, getI32_take four]
    split_ifs
    · cases lib.finish scram (msg.payload.drop 4) <;> rfl
    · rfl
    · rfl
  · rw [if_neg auth, if_neg auth]
    split_ifs <;> rfl

theorem slice_short {bytes : Bytes} {n : Nat} (short : bytes.length < n) : slice bytes 0 n = .error .slice := by
  rw [slice, if_neg (by omega)]

theorem checkedHandle_eq (long : ¬ ShortAuth h msg) :
    checkedHandle lib user password h msg = .ok (handle lib user password h msg) := by
  rw [checkedHandle, handle]
  cases stage : h.stage with
  | auth => exact checkedAuth_eq msg
  | saslContinue scram =>
    refine checkedContinue_eq fun auth => ?_
    by_contra short
    exact long ⟨by rw [Connect.inSasl, stage], auth, by omega⟩
  | saslFinal scram =>
    refine checkedFinal_eq fun auth => ?_
    by_contra short
    exact long ⟨by rw [Connect.inSasl, stage], auth, by omega⟩
  | ready => exact checkedReady_eq h msg
  | returned result => rfl

theorem checkedHandle_short (short : ShortAuth h msg) :
    checkedHandle lib user password h msg = .error .slice ∧ handle lib user password h msg = h.fail .panic := by
  obtain ⟨sasl, auth, short⟩ := short
  rw [checkedHandle, handle]
  rw [Connect.inSasl] at sasl
  cases stage : h.stage with
  | saslContinue scram =>
    simp only
    rw [checkedContinue, handleContinue, if_pos auth, if_pos auth, if_pos short, slice_short short]
    exact ⟨rfl, rfl⟩
  | saslFinal scram =>
    simp only
    rw [checkedFinal, handleFinal, if_pos auth, if_pos auth, if_pos short, slice_short short]
    exact ⟨rfl, rfl⟩
  | auth | ready | returned => simp [stage] at sasl

end Handle

theorem checkedResetMessage_eq (msg : PgMessage) : checkedResetMessage msg = .ok (resetMessage () msg) := by
  rw [checkedResetMessage, resetMessage, checkedParseErrorFields_eq]
  split_ifs <;> rfl

namespace Connect

section Safe

variable (lib : PgProtocol) (user password : String)

structure SafeAt (h : Handshake lib.ScramSha256) (log : Log lib.ScramSha256) : Prop where
  running : h.stage ≠ .returned (.error .panic)
  handled : ∀ entry ∈ log, ∃ next, checkedHandle lib user password entry.1 entry.2 = .ok next

variable {lib user password} {h : Handshake lib.ScramSha256} {msg : PgMessage} {log : Log lib.ScramSha256}

theorem fail_running {S : Type} (h : Handshake S) {error : ConnectError} (other : error ≠ .panic) :
    (h.fail error).stage ≠ .returned (.error .panic) := by
  simpa [Handshake.fail] using other

theorem write_running {S : Type} {h : Handshake S} (running : h.stage ≠ .returned (.error .panic))
    (bytes : Except String Bytes) : (h.write bytes).stage ≠ .returned (.error .panic) := by
  cases bytes with
  | ok bytes => exact running
  | error cause => exact fail_running h (by simp)

theorem handleAuthentication_running (running : h.stage ≠ .returned (.error .panic)) (payload : Bytes) :
    (handleAuthentication lib user password h payload).stage ≠ .returned (.error .panic) := by
  unfold handleAuthentication
  dsimp only
  split_ifs
  · exact fail_running h (by simp)
  · exact running
  · exact write_running running _
  · exact fail_running h (by simp)
  · exact write_running running _
  · split
    · simp
    · exact fail_running h (by simp)
  · exact fail_running h (by simp)
  · exact fail_running h (by simp)

theorem handleContinue_running (running : h.stage ≠ .returned (.error .panic)) {scram : lib.ScramSha256}
    (long : msg.msgType = 'R'.toUInt8 → 4 ≤ msg.payload.length) :
    (handleContinue lib h scram msg).stage ≠ .returned (.error .panic) := by
  unfold handleContinue
  dsimp only
  split_ifs with auth short
  · have four := long auth
    omega
  · split
    · split
      · simp
      · exact fail_running h (by simp)
    · exact fail_running h (by simp)
  · exact fail_running h (by simp)
  · exact fail_running h (by simp)
  · exact running

theorem handleFinal_running (running : h.stage ≠ .returned (.error .panic)) {scram : lib.ScramSha256}
    (long : msg.msgType = 'R'.toUInt8 → 4 ≤ msg.payload.length) :
    (handleFinal lib h scram msg).stage ≠ .returned (.error .panic) := by
  unfold handleFinal
  dsimp only
  split_ifs with auth short
  · have four := long auth
    omega
  · split
    · simp
    · exact fail_running h (by simp)
  · simp
  · exact fail_running h (by simp)
  · exact fail_running h (by simp)
  · exact running

theorem handle_running (long : ¬ ShortAuth h msg) (running : h.stage ≠ .returned (.error .panic)) :
    (handle lib user password h msg).stage ≠ .returned (.error .panic) := by
  have four (sasl : inSasl h = 1) (auth : msg.msgType = 'R'.toUInt8) : 4 ≤ msg.payload.length := by
    by_contra short
    exact long ⟨sasl, auth, by omega⟩
  rw [handle]
  cases stage : h.stage with
  | auth =>
    simp only
    rw [handleAuth]
    split_ifs
    · exact handleAuthentication_running running msg.payload
    · exact fail_running h (by simp)
    · simp
    · exact running
  | saslContinue scram => exact handleContinue_running running (four (by rw [inSasl, stage]))
  | saslFinal scram => exact handleFinal_running running (four (by rw [inSasl, stage]))
  | ready =>
    simp only
    rw [handleReady]
    split_ifs
    · simp
    · exact fail_running h (by simp)
    · exact running
  | returned result => exact running

theorem safeAt_push (safe : SafeAt lib user password h log) (msg : PgMessage) :
    SafeAt lib user password (handle lib user password h msg) (log ++ [(h, msg)]) ↔ ¬ ShortAuth h msg := by
  constructor
  · intro after short
    obtain ⟨next, ok⟩ := after.handled (h, msg) (by simp)
    rw [(checkedHandle_short short).1] at ok
    cases ok
  · intro long
    refine ⟨handle_running long safe.running, fun entry member => ?_⟩
    obtain inside | last := List.mem_append.mp member
    · exact safe.handled entry inside
    · obtain rfl := List.mem_singleton.mp last
      exact ⟨_, checkedHandle_eq long⟩

theorem loops_long (loops : h.loops = true) (msg : PgMessage) : ¬ ShortAuth h msg := by
  rintro ⟨sasl, -⟩
  rw [Handshake.loops] at loops
  rw [inSasl] at sasl
  cases stage : h.stage <;> simp [stage] at loops sasl

theorem takeMessage_loops {s next : Handshake lib.ScramSha256 × Log lib.ScramSha256}
    (continued : takeMessage lib user password s msg = (next, none)) :
    next = (handle lib user password s.1 msg, s.2 ++ [(s.1, msg)]) ∧ next.1.loops = true := by
  simp only [takeMessage, Prod.mk.injEq, ite_eq_left_iff, reduceCtorEq, imp_false, not_not] at continued
  obtain ⟨rfl, loops⟩ := continued
  exact ⟨rfl, loops⟩

theorem takeMessage_safe (s : Handshake lib.ScramSha256 × Log lib.ScramSha256) (msg : PgMessage)
    (next : Handshake lib.ScramSha256 × Log lib.ScramSha256)
    (before : s.1.loops = true ∧ SafeAt lib user password s.1 s.2)
    (continued : takeMessage lib user password s msg = (next, none)) :
    next.1.loops = true ∧ SafeAt lib user password next.1 next.2 := by
  obtain ⟨rfl, again⟩ := takeMessage_loops continued
  exact ⟨again, (safeAt_push before.2 msg).mpr (loops_long before.1 msg)⟩

theorem drain_safe {s : Handshake lib.ScramSha256 × Log lib.ScramSha256} (loops : s.1.loops = true)
    (safe : SafeAt lib user password s.1 s.2) (buf : Bytes) :
    SafeAt lib user password (plainReader.drain (takeMessage lib user password) s buf).1.1
      (plainReader.drain (takeMessage lib user password) s buf).1.2 := by
  obtain ⟨ms, after, rest, passes, ends⟩ := plainReader.drain_passes (takeMessage lib user password) s buf
  obtain ⟨again, kept⟩ := passes.invariant takeMessage_safe ⟨loops, safe⟩
  obtain ⟨-, drained⟩ | ⟨e, -, failed⟩ | ⟨m, left, last, result, -, stops, stopped⟩ := ends
  · rw [drained]
    exact kept
  · rw [failed]
    exact kept
  · rw [stopped]
    obtain rfl : (takeMessage lib user password after m).1 = last := congrArg Prod.fst stops
    exact (safeAt_push kept m).mpr (loops_long again m)

theorem settle_running {S : Type} {h : Handshake S} (running : h.stage ≠ .returned (.error .panic)) :
    h.settle.stage ≠ .returned (.error .panic) := by
  rw [Handshake.settle]
  split
  · split_ifs
    · simp
    · exact running
  · exact running

/-- The first message of a pass is the only one that a pass can take where SCRAM awaits the server. -/
theorem drain_safe_first (safe : SafeAt lib user password h log) {buf : Bytes}
    (long : ∀ msg rest, tryReadMessage buf false = .ok (some (msg, rest)) → ¬ ShortAuth h msg) :
    SafeAt lib user password (plainReader.drain (takeMessage lib user password) (h, log) buf).1.1
      (plainReader.drain (takeMessage lib user password) (h, log) buf).1.2 := by
  cases read : plainReader.read buf with
  | error error =>
    rw [plainReader.drain_failed read]
    exact safe
  | ok taken =>
    cases taken with
    | none =>
      rw [plainReader.drain_drained read]
      exact safe
    | some taken =>
      obtain ⟨msg, rest⟩ := taken
      have after := (safeAt_push safe msg).mpr (long msg rest read)
      by_cases loops : (handle lib user password h msg).loops = true
      · have goes : takeMessage lib user password (h, log) msg =
            ((handle lib user password h msg, log ++ [(h, msg)]), none) := by
          rw [takeMessage, if_pos loops]
        rw [plainReader.drain_continued read goes]
        exact drain_safe loops after rest
      · have stops : takeMessage lib user password (h, log) msg =
            ((handle lib user password h msg, log ++ [(h, msg)]), some ()) := by
          rw [takeMessage, if_neg loops]
        rw [plainReader.drain_stopped read stops]
        exact after

theorem drain_short (short : ShortAuth h msg) {buf rest : Bytes}
    (took : tryReadMessage buf false = .ok (some (msg, rest))) :
    plainReader.drain (takeMessage lib user password) (h, log) buf =
      ((h.fail .panic, log ++ [(h, msg)]), rest, .stopped ()) := by
  have stops : takeMessage lib user password (h, log) msg = ((h.fail .panic, log ++ [(h, msg)]), some ()) := by
    rw [takeMessage, (checkedHandle_short short).2]
    rfl
  exact plainReader.drain_stopped took stops

variable (lib user password)

def Safe (s : Connect lib.ScramSha256) : Prop := SafeAt lib user password s.core s.log

def LongEnough {S : Type} (s : Connect S) (read : Except String Bytes) : Prop :=
  ∀ chunk, read = .ok chunk → chunk ≠ [] → ∀ msg rest,
    tryReadMessage (s.buf ++ chunk) false = .ok (some (msg, rest)) → ¬ ShortAuth s.core msg

variable {lib user password}

theorem pass_safe {s : Connect lib.ScramSha256} (safe : Safe lib user password s) {read : Except String Bytes}
    (long : LongEnough s read) : Safe lib user password (pass lib user password s read) := by
  unfold pass
  split
  · exact ⟨fail_running _ (by simp), safe.handled⟩
  · exact ⟨fail_running _ (by simp), safe.handled⟩
  · rename_i chunk nonempty
    have after := drain_safe_first safe (long chunk rfl nonempty)
    generalize plainReader.drain (takeMessage lib user password) (s.core, s.log) (s.buf ++ chunk) = drain at after ⊢
    obtain ⟨⟨core, log⟩, rest, drained | error | ⟨⟩⟩ := drain
    · exact ⟨settle_running after.running, after.handled⟩
    · exact ⟨fail_running _ (by simp), after.handled⟩
    · exact after

theorem pass_short {s : Connect lib.ScramSha256} {read : Except String Bytes} (short : ¬ LongEnough s read) :
    (pass lib user password s read).core.stage = .returned (.error .panic) := by
  simp only [LongEnough, not_forall, not_not] at short
  obtain ⟨chunk, rfl, nonempty, msg, rest, took, short⟩ := short
  obtain ⟨first, others, rfl⟩ := List.exists_cons_of_ne_nil nonempty
  have drained := @drain_short lib user password s.core msg s.log short _ rest took
  rw [pass, drained]
  · rfl
  · exact List.cons_ne_nil first others

theorem step_safe_iff (s : Connect lib.ScramSha256) (read : Except String Bytes) (t : Connect lib.ScramSha256)
    (safe : Safe lib user password s) (stepped : step lib user password s read = some t) :
    Safe lib user password t ↔ LongEnough s read := by
  rw [step] at stepped
  split at stepped
  · cases stepped
  · obtain rfl := Option.some.inj stepped
    constructor
    · intro after
      by_contra short
      exact after.running (pass_short short)
    · exact pass_safe safe

theorem longEnough_returned (s : Connect lib.ScramSha256) (read : Except String Bytes)
    (stuck : step lib user password s read = none) : LongEnough s read := by
  intro chunk _ _ msg rest _ short
  have outside : inSasl s.core = 0 := by
    rw [step] at stuck
    split at stuck
    · rename_i returned
      rw [Handshake.Returned] at returned
      rw [inSasl]
      split at returned
      · rename_i stage
        rw [stage]
      · exact returned.elim
    · cases stuck
  have inside := short.1
  omega

theorem safe_iff (reads : List (Except String Bytes)) :
    Transition.Always (step lib user password) (Safe lib user password) {} reads ↔
      Transition.Along (step lib user password) LongEnough {} reads :=
  Transition.always_iff_along_self step_safe_iff longEnough_returned ⟨nofun, nofun⟩

theorem panics_of_short {s c : Connect lib.ScramSha256} {reads : List (Except String Bytes)}
    (ran : Transition.run (step lib user password) s reads = some c)
    (short : ¬ Transition.Along (step lib user password) LongEnough s reads) :
    c.core.stage = .returned (.error .panic) := by
  induction reads generalizing s with
  | nil => exact absurd trivial short
  | cons read rest ih =>
    obtain ⟨t, stepped, ran⟩ := Transition.run_cons.mp ran
    by_cases long : LongEnough s read
    · refine ih ran fun along => short ⟨long, fun other same => ?_⟩
      rwa [← Option.some.inj (stepped.symm.trans same)]
    · rw [step] at stepped
      split at stepped
      · cases stepped
      · obtain rfl := Option.some.inj stepped
        have panicked := @pass_short lib user password s read long
        cases rest with
        | nil => rwa [← Option.some.inj ran]
        | cons next rest =>
          obtain ⟨u, moved, -⟩ := Transition.run_cons.mp ran
          rw [step, if_pos (by simp [Handshake.Returned, panicked])] at moved
          cases moved

theorem panics_iff {c : Connect lib.ScramSha256} {reads : List (Except String Bytes)}
    (ran : Transition.run (step lib user password) {} reads = some c) :
    c.core.stage = .returned (.error .panic) ↔
      ¬ Transition.Along (step lib user password) LongEnough {} reads := by
  constructor
  · intro panicked long
    exact (((safe_iff reads).mpr long).last ran).running panicked
  · exact panics_of_short ran

variable (lib user password)

theorem backend_safe_iff (reads : List (Except String Bytes)) :
    (Transition.Always (step lib user password) (Safe lib user password) {} reads ∧
        ∀ msg, ∃ result, checkedResetMessage msg = .ok result) ↔
      Transition.Along (step lib user password) LongEnough {} reads := by
  exact ⟨fun safe => (safe_iff reads).mp safe.1,
    fun long => ⟨(safe_iff reads).mpr long, fun msg => ⟨_, checkedResetMessage_eq msg⟩⟩⟩

end Safe

-- An authentication message without a code, in the place of the server's first SCRAM message.
def shortServer : List (Except String Bytes) :=
  [.ok (authentication 10 (asBytes "SCRAM-SHA-256" ++ [0, 0])), .ok (PgMessage.encode ⟨'R'.toUInt8, []⟩)]

theorem backend_panics :
    ¬ ∀ lib user password reads,
      Transition.Always (step lib user password) (Safe lib user password) {} reads ∧
        ∀ msg, ∃ result, checkedResetMessage msg = .ok result := by
  intro safe
  obtain ⟨s, reached, panicked⟩ : ∃ s, Transition.run (step oneExchange "app" "foobar") {} shortServer = some s ∧
      s.core.stage = .returned (.error .panic) := Transition.exists_run (by decide)
  exact ((safe oneExchange "app" "foobar" shortServer).1.last reached).running panicked

end Connect

end PgMux
