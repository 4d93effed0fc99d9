import PgMux.Messages

set_option autoImplicit false

namespace PgMux

def errorFields : Bytes → String → String
  | [], msg => msg
  | fieldType :: rest, msg =>
    if fieldType = 0 then msg
    else
      let value := rest.takeWhile (· ≠ 0)
      -- Past the value and the zero byte that ends it.
      errorFields ((rest.dropWhile (· ≠ 0)).drop 1)
        (if fieldType = 'M'.toUInt8 then (fromUtf8 value).getD msg else msg)
termination_by payload => payload.length
decreasing_by
  have shorter := (List.dropWhile_sublist (l := rest) (fun b : UInt8 => decide (b ≠ 0))).length_le
  simp only [List.length_drop, List.length_cons]
  omega

def parseErrorFields (payload : Bytes) : String :=
  let msg := errorFields payload ""
  if msg = "" then "unknown error" else msg

inductive ResetError where
  | disconnected
  | discardFailed (fields : String)
  | unreadable (error : MessageError)
  | io (cause : String)
deriving DecidableEq, Repr

def ResetError.text : ResetError → String
  | .disconnected => "Backend disconnected during reset"
  | .discardFailed fields => "Reset failed: " ++ fields
  | .unreadable error => error.text
  | .io cause => cause

def discardAll : Bytes :=
  let query := asBytes "DISCARD ALL" ++ [0]
  ['Q'.toUInt8] ++ putI32 (query.length + 4) ++ query

def PgMessage.isReady (msg : PgMessage) : Bool := msg.msgType = 'Z'.toUInt8

theorem tryReadMessage_some {buf rest : Bytes} {msg : PgMessage}
    (took : tryReadMessage buf false = .ok (some (msg, rest))) :
    ∃ raw, buf = raw ++ rest ∧ Accepted raw ∧ msg = parseRaw raw := by
  rw [tryReadMessage_eq] at took
  cases read : tryReadMessageWithRaw buf with
  | error e => simp [read, Except.map] at took
  | ok message =>
    cases message with
    | none => simp [read, Except.map] at took
    | some message =>
      obtain ⟨⟨other, raw⟩, left⟩ := message
      simp only [read, Except.map, Option.map_some, Except.ok.injEq, Option.some.injEq,
        Prod.mk.injEq] at took
      obtain ⟨rfl, rfl⟩ := took
      exact ⟨raw, tryReadMessageWithRaw_some.mp read⟩

def plainReader : Reader UInt8 MessageError PgMessage where
  read buf := tryReadMessage buf false
  shrinks := by
    intro buf msg rest taken
    obtain ⟨raw, rfl, accepted, -⟩ := tryReadMessage_some taken
    have long := accepted.1.long
    simp only [List.length_append]
    omega

def resetMessage (_ : Unit) (msg : PgMessage) : Unit × Option (Except ResetError Unit) :=
  if msg.msgType = 'Z'.toUInt8 then ((), some (.ok ()))
  else if msg.msgType = 'E'.toUInt8 then
    ((), some (.error (.discardFailed (parseErrorFields msg.payload))))
  else ((), none)

inductive ResetPass where
  | again (buf : Bytes)
  | returned (result : Except ResetError Unit)

-- One read of the loop. The buffer belongs to the call, and is dropped with what it holds.
def resetPass (buf : Bytes) (read : Except String Bytes) : ResetPass :=
  match read with
  | .error cause => .returned (.error (.io cause))
  | .ok [] => .returned (.error .disconnected)
  | .ok chunk =>
    match plainReader.drain resetMessage () (buf ++ chunk) with
    | (_, rest, .drained) => .again rest
    | (_, _, .failed error) => .returned (.error (.unreadable error))
    | (_, _, .stopped result) => .returned result

variable {buf mid rest more : Bytes} {msg : PgMessage} {msgs : List PgMessage}

theorem takes_first (valid : ∀ msg ∈ msgs, msg.WellFormed) (stream : buf ++ more = wire msgs)
    (took : tryReadMessage buf false = .ok (some (msg, rest))) :
    ∃ others, msgs = msg :: others ∧ rest ++ more = wire others ∧ Accepted msg.encode := by
  obtain ⟨raw, rfl, accepted, rfl⟩ := tryReadMessage_some took
  cases msgs with
  | nil =>
    have long := accepted.1.long
    have empty := congrArg List.length stream
    simp only [List.length_append, wire, List.flatMap_nil, List.length_nil] at empty
    omega
  | cons first others =>
    have whole := PgMessage.isMessage_encode (valid first (by simp))
    have same : raw ++ (rest ++ more) = first.encode ++ wire others := by
      simpa [wire] using stream
    obtain ⟨rfl, tail⟩ := accepted.1.isFrame.append_inj whole.isFrame same
    rw [PgMessage.parseRaw_encode (valid first (by simp))]
    exact ⟨others, rfl, tail, accepted⟩

theorem passes_wire {taken : List PgMessage} {s after : Unit}
    (passes : plainReader.Passes resetMessage s buf taken after rest)
    (valid : ∀ msg ∈ msgs, msg.WellFormed) (stream : buf ++ more = wire msgs) :
    ∃ left, msgs = taken ++ left ∧ rest ++ more = wire left ∧
      ∀ msg ∈ taken, msg.msgType ≠ 'Z'.toUInt8 ∧ Accepted msg.encode := by
  induction passes generalizing msgs with
  | refl s buf => exact ⟨msgs, rfl, stream, by simp⟩
  | head took continued tail ih =>
    obtain ⟨others, rfl, following, accepted⟩ := takes_first valid stream took
    have later : ∀ msg ∈ others, msg.WellFormed := fun msg member => valid msg (by simp [member])
    obtain ⟨left, rfl, final, unready⟩ := ih later following
    refine ⟨left, rfl, final, fun msg member => ?_⟩
    obtain rfl | inside := List.mem_cons.mp member
    · refine ⟨fun ready => ?_, accepted⟩
      simp [resetMessage, ready] at continued
    · exact unready msg inside

theorem resetPass_eq {chunk : Bytes} (nonempty : chunk ≠ []) :
    resetPass buf (.ok chunk) =
      match plainReader.drain resetMessage () (buf ++ chunk) with
      | (_, rest, .drained) => .again rest
      | (_, _, .failed error) => .returned (.error (.unreadable error))
      | (_, _, .stopped result) => .returned result := by
  cases chunk with
  | nil => exact absurd rfl nonempty
  | cons first others => rfl

theorem resetPass_wire {chunk : Bytes} (nonempty : chunk ≠ [])
    (valid : ∀ msg ∈ msgs, msg.WellFormed) (stream : buf ++ chunk ++ more = wire msgs) :
    (∃ rest taken left, resetPass buf (.ok chunk) = .again rest ∧ msgs = taken ++ left ∧
        rest ++ more = wire left ∧ ∀ msg ∈ taken, msg.msgType ≠ 'Z'.toUInt8) ∨
      (∃ rest taken ready left, resetPass buf (.ok chunk) = .returned (.ok ()) ∧
        msgs = taken ++ ready :: left ∧ ready.msgType = 'Z'.toUInt8 ∧ rest ++ more = wire left) ∨
      ∃ error, resetPass buf (.ok chunk) = .returned (.error error) := by
  obtain ⟨taken, after, rest, passes, ends⟩ := plainReader.drain_passes resetMessage () (buf ++ chunk)
  obtain ⟨left, rfl, tail, unready⟩ := passes_wire passes valid stream
  replace unready := fun msg member => (unready msg member).1
  rcases ends with ⟨-, run⟩ | ⟨error, -, run⟩ | ⟨msg, last, final, result, took, stop, run⟩
  · exact .inl ⟨rest, taken, left, by rw [resetPass_eq nonempty, run], rfl, tail, unready⟩
  · exact .inr (.inr ⟨.unreadable error, by rw [resetPass_eq nonempty, run]⟩)
  · have later : ∀ msg ∈ left, msg.WellFormed := fun msg member => valid msg (by simp [member])
    obtain ⟨others, rfl, behind, -⟩ := takes_first later tail took
    have returns : resetPass buf (.ok chunk) = .returned result := by rw [resetPass_eq nonempty, run]
    simp only [resetMessage] at stop
    split_ifs at stop with ready failed
    · obtain rfl : .ok () = result := Option.some.inj (Prod.mk.inj stop).2
      exact .inr (.inl ⟨last, taken, msg, others, returns, rfl, ready, behind⟩)
    · obtain rfl := Option.some.inj (Prod.mk.inj stop).2
      exact .inr (.inr ⟨_, returns⟩)
    · simp at stop

def MeetsError (stream : Bytes) : Prop :=
  ∃ (raws : List Bytes) (rest : Bytes), stream = raws.flatten ++ rest ∧
    (∀ raw ∈ raws, Accepted raw ∧ raw.headD 0 ≠ 'Z'.toUInt8) ∧
    ((∃ error, tryReadMessageWithRaw rest = .error error) ∨
      ∃ raw more, rest = raw ++ more ∧ Accepted raw ∧ raw.headD 0 = 'E'.toUInt8)

def ResetFails (stream : Bytes) : Prop :=
  match (plainReader.drain resetMessage () stream).2.2 with
  | .failed _ | .stopped (.error _) => True
  | .drained | .stopped (.ok ()) => False

theorem plainReader_accepted {raw : Bytes} (accepted : Accepted raw) (rest : Bytes) :
    plainReader.read (raw ++ rest) = .ok (some (parseRaw raw, rest)) := by
  change tryReadMessage _ false = _
  rw [tryReadMessage_eq, tryReadMessageWithRaw_append accepted rest]
  rfl

theorem plainReader_error {stream : Bytes} {error : MessageError} :
    plainReader.read stream = .error error ↔ tryReadMessageWithRaw stream = .error error := by
  change tryReadMessage _ false = _ ↔ _
  rw [tryReadMessage_eq]
  cases tryReadMessageWithRaw stream <;> simp [Except.map]

theorem meetsError_error {stream : Bytes} {raw more : Bytes} (accepted : Accepted raw)
    (error : raw.headD 0 = 'E'.toUInt8) (front : stream = raw ++ more) : ResetFails stream := by
  have stop : resetMessage () (parseRaw raw) =
      ((), some (.error (.discardFailed (parseErrorFields (parseRaw raw).payload)))) := by
    have failed : (parseRaw raw).msgType = 'E'.toUInt8 := error
    rw [resetMessage, if_neg (by rw [failed]; decide), if_pos failed]
  rw [front, ResetFails, plainReader.drain_stopped (plainReader_accepted accepted more) stop]
  trivial

theorem MeetsError.fails {stream : Bytes} (meets : MeetsError stream) : ResetFails stream := by
  obtain ⟨raws, rest, rfl, each, ends⟩ := meets
  induction raws with
  | nil =>
    rw [List.flatten_nil, List.nil_append]
    obtain ⟨error, bad⟩ | ⟨raw, more, front, accepted, error⟩ := ends
    · rw [ResetFails, plainReader.drain_failed (plainReader_error.mpr bad)]
      trivial
    · exact meetsError_error accepted error front
  | cons raw raws ih =>
    obtain ⟨accepted, unready⟩ := each raw (by simp)
    have tail := ih fun other member => each other (by simp [member])
    rw [List.flatten_cons, List.append_assoc]
    by_cases error : raw.headD 0 = 'E'.toUInt8
    · exact meetsError_error accepted error rfl
    · have goes : resetMessage () (parseRaw raw) = ((), none) := by
        have plain : (parseRaw raw).msgType ≠ 'Z'.toUInt8 := unready
        have fine : (parseRaw raw).msgType ≠ 'E'.toUInt8 := error
        rw [resetMessage, if_neg plain, if_neg fine]
      rw [ResetFails, plainReader.drain_continued (plainReader_accepted accepted _) goes]
      exact tail

theorem plainReader_incremental : plainReader.Incremental where
  message := by
    intro buf msg rest taken more
    obtain ⟨raw, rfl, accepted, rfl⟩ := tryReadMessage_some taken
    rw [List.append_assoc]
    exact plainReader_accepted accepted (rest ++ more)
  failure := by
    intro buf error failed more
    rw [plainReader_error] at failed ⊢
    exact messageReader_incremental.failure failed more

theorem ResetFails.append {stream : Bytes} (fails : ResetFails stream) (more : Bytes) :
    ResetFails (stream ++ more) := by
  rw [ResetFails] at fails ⊢
  rw [plainReader.drain_append plainReader_incremental () stream more]
  generalize plainReader.drain resetMessage () stream = ended at fails ⊢
  obtain ⟨after, rest, drained | error | result⟩ := ended
  · simp at fails
  · trivial
  · exact fails

theorem resetPass_fails {chunk : Bytes} (nonempty : chunk ≠ []) (fails : ResetFails (buf ++ chunk ++ more)) :
    (∃ rest, resetPass buf (.ok chunk) = .again rest ∧ ResetFails (rest ++ more)) ∨
      ∃ error, resetPass buf (.ok chunk) = .returned (.error error) := by
  rw [ResetFails, plainReader.drain_append plainReader_incremental () (buf ++ chunk) more] at fails
  rw [resetPass_eq nonempty]
  generalize plainReader.drain resetMessage () (buf ++ chunk) = ended at fails ⊢
  obtain ⟨after, rest, drained | error | result⟩ := ended
  · exact .inl ⟨rest, rfl, fails⟩
  · exact .inr ⟨_, rfl⟩
  · cases result with
    | ok _ => simp at fails
    | error error => exact .inr ⟨error, rfl⟩

end PgMux
