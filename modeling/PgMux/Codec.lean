import PgMux.Backend.Reset
import PgMux.Scanner.Bounds

set_option autoImplicit false

namespace PgMux

-- `&mut BytesMut`, whose operations panic outside of what it holds.
abbrev BytesMut := StateT Bytes (Except Fault)

namespace BytesMut

def len : BytesMut Nat := fun buf => .ok (buf.length, buf)

-- `&buf[first..last]`
def range (first last : Nat) : BytesMut Bytes := fun buf => (slice buf first last).map (·, buf)

-- `buf[i]`
def byte (i : Nat) : BytesMut UInt8 := fun buf => (index buf i).map (·, buf)

def advance (count : Nat) : BytesMut Unit := fun buf => (slice buf count buf.length).map ((), ·)

def splitTo (count : Nat) : BytesMut Bytes := fun buf =>
  (slice buf 0 count).map (·, buf.drop count)

end BytesMut

open BytesMut in
def checkedTryReadMessage (isStartup : Bool) : BytesMut (Except MessageError (Option PgMessage)) := do
  if isStartup then
    if (← BytesMut.len) < 4 then return .ok none
    else
      let len := asUsize (getI32 (← range 0 4))
      if ¬ (4 ≤ len ∧ len ≤ maxMessageSize) then return .error (.invalidStartupLength len)
      else if (← BytesMut.len) < len then return .ok none
      else
        advance 4
        let payload ← splitTo (← checkedSub len 4)
        return .ok (some ⟨0, payload⟩)
  else
    if (← BytesMut.len) < 5 then return .ok none
    else
      let msgType ← byte 0
      let len := asUsize (getI32 (← range 1 5))
      if ¬ (4 ≤ len ∧ len ≤ maxMessageSize) then return .error (.invalidLength len msgType)
      else
        let totalLen := 1 + len
        if (← BytesMut.len) < totalLen then return .ok none
        else
          advance 5
          let payload ← splitTo (← checkedSub len 4)
          return .ok (some ⟨msgType, payload⟩)

open BytesMut in
def checkedTryReadMessageWithRaw : BytesMut (Except MessageError (Option (PgMessage × Bytes))) := do
  if (← BytesMut.len) < 5 then return .ok none
  else
    let msgType ← byte 0
    let len := asUsize (getI32 (← range 1 5))
    if ¬ (4 ≤ len ∧ len ≤ maxMessageSize) then return .error (.invalidLength len msgType)
    else
      let totalLen := 1 + len
      if (← BytesMut.len) < totalLen then return .ok none
      else
        let raw ← splitTo totalLen
        let payload ← slice raw 5 raw.length
        return .ok (some (⟨msgType, payload⟩, raw))

-- What a call returns, and the buffer as it leaves it.
def leaving {M : Type} (buf : Bytes) :
    Except MessageError (Option (M × Bytes)) → Except MessageError (Option M) × Bytes
  | .error error => (.error error, buf)
  | .ok none => (.ok none, buf)
  | .ok (some (msg, rest)) => (.ok (some msg), rest)

namespace BytesMut

variable {α : Type} {buf : Bytes}

theorem len_bind (f : Nat → BytesMut α) : (len >>= f) buf = f buf.length buf := rfl

theorem bind_ok {β : Type} {x : BytesMut β} {value : β} {after : Bytes} (ok : x buf = .ok (value, after))
    (f : β → BytesMut α) : (x >>= f) buf = f value after := by
  simp [bind, StateT.bind, Except.bind, ok]

theorem range_bind {first last : Nat} (order : first ≤ last) (within : last ≤ buf.length)
    (f : Bytes → BytesMut α) :
    (range first last >>= f) buf = f ((buf.drop first).take (last - first)) buf :=
  bind_ok (by rw [range, slice, if_pos ⟨order, within⟩, List.drop_take]; rfl) f

theorem byte_bind (long : 0 < buf.length) (f : UInt8 → BytesMut α) :
    (byte 0 >>= f) buf = f (buf.headD 0) buf := by
  cases buf with
  | nil => simp at long
  | cons first rest => exact bind_ok rfl f

theorem advance_bind {count : Nat} (within : count ≤ buf.length) (f : Unit → BytesMut α) :
    (advance count >>= f) buf = f () (buf.drop count) :=
  bind_ok (by simp [advance, slice, within, Except.map]) f

theorem splitTo_bind {count : Nat} (within : count ≤ buf.length) (f : Bytes → BytesMut α) :
    (splitTo count >>= f) buf = f (buf.take count) (buf.drop count) :=
  bind_ok (by simp [splitTo, slice, within, Except.map]) f

theorem lift_bind {β : Type} {x : Except Fault β} {value : β} (ok : x = .ok value)
    (f : β → BytesMut α) : ((liftM x : BytesMut β) >>= f) buf = f value buf :=
  bind_ok (by rw [ok]; rfl) f

end BytesMut

open MessageBoundaryScanner (checkedSub_ok)

theorem getI32_take {bytes : Bytes} (long : 4 ≤ bytes.length) : getI32 (bytes.take 4) = getI32 bytes := by
  conv_rhs => rw [← List.take_append_drop 4 bytes]
  rw [getI32_append _ _ (by simp; omega)]

theorem lengthField_range {buf : Bytes} (long : 5 ≤ buf.length) :
    asUsize (getI32 ((buf.drop 1).take (5 - 1))) = lengthField buf := by
  rw [getI32_take (by simp; omega), lengthField]

theorem checkedTryReadMessage_startup (buf : Bytes) :
    checkedTryReadMessage true buf = .ok (leaving buf (tryReadMessage buf true)) := by
  simp only [checkedTryReadMessage, tryReadMessage, if_true, BytesMut.len_bind]
  by_cases short : buf.length < 4
  · rw [if_pos short, if_pos short]
    rfl
  · rw [if_neg short, if_neg short, BytesMut.range_bind (by omega) (by omega), List.drop_zero,
      getI32_take (by omega)]
    by_cases bounds : 4 ≤ asUsize (getI32 buf) ∧ asUsize (getI32 buf) ≤ maxMessageSize
    · rw [if_neg (not_not.mpr bounds), if_neg (not_not.mpr bounds), BytesMut.len_bind]
      by_cases cut : buf.length < asUsize (getI32 buf)
      · rw [if_pos cut, if_pos cut]
        rfl
      · rw [if_neg cut, if_neg cut, BytesMut.advance_bind (by omega), BytesMut.lift_bind (checkedSub_ok (by omega)),
          BytesMut.splitTo_bind (by simp; omega)]
        rfl
    · rw [if_pos bounds, if_pos bounds]
      rfl

theorem checkedTryReadMessage_plain (buf : Bytes) :
    checkedTryReadMessage false buf = .ok (leaving buf (tryReadMessage buf false)) := by
  simp only [checkedTryReadMessage, tryReadMessage, Bool.false_eq_true, if_false, BytesMut.len_bind]
  by_cases short : buf.length < 5
  · rw [if_pos short, if_pos short]
    rfl
  · rw [if_neg short, if_neg short, BytesMut.byte_bind (by omega),
      BytesMut.range_bind (by omega) (by omega), lengthField_range (by omega)]
    by_cases bounds : 4 ≤ lengthField buf ∧ lengthField buf ≤ maxMessageSize
    · rw [if_neg (not_not.mpr bounds), if_neg (not_not.mpr bounds), BytesMut.len_bind]
      by_cases cut : buf.length < 1 + lengthField buf
      · rw [if_pos cut, if_pos cut]
        rfl
      · rw [if_neg cut, if_neg cut, BytesMut.advance_bind (by omega), BytesMut.lift_bind (checkedSub_ok (by omega)),
          BytesMut.splitTo_bind (by simp; omega)]
        rfl
    · rw [if_pos bounds, if_pos bounds]
      rfl

theorem checkedTryReadMessage_eq (isStartup : Bool) (buf : Bytes) :
    checkedTryReadMessage isStartup buf = .ok (leaving buf (tryReadMessage buf isStartup)) := by
  cases isStartup with
  | true => exact checkedTryReadMessage_startup buf
  | false => exact checkedTryReadMessage_plain buf

theorem checkedTryReadMessageWithRaw_eq (buf : Bytes) :
    checkedTryReadMessageWithRaw buf = .ok (leaving buf (tryReadMessageWithRaw buf)) := by
  simp only [checkedTryReadMessageWithRaw, tryReadMessageWithRaw, BytesMut.len_bind]
  by_cases short : buf.length < 5
  · rw [if_pos short, if_pos short]
    rfl
  · rw [if_neg short, if_neg short, BytesMut.byte_bind (by omega),
      BytesMut.range_bind (by omega) (by omega), lengthField_range (by omega)]
    by_cases bounds : 4 ≤ lengthField buf ∧ lengthField buf ≤ maxMessageSize
    · rw [if_neg (not_not.mpr bounds), if_neg (not_not.mpr bounds), BytesMut.len_bind]
      by_cases cut : buf.length < 1 + lengthField buf
      · rw [if_pos cut, if_pos cut]
        rfl
      · have payload : slice (buf.take (1 + lengthField buf)) 5 (buf.take (1 + lengthField buf)).length =
            .ok ((buf.take (1 + lengthField buf)).drop 5) := by
          rw [slice, if_pos ⟨by simp; omega, le_rfl⟩, List.take_length]
        rw [if_neg cut, if_neg cut, BytesMut.splitTo_bind (by omega), BytesMut.lift_bind payload]
        rfl
    · rw [if_pos bounds, if_pos bounds]
      rfl

theorem leaving_append {M : Type} (r : Reader UInt8 MessageError M) (incremental : r.Incremental)
    {buf : Bytes} (decided : r.read buf ≠ .ok none) (more : Bytes) :
    leaving (buf ++ more) (r.read (buf ++ more)) =
      ((leaving buf (r.read buf)).1, (leaving buf (r.read buf)).2 ++ more) := by
  cases read : r.read buf with
  | error error =>
    rw [incremental.failure read more]
    rfl
  | ok taken =>
    cases taken with
    | none => exact absurd read decided
    | some taken =>
      obtain ⟨msg, rest⟩ := taken
      rw [incremental.message read more]
      rfl

theorem leaving_map {M N : Type} (f : M → N) (buf : Bytes)
    (taken : Except MessageError (Option (M × Bytes))) :
    leaving buf (taken.map (Option.map fun taken => (f taken.1, taken.2))) =
      ((leaving buf taken).1.map (Option.map f), (leaving buf taken).2) := by
  cases taken with
  | error error => rfl
  | ok taken => cases taken <;> rfl

theorem checkedTryReadMessage_of_raw {buf rest : Bytes}
    {result : Except MessageError (Option (PgMessage × Bytes))}
    (read : checkedTryReadMessageWithRaw buf = .ok (result, rest)) :
    checkedTryReadMessage false buf = .ok (result.map (Option.map Prod.fst), rest) := by
  rw [checkedTryReadMessageWithRaw_eq, Except.ok.injEq] at read
  rw [checkedTryReadMessage_eq, tryReadMessage_eq]
  have mapped := leaving_map Prod.fst buf (tryReadMessageWithRaw buf)
  rw [read] at mapped
  exact congrArg Except.ok mapped

theorem leaving_kept {M : Type} {buf : Bytes} {taken : Except MessageError (Option (M × Bytes))}
    (kept : (leaving buf taken).1 = .ok none ∨ ∃ error, (leaving buf taken).1 = .error error) :
    (leaving buf taken).2 = buf := by
  cases taken with
  | error error => rfl
  | ok taken =>
    cases taken with
    | none => rfl
    | some taken => simp [leaving] at kept

theorem leaving_raw {buf raw : Bytes} {msg : PgMessage}
    (took : (leaving buf (tryReadMessageWithRaw buf)).1 = .ok (some (msg, raw))) :
    raw ++ (leaving buf (tryReadMessageWithRaw buf)).2 = buf := by
  cases read : tryReadMessageWithRaw buf with
  | error error => simp [read, leaving] at took
  | ok taken =>
    cases taken with
    | none => simp [read, leaving] at took
    | some taken =>
      obtain ⟨⟨other, bytes⟩, rest⟩ := taken
      simp only [read, leaving, Except.ok.injEq, Option.some.injEq, Prod.mk.injEq] at took
      obtain ⟨rfl, rfl⟩ := took
      exact (tryReadMessageWithRaw_some.mp read).1.symm

theorem checkedTryReadMessageWithRaw_append {buf rest : Bytes}
    {result : Except MessageError (Option (PgMessage × Bytes))}
    (read : checkedTryReadMessageWithRaw buf = .ok (result, rest)) (decided : result ≠ .ok none) (more : Bytes) :
    checkedTryReadMessageWithRaw (buf ++ more) = .ok (result, rest ++ more) := by
  rw [checkedTryReadMessageWithRaw_eq, Except.ok.injEq] at read
  have some_ : messageReader.read buf ≠ .ok none := by
    intro none_
    rw [show tryReadMessageWithRaw buf = .ok none from none_] at read
    exact decided (congrArg Prod.fst read).symm
  have later := leaving_append messageReader messageReader_incremental some_ more
  rw [show leaving buf (messageReader.read buf) = (result, rest) from read] at later
  rw [checkedTryReadMessageWithRaw_eq]
  exact congrArg Except.ok later

theorem readers_are_one_decoder :
    (∀ buf, ∃ result rest,
      checkedTryReadMessageWithRaw buf = .ok (result, rest) ∧
      checkedTryReadMessage false buf = .ok (result.map (Option.map Prod.fst), rest) ∧
      (∀ msg raw, result = .ok (some (msg, raw)) → raw ++ rest = buf) ∧
      ((result = .ok none ∨ ∃ error, result = .error error) → rest = buf) ∧
      (result ≠ .ok none → ∀ more,
        checkedTryReadMessageWithRaw (buf ++ more) = .ok (result, rest ++ more) ∧
        checkedTryReadMessage false (buf ++ more) = .ok (result.map (Option.map Prod.fst), rest ++ more))) ∧
    ∀ pieces : List Bytes,
      pieces.foldl messageReader.feed ([], [], .drained) = messageReader.takeAll pieces.flatten ∧
      pieces.foldl plainReader.feed ([], [], .drained) = plainReader.takeAll pieces.flatten := by
  constructor
  · intro buf
    cases read : leaving buf (tryReadMessageWithRaw buf) with
    | mk result rest =>
      have raws : checkedTryReadMessageWithRaw buf = .ok (result, rest) := by
        rw [checkedTryReadMessageWithRaw_eq, read]
      refine ⟨result, rest, raws, checkedTryReadMessage_of_raw raws, ?_, ?_, ?_⟩
      · intro msg raw took
        have split := @leaving_raw buf raw msg (by rw [read]; exact took)
        rwa [read] at split
      · intro kept
        have same := @leaving_kept _ buf (tryReadMessageWithRaw buf) (by rw [read]; exact kept)
        rwa [read] at same
      · intro decided more
        have later := checkedTryReadMessageWithRaw_append raws decided more
        exact ⟨later, checkedTryReadMessage_of_raw later⟩
  · intro pieces
    exact ⟨Reader.foldl_feed messageReader_incremental [] pieces,
      Reader.foldl_feed plainReader_incremental [] pieces⟩

theorem putI32_getI32 {bytes : Bytes} (long : 4 ≤ bytes.length) : putI32 (getI32 bytes) = bytes.take 4 := by
  match bytes, long with
  | a :: b :: c :: d :: rest, _ =>
    have first := a.toNat_lt
    have second := b.toNat_lt
    have third := c.toNat_lt
    have fourth := d.toNat_lt
    have low : (getI32 (a :: b :: c :: d :: rest) % 2 ^ 32).toNat =
        a.toNat * 2 ^ 24 + b.toNat * 2 ^ 16 + c.toNat * 2 ^ 8 + d.toNat := by
      simp only [getI32]
      split <;> omega
    simp only [putI32, low, List.take, List.cons.injEq, and_true]
    refine ⟨?_, ?_, ?_, ?_⟩ <;> apply UInt8.toNat_inj.mp <;> rw [UInt8.toNat_ofNat'] <;> omega

theorem putI32_stated {bytes : Bytes} (long : 4 ≤ bytes.length) (small : asUsize (getI32 bytes) < 2 ^ 31) :
    putI32 (asUsize (getI32 bytes)) = bytes.take 4 := by
  rw [← getI32_eq_asUsize small, putI32_getI32 long]

theorem PgMessage.encode_startup {msg : PgMessage} (startup : msg.msgType = 0) :
    msg.encode = putI32 (msg.payload.length + 4) ++ msg.payload := by
  simp [PgMessage.encode, startup]

theorem tryReadMessage_startup {msg : PgMessage} (startup : msg.msgType = 0)
    (small : msg.payload.length + 4 ≤ maxMessageSize) (rest : Bytes) :
    tryReadMessage (msg.encode ++ rest) true = .ok (some (msg, rest)) := by
  have bound : maxMessageSize < 2 ^ 31 := by decide
  have stated : asUsize (getI32 (msg.encode ++ rest)) = msg.payload.length + 4 := by
    rw [PgMessage.encode_startup startup, List.append_assoc]
    have read := getI32_putI32 (msg.payload.length + 4) (msg.payload ++ rest) (by omega)
    push_cast at read
    rw [read, asUsize]
    omega
  have size : (msg.encode ++ rest).length = 4 + msg.payload.length + rest.length := by
    simp [PgMessage.encode_startup startup, Nat.add_assoc]
  have behind : (msg.encode ++ rest).drop 4 = msg.payload ++ rest := by
    rw [PgMessage.encode_startup startup, List.append_assoc, List.drop_left' (putI32_length _)]
  simp only [tryReadMessage, if_true, stated, behind, Nat.add_sub_cancel, List.take_left, List.drop_left]
  rw [if_neg (by omega), if_neg (by omega), if_neg (by omega)]
  cases msg
  subst startup
  rfl

theorem tryReadMessage_plain {msg : PgMessage} (plain : msg.msgType ≠ 0)
    (small : msg.payload.length + 4 ≤ maxMessageSize) (rest : Bytes) :
    tryReadMessage (msg.encode ++ rest) false = .ok (some (msg, rest)) := by
  have bound : maxMessageSize < 2 ^ 31 := by decide
  have valid : msg.WellFormed := ⟨plain, by omega⟩
  have whole := PgMessage.isMessage_encode valid
  have stated : lengthField msg.encode = msg.payload.length + 4 := by
    have size := whole.size
    rw [PgMessage.encode_of_wellFormed valid] at size
    simp only [List.length_cons, List.length_append, putI32_length] at size
    rw [PgMessage.encode_of_wellFormed valid]
    omega
  have read := plainReader_accepted ⟨whole, by omega⟩ rest
  rwa [PgMessage.parseRaw_encode valid] at read

theorem encode_of_startup {buf rest : Bytes} {msg : PgMessage}
    (took : tryReadMessage buf true = .ok (some (msg, rest))) : msg.encode ++ rest = buf := by
  simp only [tryReadMessage, if_true] at took
  split_ifs at took with short bounds cut
  · simp at took
  · simp at took
  simp only [Except.ok.injEq, Option.some.injEq, Prod.mk.injEq] at took
  obtain ⟨rfl, rfl⟩ := took
  have bound : maxMessageSize < 2 ^ 31 := by decide
  have size : ((buf.drop 4).take (asUsize (getI32 buf) - 4)).length + 4 = asUsize (getI32 buf) := by
    simp only [List.length_take, List.length_drop]
    omega
  have header := putI32_stated (by omega) (show asUsize (getI32 buf) < 2 ^ 31 by omega)
  rw [← size] at header
  push_cast at header
  rw [PgMessage.encode_startup rfl, header, List.append_assoc, List.take_append_drop, List.take_append_drop]

theorem encode_of_accepted {raw : Bytes} (accepted : Accepted raw) (plain : (parseRaw raw).msgType ≠ 0) :
    (parseRaw raw).encode = raw := by
  obtain ⟨whole, -⟩ := accepted
  have long := whole.long
  have size := whole.size
  have upper := whole.upper
  cases raw with
  | nil => simp at long
  | cons first tail =>
    simp only [List.length_cons] at long size
    have stated : asUsize (getI32 tail) = (tail.drop 4).length + 4 := by
      have same : lengthField (first :: tail) = asUsize (getI32 tail) := rfl
      rw [List.length_drop]
      omega
    have header := putI32_stated (by omega) (show asUsize (getI32 tail) < 2 ^ 31 from upper)
    rw [stated] at header
    push_cast at header
    have payload : (parseRaw (first :: tail)).payload = tail.drop 4 := rfl
    have type : (parseRaw (first :: tail)).msgType = first := rfl
    rw [PgMessage.encode, if_pos plain, payload, header, type, List.append_assoc, List.take_append_drop]
    rfl

theorem encode_of_plain {buf rest : Bytes} {msg : PgMessage} (plain : msg.msgType ≠ 0)
    (took : tryReadMessage buf false = .ok (some (msg, rest))) : msg.encode ++ rest = buf := by
  obtain ⟨raw, rfl, accepted, rfl⟩ := tryReadMessage_some took
  rw [encode_of_accepted accepted plain]

theorem codec_round_trip :
    (∀ msg : PgMessage, msg.payload.length ≤ maxMessageSize - 4 → ∀ rest,
      tryReadMessage (msg.encode ++ rest) (msg.msgType = 0) = .ok (some (msg, rest))) ∧
    (∀ buf isStartup msg rest, tryReadMessage buf isStartup = .ok (some (msg, rest)) →
      (isStartup = false → msg.msgType ≠ 0) → msg.encode ++ rest = buf) ∧
    ∀ buf msg raw rest, tryReadMessageWithRaw buf = .ok (some ((msg, raw), rest)) →
      msg.msgType ≠ 0 → msg.encode = raw ∧ raw ++ rest = buf := by
  refine ⟨fun msg small rest => ?_, fun buf isStartup msg rest took plain => ?_,
    fun buf msg raw rest took plain => ?_⟩
  · have four : msg.payload.length + 4 ≤ maxMessageSize := by
      have least : 4 ≤ maxMessageSize := by decide
      omega
    by_cases startup : msg.msgType = 0
    · rw [decide_eq_true startup]
      exact tryReadMessage_startup startup four rest
    · rw [decide_eq_false startup]
      exact tryReadMessage_plain startup four rest
  · cases isStartup with
    | true => exact encode_of_startup took
    | false => exact encode_of_plain (plain rfl) took
  · obtain ⟨rfl, accepted, rfl⟩ := tryReadMessageWithRaw_some.mp took
    exact ⟨encode_of_accepted accepted plain, rfl⟩

-- A ReadyForQuery with one more byte behind it.
theorem codec_round_trip_ready :
    tryReadMessage ((readyForQuery 'I').encode ++ [67]) false = .ok (some (readyForQuery 'I', [67])) ∧
      (readyForQuery 'I').encode ++ [67] = [90, 0, 0, 0, 5, 73, 67] ∧
      (readyForQuery 'I').encode = [90, 0, 0, 0, 5, 73] :=
  ⟨codec_round_trip.1 (readyForQuery 'I') (by decide) [67],
    codec_round_trip.2.1 [90, 0, 0, 0, 5, 73, 67] false (readyForQuery 'I') [67] (by decide) (by decide),
    (codec_round_trip.2.2 [90, 0, 0, 0, 5, 73, 67] (readyForQuery 'I') [90, 0, 0, 0, 5, 73] [67] (by decide)
      (by decide)).1⟩

end PgMux
