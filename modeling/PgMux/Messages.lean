import Mathlib.Algebra.Order.Ring.Int
import Mathlib.Data.List.Basic
import Mathlib.Tactic.Common
import PgMux.Shared.Framing
import PgMux.Shared.Reader
import PgMux.Text

set_option autoImplicit false

namespace PgMux

abbrev Bytes := List UInt8

-- `get_i32`: the first four bytes, big endian, in two's complement.
def getI32 : Bytes → Int
  | a :: b :: c :: d :: _ =>
    let n : Nat := a.toNat * 2 ^ 24 + b.toNat * 2 ^ 16 + c.toNat * 2 ^ 8 + d.toNat
    if n < 2 ^ 31 then (n : Int) else (n : Int) - 2 ^ 32
  | _ => 0

-- `put_i32`, after the cast `as i32` has dropped all but the low 32 bits.
def putI32 (value : Int) : Bytes :=
  let n := (value % 2 ^ 32).toNat
  [UInt8.ofNat (n / 2 ^ 24), UInt8.ofNat (n / 2 ^ 16), UInt8.ofNat (n / 2 ^ 8), UInt8.ofNat n]

-- The cast `as usize` on a 64-bit target: a negative value becomes a huge one.
def asUsize (value : Int) : Nat := (value % 2 ^ 64).toNat

def asBytes (text : String) : Bytes := text.toByteArray.data.toList

def fromUtf8 (bytes : Bytes) : Option String := String.fromUTF8? ⟨bytes.toArray⟩

abbrev Chunk := { bytes : Bytes // bytes ≠ [] }

def joined (reads : List Chunk) : Bytes := (reads.map Subtype.val).flatten

def maxMessageSize : Nat := 64 * 1024 * 1024

structure PgMessage where
  msgType : UInt8
  payload : Bytes
deriving DecidableEq, Repr

def PgMessage.encode (msg : PgMessage) : Bytes :=
  (if msg.msgType ≠ 0 then [msg.msgType] else []) ++ putI32 (msg.payload.length + 4) ++ msg.payload

inductive MessageError where
  | invalidStartupLength (len : Nat)
  | invalidLength (len : Nat) (msgType : UInt8)
deriving DecidableEq, Repr

def MessageError.text : MessageError → String
  | .invalidStartupLength len => "Invalid startup message length: " ++ toString len
  | .invalidLength len msgType =>
    "Invalid message length: " ++ toString len ++ " for type '" ++
      String.singleton (Char.ofNat msgType.toNat) ++ "'"

def lengthField (buf : Bytes) : Nat := asUsize (getI32 (buf.drop 1))

def tryReadMessage (buf : Bytes) (isStartup : Bool) :
    Except MessageError (Option (PgMessage × Bytes)) :=
  if isStartup then
    if buf.length < 4 then .ok none
    else
      let len := asUsize (getI32 buf)
      if ¬ (4 ≤ len ∧ len ≤ maxMessageSize) then .error (.invalidStartupLength len)
      else if buf.length < len then .ok none
      else
        let buf := buf.drop 4
        .ok (some (⟨0, buf.take (len - 4)⟩, buf.drop (len - 4)))
  else
    if buf.length < 5 then .ok none
    else
      let msgType := buf.headD 0
      let len := lengthField buf
      if ¬ (4 ≤ len ∧ len ≤ maxMessageSize) then .error (.invalidLength len msgType)
      else if buf.length < 1 + len then .ok none
      else
        let buf := buf.drop 5
        .ok (some (⟨msgType, buf.take (len - 4)⟩, buf.drop (len - 4)))

def tryReadMessageWithRaw (buf : Bytes) :
    Except MessageError (Option ((PgMessage × Bytes) × Bytes)) :=
  if buf.length < 5 then .ok none
  else
    let msgType := buf.headD 0
    let len := lengthField buf
    if ¬ (4 ≤ len ∧ len ≤ maxMessageSize) then .error (.invalidLength len msgType)
    else
      let totalLen := 1 + len
      if buf.length < totalLen then .ok none
      else
        let raw := buf.take totalLen
        .ok (some ((⟨msgType, raw.drop 5⟩, raw), buf.drop totalLen))

def buildErrorLike (msgType : Char) (severity code message : String) : Bytes :=
  let payload := ['S'.toUInt8] ++ asBytes severity ++ [0] ++ ['V'.toUInt8] ++ asBytes severity ++ [0] ++
    ['C'.toUInt8] ++ asBytes code ++ [0] ++ ['M'.toUInt8] ++ asBytes message ++ [0] ++ [0]
  [msgType.toUInt8] ++ putI32 (payload.length + 4) ++ payload

def buildErrorResponse (severity code message : String) : Bytes :=
  buildErrorLike 'E' severity code message

def buildNoticeResponse (severity code message : String) : Bytes :=
  buildErrorLike 'N' severity code message

def buildAuthOk : Bytes := ['R'.toUInt8] ++ putI32 8 ++ putI32 0

def buildReadyForQuery (status : UInt8) : Bytes := ['Z'.toUInt8] ++ putI32 5 ++ [status]

def buildParameterStatus (name value : String) : Bytes :=
  let payload := asBytes name ++ [0] ++ asBytes value ++ [0]
  ['S'.toUInt8] ++ putI32 (payload.length + 4) ++ payload

def buildBackendKeyData (pid secret : Int) : Bytes :=
  ['K'.toUInt8] ++ putI32 12 ++ putI32 pid ++ putI32 secret

def isShrinkOperation (query : String) : Bool :=
  let upper := toUppercase (trim query.toList)
  "DELETE".toList.isPrefixOf upper || "TRUNCATE".toList.isPrefixOf upper ||
    "DROP".toList.isPrefixOf upper || "VACUUM".toList.isPrefixOf upper

def extractQueryText (msg : PgMessage) : Option String :=
  if msg.msgType = 'Q'.toUInt8 then
    match msg.payload.findIdx? (· = 0) with
    | some nullPos => fromUtf8 (msg.payload.take nullPos)
    | none => none
  else none

/-- The framing of normal messages: a type byte, a length that counts itself, and the payload. -/
def pgFormat : Framing.Format UInt8 where
  headerSize := 5
  bodySize header := lengthField header - 4
  header_pos := by decide

/-- The bytes of one whole message whose stated length a reader can trust. -/
structure IsMessage (raw : Bytes) : Prop where
  lower : 4 ≤ lengthField raw
  upper : lengthField raw < 2 ^ 31
  size : raw.length = 1 + lengthField raw

instance (raw : Bytes) : Decidable (IsMessage raw) :=
  decidable_of_iff (4 ≤ lengthField raw ∧ lengthField raw < 2 ^ 31 ∧ raw.length = 1 + lengthField raw)
    ⟨fun h => ⟨h.1, h.2.1, h.2.2⟩, fun h => ⟨h.lower, h.upper, h.size⟩⟩

def Accepted (raw : Bytes) : Prop := IsMessage raw ∧ lengthField raw ≤ maxMessageSize

instance (raw : Bytes) : Decidable (Accepted raw) := inferInstanceAs (Decidable (_ ∧ _))

def parseRaw (raw : Bytes) : PgMessage := ⟨raw.headD 0, raw.drop 5⟩

def PgMessage.WellFormed (msg : PgMessage) : Prop :=
  msg.msgType ≠ 0 ∧ msg.payload.length + 4 < 2 ^ 31

instance (msg : PgMessage) : Decidable msg.WellFormed := inferInstanceAs (Decidable (_ ∧ _))

def wire (msgs : List PgMessage) : Bytes := msgs.flatMap PgMessage.encode

theorem getI32_append (bytes more : Bytes) (long : 4 ≤ bytes.length) :
    getI32 (bytes ++ more) = getI32 bytes := by
  match bytes, long with
  | _ :: _ :: _ :: _ :: _, _ => rfl

theorem lengthField_append (bytes more : Bytes) (long : 5 ≤ bytes.length) :
    lengthField (bytes ++ more) = lengthField bytes := by
  rw [lengthField, List.drop_append_of_le_length (by omega), getI32_append _ _ (by simp; omega),
    lengthField]

theorem lengthField_take {bytes : Bytes} (long : 5 ≤ bytes.length) :
    lengthField (bytes.take 5) = lengthField bytes := by
  conv_rhs => rw [← List.take_append_drop 5 bytes]
  rw [lengthField_append _ _ (by simp; omega)]

theorem getI32_putI32 (n : Nat) (rest : Bytes) (small : n < 2 ^ 31) :
    getI32 (putI32 n ++ rest) = n := by
  have low : (((n : Int) % 2 ^ 32).toNat) = n := by omega
  simp only [putI32, low, getI32, List.cons_append, UInt8.toNat_ofNat']
  omega

theorem getI32_range (buf : Bytes) : -2 ^ 31 ≤ getI32 buf ∧ getI32 buf < 2 ^ 31 := by
  rw [getI32.eq_def]
  split
  · rename_i a b c d _
    have first := a.toNat_lt
    have second := b.toNat_lt
    have third := c.toNat_lt
    have fourth := d.toNat_lt
    dsimp only
    split <;> omega
  · omega

theorem getI32_lt (buf : Bytes) : getI32 buf < 2 ^ 31 := (getI32_range buf).2

theorem getI32_eq_asUsize {buf : Bytes} (small : asUsize (getI32 buf) < 2 ^ 31) :
    getI32 buf = (asUsize (getI32 buf) : Int) := by
  have range := getI32_range buf
  rw [asUsize] at small ⊢
  omega

@[simp] theorem putI32_length (value : Int) : (putI32 value).length = 4 := rfl

theorem IsMessage.long {raw : Bytes} (message : IsMessage raw) : 5 ≤ raw.length := by
  have := message.lower
  have := message.size
  omega

theorem IsMessage.isFrame {raw : Bytes} (message : IsMessage raw) : Framing.IsFrame pgFormat raw := by
  have long := message.long
  have stated := lengthField_take long
  refine ⟨long, ?_⟩
  have := message.lower
  have := message.size
  simp only [pgFormat, stated]
  omega

theorem PgMessage.encode_of_wellFormed {msg : PgMessage} (valid : msg.WellFormed) :
    msg.encode = msg.msgType :: (putI32 (msg.payload.length + 4) ++ msg.payload) := by
  simp [PgMessage.encode, valid.1]

theorem PgMessage.isMessage_encode {msg : PgMessage} (valid : msg.WellFormed) :
    IsMessage msg.encode := by
  have small := valid.2
  have stated : lengthField msg.encode = msg.payload.length + 4 := by
    rw [encode_of_wellFormed valid, lengthField, List.drop_one, List.tail_cons]
    have read : getI32 (putI32 (msg.payload.length + 4) ++ msg.payload) = msg.payload.length + 4 :=
      getI32_putI32 (msg.payload.length + 4) msg.payload small
    rw [read, asUsize]
    omega
  refine ⟨by omega, by omega, ?_⟩
  rw [stated, encode_of_wellFormed valid]
  simp only [List.length_cons, List.length_append, putI32_length]
  omega

theorem PgMessage.parseRaw_encode {msg : PgMessage} (valid : msg.WellFormed) :
    parseRaw msg.encode = msg := by
  rw [encode_of_wellFormed valid]
  simp [parseRaw, putI32]

theorem PgMessage.headD_encode {msg : PgMessage} (valid : msg.WellFormed) :
    msg.encode.headD 0 = msg.msgType := by
  rw [encode_of_wellFormed valid]
  rfl

theorem wire_frames (msgs : List PgMessage) : wire msgs = (msgs.map PgMessage.encode).flatten :=
  List.flatMap_def

theorem wire_append (first second : List PgMessage) :
    wire (first ++ second) = wire first ++ wire second :=
  List.flatMap_append

theorem frames_of_wellFormed {msgs : List PgMessage} (valid : ∀ msg ∈ msgs, msg.WellFormed) :
    ∀ frame ∈ msgs.map PgMessage.encode, Framing.IsFrame pgFormat frame := by
  intro frame member
  obtain ⟨msg, sent, rfl⟩ := List.mem_map.mp member
  exact (PgMessage.isMessage_encode (valid msg sent)).isFrame

theorem atBoundary_wire {msgs : List PgMessage} {first second : Bytes}
    (valid : ∀ msg ∈ msgs, msg.WellFormed) (whole : Framing.AtBoundary pgFormat first)
    (stream : wire msgs = first ++ second) :
    ∃ k, first = wire (msgs.take k) ∧ second = wire (msgs.drop k) := by
  rw [wire_frames] at stream
  obtain ⟨k, taken, dropped⟩ := whole.take_of_flatten (frames_of_wellFormed valid) stream
  exact ⟨k, by rw [taken, wire_frames, List.map_take], by rw [dropped, wire_frames, List.map_drop]⟩

theorem asBytes_append (first second : String) :
    asBytes (first ++ second) = asBytes first ++ asBytes second := by
  simp [asBytes, String.toByteArray_append]

theorem asBytes_of_fromUtf8 {bytes : Bytes} {text : String} (decoded : fromUtf8 bytes = some text) :
    asBytes text = bytes := by
  simp only [fromUtf8, String.fromUTF8?] at decoded
  split at decoded
  · obtain rfl := Option.some.inj decoded
    rfl
  · simp at decoded

theorem fromUtf8_asBytes (text : String) : fromUtf8 (asBytes text) = some text := by
  have valid : (⟨(asBytes text).toArray⟩ : ByteArray).IsValidUTF8 := text.isValidUTF8
  simp only [fromUtf8, String.fromUTF8?, dif_pos valid]
  rfl

theorem extractQueryText_some {msg : PgMessage} {text : String} :
    extractQueryText msg = some text ↔
      msg.msgType = 'Q'.toUInt8 ∧ 0 ∉ asBytes text ∧ ∃ rest, msg.payload = asBytes text ++ 0 :: rest := by
  simp only [extractQueryText]
  constructor
  · intro found
    split at found
    · rename_i query
      split at found
      · rename_i nullPos first
        obtain ⟨bound, zero, before⟩ := List.findIdx?_eq_some_iff_getElem.mp first
        have bytes := asBytes_of_fromUtf8 found
        refine ⟨query, ?_, msg.payload.drop (nullPos + 1), ?_⟩
        · rw [bytes]
          intro member
          obtain ⟨i, small, is⟩ := List.mem_iff_getElem.mp member
          have at_ := before i (by simp at small; omega)
          simp only [List.getElem_take] at is
          simp [is] at at_
        · rw [bytes]
          conv_lhs => rw [← List.take_append_drop nullPos msg.payload, List.drop_eq_getElem_cons bound]
          simp only [decide_eq_true_eq] at zero
          rw [zero]
      · simp at found
    · simp at found
  · rintro ⟨query, clean, rest, payload⟩
    rw [if_pos query]
    have first : msg.payload.findIdx? (fun byte => decide (byte = 0)) = some (asBytes text).length := by
      rw [List.findIdx?_eq_some_iff_getElem]
      refine ⟨by simp [payload], by simp [payload], fun j below => ?_⟩
      simp only [payload, List.getElem_append_left below, decide_eq_true_eq]
      exact fun is => clean (is ▸ List.getElem_mem below)
    rw [first]
    simp only [payload, List.take_left, fromUtf8_asBytes]

theorem tryReadMessageWithRaw_none {buf : Bytes} :
    tryReadMessageWithRaw buf = .ok none ↔
      buf.length < 5 ∨ (4 ≤ lengthField buf ∧ lengthField buf ≤ maxMessageSize ∧
        buf.length < 1 + lengthField buf) := by
  simp only [tryReadMessageWithRaw]
  split_ifs <;> grind

theorem tryReadMessageWithRaw_error {buf : Bytes} {e : MessageError} :
    tryReadMessageWithRaw buf = .error e ↔
      5 ≤ buf.length ∧ ¬ (4 ≤ lengthField buf ∧ lengthField buf ≤ maxMessageSize) ∧
        e = .invalidLength (lengthField buf) (buf.headD 0) := by
  simp only [tryReadMessageWithRaw]
  split_ifs <;> grind

theorem not_frame_of_drained {frame rest : Bytes} (isFrame : Framing.IsFrame pgFormat frame) :
    tryReadMessageWithRaw (frame ++ rest) ≠ .ok none := by
  intro drained
  have long : 5 ≤ frame.length := isFrame.header
  have size := isFrame.size
  have stated := lengthField_take long
  simp only [pgFormat, stated] at size
  rw [tryReadMessageWithRaw_none, lengthField_append _ _ long, List.length_append] at drained
  omega

theorem tryReadMessageWithRaw_append {raw : Bytes} (accepted : Accepted raw) (rest : Bytes) :
    tryReadMessageWithRaw (raw ++ rest) = .ok (some ((parseRaw raw, raw), rest)) := by
  obtain ⟨message, bounded⟩ := accepted
  have long := message.long
  have lower := message.lower
  have size := message.size
  have head : (raw ++ rest).headD 0 = raw.headD 0 := by
    cases raw with
    | nil => simp at long
    | cons a tail => rfl
  simp only [tryReadMessageWithRaw, lengthField_append raw rest long, ← size, head,
    List.take_left', List.drop_left', parseRaw]
  rw [if_neg (by simp; omega), if_neg (by omega), if_neg (by simp)]

theorem tryReadMessageWithRaw_some {buf raw rest : Bytes} {msg : PgMessage} :
    tryReadMessageWithRaw buf = .ok (some ((msg, raw), rest)) ↔
      buf = raw ++ rest ∧ Accepted raw ∧ msg = parseRaw raw := by
  constructor
  · intro taken
    simp only [tryReadMessageWithRaw] at taken
    split_ifs at taken with short range cut
    · simp at taken
    · simp at taken
    simp only [Except.ok.injEq, Option.some.injEq, Prod.mk.injEq] at taken
    obtain ⟨⟨rfl, rfl⟩, rfl⟩ := taken
    have long : 5 ≤ (buf.take (1 + lengthField buf)).length := by simp; omega
    have stated : lengthField (buf.take (1 + lengthField buf)) = lengthField buf := by
      conv_rhs => rw [← List.take_append_drop (1 + lengthField buf) buf]
      rw [lengthField_append _ _ long]
    have head : (buf.take (1 + lengthField buf)).headD 0 = buf.headD 0 := by
      cases buf with
      | nil => rfl
      | cons a tail => simp [Nat.add_comm 1]
    have size : (buf.take (1 + lengthField buf)).length = 1 + lengthField buf := by
      rw [List.length_take]; omega
    have small : maxMessageSize < 2 ^ 31 := by decide
    refine ⟨(List.take_append_drop _ _).symm, ⟨⟨?_, ?_, ?_⟩, ?_⟩, ?_⟩
    · omega
    · omega
    · rw [size, stated]
    · omega
    · rw [parseRaw, head]
  · rintro ⟨rfl, accepted, rfl⟩
    exact tryReadMessageWithRaw_append accepted rest

def messageReader : Reader UInt8 MessageError (PgMessage × Bytes) where
  read := tryReadMessageWithRaw
  shrinks := by
    rintro buf ⟨msg, raw⟩ rest taken
    obtain ⟨rfl, accepted, -⟩ := tryReadMessageWithRaw_some.mp taken
    have := accepted.1.long
    simp only [List.length_append]
    omega

theorem messageReader_incremental : messageReader.Incremental where
  message := by
    rintro buf ⟨msg, raw⟩ rest taken more
    obtain ⟨rfl, accepted, rfl⟩ := tryReadMessageWithRaw_some.mp taken
    rw [List.append_assoc]
    exact tryReadMessageWithRaw_append accepted (rest ++ more)
  failure := by
    intro buf e failed more
    obtain ⟨long, bad, rfl⟩ := tryReadMessageWithRaw_error.mp failed
    apply tryReadMessageWithRaw_error.mpr
    rw [lengthField_append buf more long]
    refine ⟨by simp; omega, bad, ?_⟩
    cases buf with
    | nil => simp at long
    | cons a tail => rfl

theorem passes_frames {S R : Type} {body : S → PgMessage × Bytes → S × Option R} {s after : S}
    {buf rest : Bytes} {ms : List (PgMessage × Bytes)}
    (passes : messageReader.Passes body s buf ms after rest) :
    buf = (ms.map Prod.snd).flatten ++ rest ∧ ∀ raw ∈ ms.map Prod.snd, Accepted raw := by
  induction passes with
  | refl s buf => simp
  | head took continued tail ih =>
    obtain ⟨rfl, accepted, -⟩ := tryReadMessageWithRaw_some.mp took
    obtain ⟨rfl, each⟩ := ih
    refine ⟨by simp, ?_⟩
    simpa [accepted] using each

theorem frames_of_accepted {raws : List Bytes} (accepted : ∀ raw ∈ raws, Accepted raw) :
    ∀ raw ∈ raws, Framing.IsFrame pgFormat raw :=
  fun raw member => (accepted raw member).1.isFrame

theorem parsed_of_passes {S R : Type} {body : S → PgMessage × Bytes → S × Option R} {s after : S}
    {buf rest : Bytes} {ms : List (PgMessage × Bytes)}
    (passes : messageReader.Passes body s buf ms after rest) : ∀ m ∈ ms, m.1 = parseRaw m.2 := by
  induction passes with
  | refl s buf => simp
  | head took continued tail ih =>
    obtain ⟨-, -, parsed⟩ := tryReadMessageWithRaw_some.mp took
    simpa [parsed] using ih

theorem passes_of_accepted {S R : Type} {body : S → PgMessage × Bytes → S × Option R}
    (endless : ∀ s m, (body s m).2 = none) {raws : List Bytes} (accepted : ∀ raw ∈ raws, Accepted raw)
    (s : S) (rest : Bytes) :
    ∃ after, messageReader.Passes body s (raws.flatten ++ rest)
      (raws.map fun raw => (parseRaw raw, raw)) after rest := by
  induction raws generalizing s with
  | nil => exact ⟨s, .refl s rest⟩
  | cons raw others ih =>
    have took : messageReader.read (raw ++ (others.flatten ++ rest)) =
        .ok (some ((parseRaw raw, raw), others.flatten ++ rest)) :=
      tryReadMessageWithRaw_append (accepted raw (by simp)) _
    have goes : body s (parseRaw raw, raw) = ((body s (parseRaw raw, raw)).1, none) :=
      Prod.ext rfl (endless s _)
    obtain ⟨after, tail⟩ := ih (fun other member => accepted other (by simp [member]))
      (body s (parseRaw raw, raw)).1
    refine ⟨after, ?_⟩
    rw [List.flatten_cons, List.append_assoc]
    exact .head took goes tail

def completeMessages (buf : Bytes) : List Bytes := (messageReader.takeAll buf).1.map Prod.snd

theorem takeAll_of_accepted {raws : List Bytes} (accepted : ∀ raw ∈ raws, Accepted raw) {rest : Bytes} :
    (tryReadMessageWithRaw rest = .ok none → messageReader.takeAll (raws.flatten ++ rest) =
        (raws.map fun raw => (parseRaw raw, raw), rest, .drained)) ∧
      ∀ e, tryReadMessageWithRaw rest = .error e → messageReader.takeAll (raws.flatten ++ rest) =
        (raws.map fun raw => (parseRaw raw, raw), rest, .failed e) := by
  obtain ⟨after, passes⟩ := @passes_of_accepted Unit Empty (fun _ _ => ((), none)) (fun _ _ => rfl) raws
    accepted () rest
  exact passes.takeAll

theorem completeMessages_of_accepted {raws : List Bytes} (accepted : ∀ raw ∈ raws, Accepted raw)
    {rest : Bytes} (ends : tryReadMessageWithRaw rest = .ok none ∨ ∃ e, tryReadMessageWithRaw rest = .error e) :
    completeMessages (raws.flatten ++ rest) = raws := by
  rw [completeMessages]
  obtain drained | ⟨e, failed⟩ := ends
  · rw [(takeAll_of_accepted accepted).1 drained]
    simp [Function.comp_def]
  · rw [(takeAll_of_accepted accepted).2 e failed]
    simp [Function.comp_def]

theorem tryReadMessage_eq (buf : Bytes) :
    tryReadMessage buf false =
      (tryReadMessageWithRaw buf).map (Option.map fun taken => (taken.1.1, taken.2)) := by
  simp only [tryReadMessage, tryReadMessageWithRaw, Bool.false_eq_true, if_false]
  split_ifs with short range cut
  · rfl
  · rfl
  · have four : 1 + lengthField buf = 5 + (lengthField buf - 4) := by omega
    simp only [Except.map, Option.map_some, List.drop_drop, four, List.drop_take,
      Nat.add_sub_cancel_left]
  · rfl

def query (text : String) : PgMessage := ⟨'Q'.toUInt8, asBytes text ++ [0]⟩

def commandComplete (tag : String) : PgMessage := ⟨'C'.toUInt8, asBytes tag ++ [0]⟩

def readyForQuery (status : Char) : PgMessage := ⟨'Z'.toUInt8, [status.toUInt8]⟩

end PgMux
