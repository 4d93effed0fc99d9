import PgMux.Client.Startup

set_option autoImplicit false

namespace PgMux

def sslRequest : Bytes := putI32 8 ++ putI32 sslRequestCode

structure IsStartup (raw : Bytes) : Prop where
  long : 8 ≤ raw.length
  size : getI32 raw = raw.length
  ssl : getI32 (raw.drop 4) ≠ sslRequestCode
  cancel : getI32 (raw.drop 4) ≠ cancelRequestCode

theorem getI32_prefix {buf bytes : Bytes} (front : buf <+: bytes) (long : 4 ≤ buf.length) :
    getI32 bytes = getI32 buf := by
  obtain ⟨more, rfl⟩ := front
  exact getI32_append buf more long

theorem asUsize_cast {n : Nat} (small : n < 2 ^ 31) : asUsize n = n := by
  rw [asUsize]
  omega

theorem asI32_cast {n : Nat} (small : n < 2 ^ 31) : asI32 n = n := by
  have low : n % 2 ^ 32 = n := Nat.mod_eq_of_lt (by omega)
  rw [asI32, low]
  exact if_pos small

theorem IsStartup.small {raw : Bytes} (is : IsStartup raw) : raw.length < 2 ^ 31 := by
  have bound := getI32_lt raw
  rw [is.size] at bound
  exact_mod_cast bound

theorem sslRequest_length : sslRequest.length = 8 := rfl

theorem getI32_sslRequest (more : Bytes) : getI32 (sslRequest ++ more) = 8 := by
  rw [sslRequest, List.append_assoc]
  exact getI32_putI32 8 _ (by omega)

theorem getI32_sslRequest_code (more : Bytes) : getI32 ((sslRequest ++ more).drop 4) = sslRequestCode := by
  rw [sslRequest, List.append_assoc, List.drop_left' (putI32_length 8)]
  exact getI32_putI32 80877103 more (by omega)

/-- What a client sends: perhaps an SSLRequest, its startup message, and what it sends behind that, a
password message first. -/
structure ClientStream where
  ssl : Bool
  startup : Bytes
  isStartup : IsStartup startup
  behind : Bytes

def ClientStream.bytes (c : ClientStream) : Bytes :=
  (if c.ssl then sslRequest else []) ++ c.startup ++ c.behind

-- A read of the client's socket, and what the proxy phase loads in the pass that it starts.
structure ClientRead where
  chunk : Chunk
  loads : Loads

structure Dialogue where
  arrival : Arrival := {}
  sent : Bytes := []
deriving DecidableEq, Repr

namespace Dialogue

def step (cfg : Config) (tls : Bool) (s : Dialogue) (read : ClientRead) : Option Dialogue :=
  some ⟨s.arrival.pass cfg tls (.ok read.chunk.1) read.loads, s.sent ++ read.chunk.1⟩

def sslReply (tls : Bool) : Bytes := if tls then asBytes "S" else asBytes "N"

-- A message with a length in front of it is there as a whole.
def Whole (buf : Bytes) : Prop := 4 ≤ buf.length ∧ asUsize (getI32 buf) ≤ buf.length

instance (buf : Bytes) : Decidable (Whole buf) := inferInstanceAs (Decidable (_ ∧ _))

def payloadOf (buf : Bytes) : Bytes := (buf.drop 4).take (asUsize (getI32 buf) - 4)

def behindStartup (buf : Bytes) : Bytes := buf.drop (asUsize (getI32 buf))

def withPassword (replies : List Bytes) (startupInfo : ClientStartupInfo) (rest : Bytes) : Arrival :=
  match tryReadMessage rest false with
  | .error error => { stage := .returned (.error (.message error)), replies := replies }
  | .ok none => { stage := .password startupInfo, buf := rest, replies := replies }
  | .ok (some (msg, further)) =>
    { stage := handlePassword startupInfo msg, replies := replies, forwarded := further }

def withStartup (replies : List Bytes) (buf : Bytes) : Arrival :=
  if Whole buf then
    let replies := replies ++ (handleStartup (payloadOf buf)).1
    match (handleStartup (payloadOf buf)).2 with
    | .password startupInfo => withPassword replies startupInfo (behindStartup buf)
    | stage => { stage := stage, replies := replies }
  else { buf := buf, replies := replies }

/-- Where the handshake is when each message has come in a read of its own, and what the proxy phase
has then forwarded. -/
def ideal (tls : Bool) (bytes : Bytes) : Arrival :=
  if sslRequest <+: bytes then withStartup [sslReply tls] (bytes.drop 8) else withStartup [] bytes

def Waiting : ClientStage → Prop
  | .startup | .password _ => True
  | _ => False

def Proxying : ClientStage → Prop
  | .proxying _ => True
  | _ => False

structure Matches (tls : Bool) (s : Dialogue) : Prop where
  stage : s.arrival.stage = (ideal tls s.sent).stage
  replies : s.arrival.replies = (ideal tls s.sent).replies
  kept : Waiting s.arrival.stage → s.arrival.buf = (ideal tls s.sent).buf
  forwarded : Proxying s.arrival.stage → s.arrival.forwarded = (ideal tls s.sent).forwarded

-- The check in front of the loop's parsing, which sees the low 32 bits of the length.
def Seen (buf : Bytes) : Prop := getI32 buf ≤ asI32 buf.length

instance (buf : Bytes) : Decidable (Seen buf) := inferInstanceAs (Decidable (_ ≤ _))

structure Fits (tls : Bool) (stage : ClientStage) (buf : Bytes) : Prop where
  ssl : stage = .startup → sslRequest <+: buf →
    Seen buf ∧ if tls then ¬ Whole (buf.drop 8) else buf = sslRequest
  startup : stage = .startup → ¬ sslRequest <+: buf → Whole buf →
    Seen buf ∧ ∀ startupInfo, (handleStartup (payloadOf buf)).2 = .password startupInfo →
      tryReadMessage (behindStartup buf) false = .ok none
  password : ∀ startupInfo msg rest password, stage = .password startupInfo →
    tryReadMessage buf false = .ok (some (msg, rest)) → passwordOf msg = .ok password → rest = []

def Smooth (tls : Bool) (s : Dialogue) (read : ClientRead) : Prop :=
  Fits tls s.arrival.stage (s.arrival.buf ++ read.chunk.1)

section Front

variable {raw rest buf : Bytes} (is : IsStartup raw)

theorem startup_or_short (front : buf <+: raw ++ rest) :
    buf.length < raw.length ∨ ∃ left, buf = raw ++ left := by
  by_cases short : buf.length < raw.length
  · exact .inl short
  · obtain ⟨left, same⟩ := List.prefix_of_prefix_length_le (List.prefix_append raw rest) front (by omega)
    exact .inr ⟨left, same.symm⟩

include is

theorem getI32_startup (front : buf <+: raw ++ rest) (long : 4 ≤ buf.length) : getI32 buf = raw.length := by
  have same := getI32_prefix front long
  have four : 4 ≤ raw.length := by have := is.long; omega
  rw [getI32_append raw rest four, is.size] at same
  exact same.symm

theorem not_whole_short (front : buf <+: raw ++ rest) (short : buf.length < raw.length) : ¬ Whole buf := by
  rintro ⟨long, fits⟩
  rw [getI32_startup is front long, asUsize_cast is.small] at fits
  omega

theorem asUsize_startup (left : Bytes) : asUsize (getI32 (raw ++ left)) = raw.length := by
  have four : 4 ≤ raw.length := by have := is.long; omega
  rw [getI32_append raw left four, is.size, asUsize_cast is.small]

theorem whole_startup (left : Bytes) : Whole (raw ++ left) := by
  have eight := is.long
  refine ⟨by simp; omega, ?_⟩
  rw [asUsize_startup is]
  simp

theorem payloadOf_startup (left : Bytes) : payloadOf (raw ++ left) = raw.drop 4 := by
  have eight := is.long
  rw [payloadOf, asUsize_startup is, List.drop_append_of_le_length (by omega)]
  exact List.take_left' (by simp)

theorem behindStartup_startup (left : Bytes) : behindStartup (raw ++ left) = left := by
  rw [behindStartup, asUsize_startup is, List.drop_left]

theorem not_ssl_startup (front : buf <+: raw ++ rest) : ¬ sslRequest <+: buf := by
  intro ssl
  have eight := is.long
  obtain ⟨more, same⟩ := ssl.trans front
  have code : getI32 ((raw ++ rest).drop 4) = sslRequestCode := by
    rw [← same, getI32_sslRequest_code]
  rw [List.drop_append_of_le_length (by omega), getI32_append _ _ (by simp; omega)] at code
  exact is.ssl code

end Front

theorem readInitial_wait (tls : Bool) {buf : Bytes}
    (cut : buf.length < 4 ∨ 4 ≤ buf.length ∧ asI32 buf.length < getI32 buf) :
    readInitial tls buf = ([], .startup, buf) := by
  rw [readInitial]
  obtain short | ⟨long, less⟩ := cut
  · exact if_pos short
  · rw [if_neg (by omega), if_pos less]

theorem readInitial_short (tls : Bool) {raw rest buf : Bytes} (is : IsStartup raw)
    (front : buf <+: raw ++ rest) (short : buf.length < raw.length) :
    readInitial tls buf = ([], .startup, buf) := by
  refine readInitial_wait tls ?_
  by_cases long : 4 ≤ buf.length
  · refine .inr ⟨long, ?_⟩
    have small := is.small
    rw [getI32_startup is front long, asI32_cast (by omega)]
    omega
  · exact .inl (by omega)

theorem readInitial_startup (tls : Bool) {raw left : Bytes} (is : IsStartup raw)
    (seen : Seen (raw ++ left)) :
    readInitial tls (raw ++ left) =
      ((handleStartup (raw.drop 4)).1, (handleStartup (raw.drop 4)).2, left) := by
  have eight := is.long
  have long : 8 ≤ (raw ++ left).length := by simp; omega
  have code : getI32 ((raw ++ left).drop 4) = getI32 (raw.drop 4) := by
    rw [List.drop_append_of_le_length (by omega), getI32_append _ _ (by simp; omega)]
  have payload := payloadOf_startup is left
  have behind := behindStartup_startup is left
  rw [payloadOf, asUsize_startup is] at payload
  rw [behindStartup, asUsize_startup is] at behind
  rw [readInitial, if_neg (by omega), if_neg (by rw [Seen] at seen; omega), code,
    if_neg (fun ssl => is.ssl ssl.2), if_neg (fun cancel => is.cancel cancel.2)]
  dsimp only
  rw [asUsize_startup is, if_neg (by simp), if_neg (by omega), payload, behind]

theorem readInitial_ssl (tls : Bool) (more : Bytes) (seen : Seen (sslRequest ++ more)) :
    readInitial tls (sslRequest ++ more) = ([sslReply tls], .startup, if tls then more else []) := by
  have eight := sslRequest_length
  have long : 8 ≤ (sslRequest ++ more).length := by simp; omega
  rw [readInitial, if_neg (by omega), if_neg (by rw [Seen] at seen; omega), if_pos ⟨long, getI32_sslRequest_code more⟩]
  cases tls with
  | true => rw [if_pos rfl, if_pos rfl, sslReply, if_pos rfl, List.drop_left' eight]
  | false => rfl

theorem handleStartup_stage (payload : Bytes) : (handleStartup payload).2 ≠ .startup ∧
    ∀ startupInfo, (handleStartup payload).2 ≠ .proxying startupInfo := by
  rw [handleStartup]
  split
  · simp
  · split
    · simp
    · split <;> simp

theorem handlePassword_stage (startupInfo : ClientStartupInfo) (msg : PgMessage) :
    ¬ Waiting (handlePassword startupInfo msg) := by
  rw [handlePassword]
  split <;> exact fun waiting => waiting

theorem whole_append {buf : Bytes} (whole : Whole buf) (more : Bytes) :
    Whole (buf ++ more) ∧ payloadOf (buf ++ more) = payloadOf buf ∧
      behindStartup (buf ++ more) = behindStartup buf ++ more := by
  obtain ⟨long, fits⟩ := whole
  have same := getI32_append buf more long
  refine ⟨⟨by simp; omega, by rw [same, List.length_append]; omega⟩, ?_, ?_⟩
  · rw [payloadOf, payloadOf, same, List.drop_append_of_le_length long,
      List.take_append_of_le_length (by simp; omega)]
  · rw [behindStartup, behindStartup, same, List.drop_append_of_le_length fits]

theorem ssl_append {buf : Bytes} (whole : Whole buf) (more : Bytes) :
    sslRequest <+: buf ++ more ↔ sslRequest <+: buf := by
  constructor
  · intro ssl
    by_cases long : 8 ≤ buf.length
    · exact List.prefix_of_prefix_length_le ssl (List.prefix_append buf more) (by rwa [sslRequest_length])
    · obtain ⟨four, fits⟩ := whole
      have front : buf <+: sslRequest :=
        List.prefix_of_prefix_length_le (List.prefix_append buf more) ssl (by rw [sslRequest_length]; omega)
      have eight := getI32_sslRequest []
      rw [List.append_nil, getI32_prefix front four] at eight
      have asked : asUsize 8 = 8 := by decide
      rw [eight, asked] at fits
      omega
  · exact fun ssl => ssl.trans (List.prefix_append buf more)

-- A handshake that has come to its end only forwards what comes behind.
structure Extends (a b : Arrival) (more : Bytes) : Prop where
  stage : b.stage = a.stage
  replies : b.replies = a.replies
  forwarded : Proxying a.stage → b.forwarded = a.forwarded ++ more

theorem withPassword_extends {replies : List Bytes} {startupInfo : ClientStartupInfo} {rest : Bytes}
    (settled : ¬ Waiting (withPassword replies startupInfo rest).stage) (more : Bytes) :
    Extends (withPassword replies startupInfo rest) (withPassword replies startupInfo (rest ++ more)) more := by
  cases read : tryReadMessage rest false with
  | error error =>
    have later : tryReadMessage (rest ++ more) false = .error error := plainReader_incremental.failure read more
    rw [withPassword, withPassword, read, later]
    exact ⟨rfl, rfl, fun proxying => proxying.elim⟩
  | ok taken =>
    cases taken with
    | none =>
      rw [withPassword, read] at settled
      exact absurd trivial settled
    | some taken =>
      obtain ⟨msg, further⟩ := taken
      have later : tryReadMessage (rest ++ more) false = .ok (some (msg, further ++ more)) :=
        plainReader_incremental.message read more
      rw [withPassword, withPassword, read, later]
      exact ⟨rfl, rfl, fun _ => rfl⟩

theorem withPassword_cases (replies : List Bytes) (startupInfo : ClientStartupInfo) (rest : Bytes) :
    (tryReadMessage rest false = .ok none ∧ withPassword replies startupInfo rest =
        { stage := .password startupInfo, buf := rest, replies := replies }) ∨
      (tryReadMessage rest false ≠ .ok none ∧ ¬ Waiting (withPassword replies startupInfo rest).stage) := by
  rw [withPassword]
  cases tryReadMessage rest false with
  | error error => exact .inr ⟨by simp, fun waiting => waiting⟩
  | ok taken =>
    cases taken with
    | none => exact .inl ⟨rfl, rfl⟩
    | some taken => exact .inr ⟨by simp, handlePassword_stage startupInfo taken.1⟩

theorem withPassword_password {replies : List Bytes} {startupInfo other : ClientStartupInfo} {rest : Bytes}
    (stage : (withPassword replies startupInfo rest).stage = .password other) :
    other = startupInfo ∧ tryReadMessage rest false = .ok none ∧ withPassword replies startupInfo rest =
      { stage := .password startupInfo, buf := rest, replies := replies } := by
  obtain ⟨read, same⟩ | ⟨-, gone⟩ := withPassword_cases replies startupInfo rest
  · rw [same] at stage
    exact ⟨(ClientStage.password.inj stage).symm, read, same⟩
  · rw [stage] at gone
    exact absurd trivial gone

theorem withPassword_startup (replies : List Bytes) (startupInfo : ClientStartupInfo) (rest : Bytes) :
    (withPassword replies startupInfo rest).stage ≠ .startup := by
  intro stage
  obtain ⟨-, same⟩ | ⟨-, gone⟩ := withPassword_cases replies startupInfo rest
  · rw [same] at stage
    cases stage
  · rw [stage] at gone
    exact gone trivial

theorem withStartup_cut (replies : List Bytes) {buf : Bytes} (cut : ¬ Whole buf) :
    withStartup replies buf = { buf := buf, replies := replies } := if_neg cut

theorem withStartup_password (replies : List Bytes) {buf : Bytes} (whole : Whole buf)
    {startupInfo : ClientStartupInfo} (stage : (handleStartup (payloadOf buf)).2 = .password startupInfo) :
    withStartup replies buf = withPassword (replies ++ (handleStartup (payloadOf buf)).1) startupInfo
      (behindStartup buf) := by
  rw [withStartup, if_pos whole]
  dsimp only
  rw [stage]

theorem withStartup_returned (replies : List Bytes) {buf : Bytes} (whole : Whole buf)
    (stage : ∀ startupInfo, (handleStartup (payloadOf buf)).2 ≠ .password startupInfo) :
    withStartup replies buf =
      { stage := (handleStartup (payloadOf buf)).2
        replies := replies ++ (handleStartup (payloadOf buf)).1 } := by
  rw [withStartup, if_pos whole]
  dsimp only
  split
  · rename_i startupInfo is
    exact absurd is (stage startupInfo)
  · rfl

theorem withStartup_stage (replies : List Bytes) (buf : Bytes) :
    (withStartup replies buf).stage = .startup ↔ ¬ Whole buf := by
  constructor
  · intro stage whole
    by_cases password : ∃ startupInfo, (handleStartup (payloadOf buf)).2 = .password startupInfo
    · obtain ⟨startupInfo, password⟩ := password
      rw [withStartup_password replies whole password] at stage
      exact withPassword_startup _ _ _ stage
    · rw [withStartup_returned replies whole (not_exists.mp password)] at stage
      exact (handleStartup_stage _).1 stage
  · intro cut
    rw [withStartup_cut replies cut]

theorem withStartup_append {replies : List Bytes} {buf : Bytes} (whole : Whole buf) (more : Bytes) :
    (¬ Waiting (withStartup replies buf).stage →
      Extends (withStartup replies buf) (withStartup replies (buf ++ more)) more) ∧
    ∀ startupInfo, (withStartup replies buf).stage = .password startupInfo →
      withStartup replies (buf ++ more) = withPassword (withStartup replies buf).replies startupInfo
        ((withStartup replies buf).buf ++ more) := by
  obtain ⟨longer, payload, behind⟩ := whole_append whole more
  by_cases password : ∃ startupInfo, (handleStartup (payloadOf buf)).2 = .password startupInfo
  · obtain ⟨startupInfo, stage⟩ := password
    have later := withStartup_password replies longer (payload ▸ stage)
    rw [payload, behind] at later
    rw [withStartup_password replies whole stage, later]
    refine ⟨fun settled => withPassword_extends settled more, fun other waiting => ?_⟩
    obtain ⟨rfl, -, same⟩ := withPassword_password waiting
    rw [same]
  · have stage := not_exists.mp password
    have later := withStartup_returned replies longer (payload ▸ stage)
    rw [payload] at later
    rw [withStartup_returned replies whole stage, later]
    refine ⟨fun _ => ⟨rfl, rfl, fun proxying => ?_⟩, fun other waiting => absurd waiting (stage other)⟩
    cases at_ : (handleStartup (payloadOf buf)).2 with
    | proxying startupInfo => exact absurd at_ ((handleStartup_stage _).2 startupInfo)
    | _ => simp [at_, Proxying] at proxying

theorem ideal_append {tls : Bool} {sent : Bytes} (started : (ideal tls sent).stage ≠ .startup) (more : Bytes) :
    (¬ Waiting (ideal tls sent).stage → Extends (ideal tls sent) (ideal tls (sent ++ more)) more) ∧
    ∀ startupInfo, (ideal tls sent).stage = .password startupInfo →
      ideal tls (sent ++ more) = withPassword (ideal tls sent).replies startupInfo
        ((ideal tls sent).buf ++ more) := by
  by_cases ssl : sslRequest <+: sent
  · have long : 8 ≤ sent.length := by
      have shorter := ssl.length_le
      rwa [sslRequest_length] at shorter
    have now : ideal tls sent = withStartup [sslReply tls] (sent.drop 8) := if_pos ssl
    have later : ideal tls (sent ++ more) = withStartup [sslReply tls] (sent.drop 8 ++ more) := by
      rw [ideal, if_pos (ssl.trans (List.prefix_append sent more)), List.drop_append_of_le_length long]
    rw [now, later]
    rw [now, ne_eq, withStartup_stage, not_not] at started
    exact withStartup_append started more
  · have now : ideal tls sent = withStartup [] sent := if_neg ssl
    rw [now, ne_eq, withStartup_stage, not_not] at started
    have later : ideal tls (sent ++ more) = withStartup [] (sent ++ more) :=
      if_neg (by rwa [ssl_append started])
    rw [now, later]
    exact withStartup_append started more

structure Lands (replies : List Bytes) (w : Arrival) (round : List Bytes × ClientStage × Bytes) : Prop where
  stage : round.2.1 = w.stage
  replies : replies ++ round.1 = w.replies
  kept : Waiting round.2.1 → round.2.2 = w.buf

theorem lands_startup (tls : Bool) (replies : List Bytes) {raw rest buf : Bytes} (is : IsStartup raw)
    (front : buf <+: raw ++ rest) :
    Lands replies (withStartup replies buf) (readInitial tls buf) ↔
      (Whole buf → Seen buf ∧ ∀ startupInfo, (handleStartup (payloadOf buf)).2 = .password startupInfo →
        tryReadMessage (behindStartup buf) false = .ok none) := by
  obtain short | ⟨left, rfl⟩ := startup_or_short front
  · have cut := not_whole_short is front short
    rw [readInitial_short tls is front short, withStartup_cut replies cut]
    exact iff_of_true ⟨rfl, List.append_nil _, fun _ => rfl⟩ fun whole => absurd whole cut
  · have whole := whole_startup is left
    rw [forall_prop_of_true whole]
    by_cases seen : Seen (raw ++ left)
    · rw [readInitial_startup tls is seen, behindStartup_startup is left, payloadOf_startup is left]
      by_cases password : ∃ startupInfo, (handleStartup (raw.drop 4)).2 = .password startupInfo
      · obtain ⟨startupInfo, stage⟩ := password
        have goes := withStartup_password replies whole (by rw [payloadOf_startup is left]; exact stage)
        rw [payloadOf_startup is left, behindStartup_startup is left] at goes
        rw [goes]
        constructor
        · intro lands
          exact ⟨seen, fun _ _ => (withPassword_password (lands.stage.symm.trans stage)).2.1⟩
        · rintro ⟨-, none_⟩
          rw [withPassword, none_ startupInfo stage]
          exact ⟨stage, rfl, fun _ => rfl⟩
      · have stage := not_exists.mp password
        have goes := withStartup_returned replies whole (by rwa [payloadOf_startup is left])
        rw [payloadOf_startup is left] at goes
        rw [goes]
        refine iff_of_true ⟨rfl, rfl, fun waiting => ?_⟩ ⟨seen, fun other same => absurd same (stage other)⟩
        cases at_ : (handleStartup (raw.drop 4)).2 with
        | startup => exact absurd at_ (handleStartup_stage _).1
        | password startupInfo => exact absurd at_ (stage startupInfo)
        | proxying startupInfo => simp [at_, Waiting] at waiting
        | returned result => simp [at_, Waiting] at waiting
    · have long : 4 ≤ (raw ++ left).length := whole.1
      rw [readInitial_wait tls (.inr ⟨long, by rw [Seen] at seen; omega⟩)]
      refine iff_of_false (fun lands => ?_) fun fits => seen fits.1
      exact (withStartup_stage replies _).mp lands.stage.symm whole

theorem lands_ssl (tls : Bool) (more : Bytes) :
    Lands [] (withStartup [sslReply tls] more) (readInitial tls (sslRequest ++ more)) ↔
      Seen (sslRequest ++ more) ∧ if tls then ¬ Whole more else sslRequest ++ more = sslRequest := by
  by_cases seen : Seen (sslRequest ++ more)
  · rw [readInitial_ssl tls more seen]
    by_cases whole : Whole more
    · refine iff_of_false (fun lands => ?_) fun fits => ?_
      · exact (withStartup_stage _ more).mp lands.stage.symm whole
      · cases tls with
        | true => exact fits.2 whole
        | false =>
          obtain rfl : more = [] := by simpa using fits.2
          exact absurd whole.1 (by simp)
    · rw [withStartup_cut _ whole]
      cases tls with
      | true => exact iff_of_true ⟨rfl, rfl, fun _ => rfl⟩ ⟨seen, whole⟩
      | false =>
        constructor
        · intro lands
          obtain rfl : [] = more := lands.kept trivial
          exact ⟨seen, List.append_nil _⟩
        · rintro ⟨-, alone⟩
          obtain rfl : more = [] := by simpa using alone
          exact ⟨rfl, rfl, fun _ => rfl⟩
  · have long : 4 ≤ (sslRequest ++ more).length := by simp [sslRequest_length]; omega
    rw [readInitial_wait tls (.inr ⟨long, by rw [Seen] at seen; omega⟩)]
    refine iff_of_false (fun lands => ?_) fun fits => seen fits.1
    have replies := lands.replies
    by_cases whole : Whole more
    · exact (withStartup_stage _ more).mp lands.stage.symm whole
    · rw [withStartup_cut _ whole] at replies
      cases replies

theorem readInitial_proxying (tls : Bool) (buf : Bytes) : ¬ Proxying (readInitial tls buf).2.1 := by
  unfold readInitial
  dsimp only
  split_ifs
  all_goals try exact fun proxying => proxying
  cases at_ : (handleStartup ((buf.drop 4).take (asUsize (getI32 buf) - 4))).2 with
  | proxying startupInfo => exact absurd at_ ((handleStartup_stage _).2 startupInfo)
  | _ => exact fun proxying => proxying

end Dialogue

end PgMux
