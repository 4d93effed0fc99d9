import PgMux.Backend.Handshake

set_option autoImplicit false

namespace PgMux

-- `connect_backend` and what its backend has sent, which it stops reading when it returns.
structure Delivery (S : Type) where
  connect : Connect S := {}
  sent : Bytes := []
deriving DecidableEq, Repr

namespace Delivery

variable (lib : PgProtocol) (user password : String)

def offer (s : Delivery lib.ScramSha256) (chunk : Chunk) : Option (Delivery lib.ScramSha256) :=
  some
    { connect :=
        if s.connect.core.Returned then s.connect
        else Connect.pass lib user password s.connect (.ok chunk.1)
      sent := s.sent ++ chunk.1 }

-- `none` while it waits for more.
def outcome {S : Type} (s : Delivery S) : Option (Except ConnectError Unit) :=
  match s.connect.core.stage with
  | .returned result => some result
  | _ => none

def deliver (h : Handshake lib.ScramSha256) (msg : PgMessage) : Handshake lib.ScramSha256 :=
  if h.Returned then h else (handle lib user password h msg).settle

def deliverBody (h : Handshake lib.ScramSha256) (msg : PgMessage) : Handshake lib.ScramSha256 × Option Unit :=
  (deliver lib user password h msg, none)

def deliverAll (h : Handshake lib.ScramSha256) (bytes : Bytes) : Handshake lib.ScramSha256 :=
  match plainReader.drain (deliverBody lib user password) h bytes with
  | (h, _, .failed error) => if h.Returned then h else h.fail (.message error)
  | (h, _, _) => h

/-- The handshake is where it would be had each message come in a read of its own; one that waits has
no complete message in hand, and one that succeeded has read nothing behind the ReadyForQuery. -/
structure Matches (s : Delivery lib.ScramSha256) : Prop where
  core : s.connect.core = deliverAll lib user password {} s.sent
  waits : ¬ s.connect.core.Returned → plainReader.read s.connect.buf = .ok none
  unread : s.connect.core.stage = .returned (.ok ()) → s.connect.buf = []

def takeOne (h : Handshake lib.ScramSha256) (msg : PgMessage) : Handshake lib.ScramSha256 × Option Unit :=
  let h := handle lib user password h msg
  (h, if h.loops then none else some ())

-- `authenticated` is set, and the loop over it goes on with what the read has brought.
def behindOk {S : Type} (h : Handshake S) : Prop := h.stage = .auth ∧ h.authenticated = true

/-- What may stand behind a message in its read, given the state in which the message is taken. -/
structure Fits (h : Handshake lib.ScramSha256) (msg : PgMessage) (behind : Bytes) : Prop where
  error : behindOk h → msg.msgType ≠ 'E'.toUInt8
  auth : behindOk h → msg.msgType = 'R'.toUInt8 → msg.isAuthOk = true
  sasl : Connect.inSasl (handle lib user password h msg) = 1 → plainReader.read behind = .ok none
  ready : h.stage = .auth ∨ h.stage = .ready → msg.isReady = true → behind = []

def SmoothFrom (h : Handshake lib.ScramSha256) (buf : Bytes) : Prop :=
  ∀ ms after rest msg behind, plainReader.Passes (takeOne lib user password) h buf ms after rest →
    plainReader.read rest = .ok (some (msg, behind)) → Fits lib user password after msg behind

def Smooth (s : Delivery lib.ScramSha256) (chunk : Chunk) : Prop :=
  ¬ s.connect.core.Returned → SmoothFrom lib user password s.connect.core (s.connect.buf ++ chunk.1)

section Settling

variable {S : Type}

theorem settle_of_not_behindOk {h : Handshake S} (not : ¬ behindOk h) : h.settle = h := by
  rw [Handshake.settle]
  split
  · rename_i stage
    exact if_neg fun authenticated => not ⟨stage, authenticated⟩
  · rfl

theorem settle_of_behindOk {h : Handshake S} (behind : behindOk h) : h.settle = { h with stage := .ready } := by
  obtain ⟨stage, authenticated⟩ := behind
  simp only [Handshake.settle, stage, authenticated, if_true]

theorem settle_fail (h : Handshake S) (error : ConnectError) : h.settle.fail error = h.fail error := by
  by_cases behind : behindOk h
  · rw [settle_of_behindOk behind]
    rfl
  · rw [settle_of_not_behindOk behind]

theorem settle_returned (h : Handshake S) : h.settle.Returned ↔ h.Returned := by
  by_cases behind : behindOk h
  · rw [settle_of_behindOk behind]
    simp [Handshake.Returned, behind.1]
  · rw [settle_of_not_behindOk behind]

theorem settle_not_behindOk (h : Handshake S) : ¬ behindOk h.settle := by
  by_cases behind : behindOk h
  · rw [settle_of_behindOk behind]
    exact fun again => by cases again.1
  · rwa [settle_of_not_behindOk behind]

theorem not_behindOk_of_stops {h : Handshake S} (stops : h.loops = false) : ¬ behindOk h := by
  intro behind
  simp [Handshake.loops, behind.1] at stops

end Settling

theorem handle_behindOk {h : Handshake lib.ScramSha256} (behind : behindOk h) {msg : PgMessage}
    (error : msg.msgType ≠ 'E'.toUInt8) (auth : msg.msgType = 'R'.toUInt8 → msg.isAuthOk = true) :
    (handle lib user password h.settle msg).settle = (handle lib user password h msg).settle := by
  have settled := settle_of_behindOk behind
  obtain ⟨stage, authenticated⟩ := behind
  rw [settled, handle, handle, stage]
  dsimp only
  rw [handleReady, handleAuth, if_neg error, if_neg error]
  by_cases isAuth : msg.msgType = 'R'.toUInt8
  · obtain ⟨-, long, zero⟩ := (Connect.isAuthOk_iff msg).mp (auth isAuth)
    have unready : msg.msgType ≠ 'Z'.toUInt8 := by
      rw [isAuth]
      decide
    have same : ({ h with authenticated := true } : Handshake lib.ScramSha256) = h := by rw [← authenticated]
    rw [if_pos isAuth, if_neg unready, handleAuthentication, if_neg (by omega), if_pos zero, same, settled]
    rfl
  · rw [if_neg isAuth]
    by_cases ready : msg.msgType = 'Z'.toUInt8
    · rw [if_pos ready, if_pos ready]
    · rw [if_neg ready, if_neg ready, settled]
      rfl

theorem deliver_settle {h : Handshake lib.ScramSha256} (open_ : ¬ h.Returned) {msg : PgMessage}
    (error : behindOk h → msg.msgType ≠ 'E'.toUInt8)
    (auth : behindOk h → msg.msgType = 'R'.toUInt8 → msg.isAuthOk = true) :
    deliver lib user password h.settle msg = (handle lib user password h msg).settle := by
  rw [deliver, if_neg (by rwa [settle_returned])]
  by_cases behind : behindOk h
  · exact handle_behindOk lib user password behind (error behind) (auth behind)
  · rw [settle_of_not_behindOk behind]

theorem deliverAll_returned {h : Handshake lib.ScramSha256} (returned : h.Returned) (bytes : Bytes) :
    deliverAll lib user password h bytes = h := by
  have stays (ms : List PgMessage) : ms.foldl (fun s m => (deliverBody lib user password s m).1) h = h := by
    induction ms with
    | nil => rfl
    | cons m ms ih =>
      rw [List.foldl_cons, deliverBody, deliver, if_pos returned]
      exact ih
  rw [deliverAll]
  obtain ⟨ms, rest, -, ⟨-, -, drained⟩ | ⟨e, -, -, failed⟩⟩ :=
    Reader.drain_endless (r := plainReader)
      (fun _ _ => rfl : ∀ h msg, (deliverBody lib user password h msg).2 = none) h bytes
  · rw [drained, stays]
  · rw [failed, stays]
    exact if_pos returned

theorem deliverAll_invariant {inv : Handshake lib.ScramSha256 → Prop}
    (preserved : ∀ h msg, inv h → inv (deliver lib user password h msg))
    (fails : ∀ h error, inv h → inv (h.fail (.message error))) {h : Handshake lib.ScramSha256} (initial : inv h)
    (bytes : Bytes) : inv (deliverAll lib user password h bytes) := by
  have kept := plainReader.drain_invariant (deliverBody lib user password) preserved initial bytes
  rw [deliverAll]
  split
  · rename_i last rest error ended
    rw [ended] at kept
    split
    · exact kept
    · exact fails last error kept
  · rename_i last rest ending _ ended
    rw [ended] at kept
    exact kept

theorem deliverAll_none {h : Handshake lib.ScramSha256} {buf : Bytes} (more : plainReader.read buf = .ok none) :
    deliverAll lib user password h buf = h := by
  rw [deliverAll, plainReader.drain_drained more]

theorem deliverAll_some {h : Handshake lib.ScramSha256} {buf rest : Bytes} {msg : PgMessage}
    (took : plainReader.read buf = .ok (some (msg, rest))) :
    deliverAll lib user password h buf = deliverAll lib user password (deliver lib user password h msg) rest := by
  rw [deliverAll, plainReader.drain_continued took rfl, deliverAll]

def readAll (h : Handshake lib.ScramSha256) (buf : Bytes) : Handshake lib.ScramSha256 × Bytes :=
  match plainReader.drain (takeOne lib user password) h buf with
  | (h, rest, .drained) => (h.settle, rest)
  | (h, rest, .failed error) => (h.fail (.message error), rest)
  | (h, rest, .stopped ()) => (h, rest)

theorem pass_eq (s : Connect lib.ScramSha256) (chunk : Chunk) :
    (Connect.pass lib user password s (.ok chunk.1)).core =
        (readAll lib user password s.core (s.buf ++ chunk.1)).1 ∧
      (Connect.pass lib user password s (.ok chunk.1)).buf =
        (readAll lib user password s.core (s.buf ++ chunk.1)).2 := by
  have commutes (t : Handshake lib.ScramSha256 × Connect.Log lib.ScramSha256) (msg : PgMessage) :
      takeOne lib user password t.1 msg = ((Connect.takeMessage lib user password t msg).1.1,
        (Connect.takeMessage lib user password t msg).2) := rfl
  have image := plainReader.drain_map _ Prod.fst commutes (s.core, s.log) (s.buf ++ chunk.1)
  obtain ⟨chunk, some⟩ := chunk
  obtain ⟨first, others, rfl⟩ := List.exists_cons_of_ne_nil some
  simp only [Connect.pass, readAll]
  rw [image]
  generalize plainReader.drain (Connect.takeMessage lib user password) (s.core, s.log)
    (s.buf ++ first :: others) = ended
  obtain ⟨⟨core, log⟩, rest, ended⟩ := ended
  cases ended with
  | drained => exact ⟨rfl, rfl⟩
  | failed error => exact ⟨rfl, rfl⟩
  | stopped result => exact ⟨rfl, rfl⟩

theorem readAll_none {h : Handshake lib.ScramSha256} {buf : Bytes} (more : plainReader.read buf = .ok none) :
    readAll lib user password h buf = (h.settle, buf) := by
  rw [readAll, plainReader.drain_drained more]

theorem readAll_error {h : Handshake lib.ScramSha256} {buf : Bytes} {error : MessageError}
    (failed : plainReader.read buf = .error error) :
    readAll lib user password h buf = (h.fail (.message error), buf) := by
  rw [readAll, plainReader.drain_failed failed]

theorem readAll_loops {h : Handshake lib.ScramSha256} {buf rest : Bytes} {msg : PgMessage}
    (took : plainReader.read buf = .ok (some (msg, rest)))
    (loops : (handle lib user password h msg).loops = true) :
    readAll lib user password h buf =
      readAll lib user password (handle lib user password h msg) rest := by
  have continued : takeOne lib user password h msg = (handle lib user password h msg, none) := by
    simp only [takeOne, loops, if_true]
  rw [readAll, plainReader.drain_continued took continued, readAll]

theorem readAll_stops {h : Handshake lib.ScramSha256} {buf rest : Bytes} {msg : PgMessage}
    (took : plainReader.read buf = .ok (some (msg, rest)))
    (stops : (handle lib user password h msg).loops = false) :
    readAll lib user password h buf = (handle lib user password h msg, rest) := by
  have stopped : takeOne lib user password h msg = (handle lib user password h msg, some ()) := by
    simp only [takeOne, stops, Bool.false_eq_true, if_false]
  rw [readAll, plainReader.drain_stopped took stopped]

theorem smoothFrom_vacuous {h : Handshake lib.ScramSha256} {buf : Bytes}
    (none_ : ∀ taken, plainReader.read buf ≠ .ok (some taken)) : SmoothFrom lib user password h buf := by
  intro ms after rest msg behind passes read
  cases passes with
  | refl => exact absurd read (none_ _)
  | head took continued tail => exact absurd took (none_ _)

theorem smoothFrom_cons {h : Handshake lib.ScramSha256} {buf rest : Bytes} {msg : PgMessage}
    (took : plainReader.read buf = .ok (some (msg, rest))) :
    SmoothFrom lib user password h buf ↔ Fits lib user password h msg rest ∧
      ((handle lib user password h msg).loops = true →
        SmoothFrom lib user password (handle lib user password h msg) rest) := by
  constructor
  · intro smooth
    refine ⟨smooth [] h buf msg rest (.refl h buf) took, fun loops => ?_⟩
    intro ms after left other behind passes read
    have continued : takeOne lib user password h msg = (handle lib user password h msg, none) := by
      simp only [takeOne, loops, if_true]
    exact smooth (msg :: ms) after left other behind (.head took continued passes) read
  · rintro ⟨fits, later⟩ ms after left other behind passes read
    cases passes with
    | refl =>
      obtain ⟨rfl, rfl⟩ : msg = other ∧ rest = behind := by simpa using took.symm.trans read
      exact fits
    | @head _ next _ _ mid _ first others taken continued tail =>
      obtain ⟨rfl, rfl⟩ : msg = first ∧ rest = mid := by simpa using took.symm.trans taken
      simp only [takeOne, Prod.mk.injEq, ite_eq_left_iff, reduceCtorEq, imp_false, Bool.not_eq_false,
        Bool.not_eq_true] at continued
      obtain ⟨rfl, loops⟩ := continued
      exact later (by simpa using loops) others after left other behind tail read

-- The errors that the loop behind `authenticated` does not give.
def Foreign : ConnectError → Prop
  | .backend .ready _ | .message _ => False
  | _ => True

-- The handshake behind an AuthenticationOk that was read alone, which writes nothing more.
structure Late {S : Type} (sent : List Bytes) (h : Handshake S) : Prop where
  sent : h.sent = sent
  stage : h.stage = .ready ∨ h.stage = .returned (.ok ()) ∨
    ∃ error, h.stage = .returned (.error error) ∧ ¬ Foreign error

-- Where the loop over `authenticated` can get to instead.
def Strayed {S : Type} (sent : List Bytes) (h : Handshake S) : Prop :=
  (∃ error, h.stage = .returned (.error error) ∧ Foreign error) ∨ sent.length < h.sent.length

theorem Strayed.ne {S : Type} {sent : List Bytes} {h c : Handshake S} (strayed : Strayed sent h)
    (late : Late sent c) : h ≠ c := by
  rintro rfl
  obtain ⟨error, stage, foreign⟩ | longer := strayed
  · obtain ready | ok | ⟨other, same, native⟩ := late.stage
    · simp [ready] at stage
    · simp [ok] at stage
    · obtain rfl : other = error := by simpa using same.symm.trans stage
      exact native foreign
  · rw [late.sent] at longer
    omega

theorem deliver_late {sent : List Bytes} (h : Handshake lib.ScramSha256) (msg : PgMessage)
    (late : Late sent h) : Late sent (deliver lib user password h msg) := by
  rw [deliver]
  split
  · exact late
  · rename_i open_
    obtain ⟨writes, ready | ok | ⟨error, failed, -⟩⟩ := late
    · rw [handle, ready]
      dsimp only
      rw [handleReady]
      split
      · exact ⟨writes, .inr (.inl rfl)⟩
      · split
        · exact ⟨writes, .inr (.inr ⟨_, rfl, fun foreign => foreign⟩)⟩
        · rw [settle_of_not_behindOk fun behind => by simp [behindOk, ready] at behind]
          exact ⟨writes, .inl ready⟩
    · simp [Handshake.Returned, ok] at open_
    · simp [Handshake.Returned, failed] at open_

theorem deliverAll_late {sent : List Bytes} {h : Handshake lib.ScramSha256} (late : Late sent h) (bytes : Bytes) :
    Late sent (deliverAll lib user password h bytes) :=
  deliverAll_invariant lib user password (deliver_late lib user password)
    (fun _ _ kept => ⟨kept.sent, .inr (.inr ⟨_, rfl, fun foreign => foreign⟩)⟩) late bytes

theorem write_sent {S : Type} (h : Handshake S) (bytes : Except String Bytes) :
    h.sent.length ≤ (h.write bytes).sent.length := by
  cases bytes <;> simp [Handshake.write, Handshake.fail]

theorem handleAuthentication_sent (h : Handshake lib.ScramSha256) (payload : Bytes) :
    h.sent.length ≤ (handleAuthentication lib user password h payload).sent.length := by
  unfold handleAuthentication
  dsimp only
  split_ifs
  · exact le_rfl
  · exact le_rfl
  · exact write_sent h _
  · exact le_rfl
  · exact write_sent h _
  · split
    · simp
    · exact le_rfl
  · exact le_rfl
  · exact le_rfl

theorem handle_sent (h : Handshake lib.ScramSha256) (msg : PgMessage) :
    h.sent.length ≤ (handle lib user password h msg).sent.length := by
  rw [handle]
  split
  · unfold handleAuth
    split_ifs
    · exact handleAuthentication_sent lib user password h msg.payload
    all_goals exact le_rfl
  · unfold handleContinue
    dsimp only
    split_ifs
    · exact le_rfl
    · split
      · split
        · simp
        · exact le_rfl
      · exact le_rfl
    all_goals exact le_rfl
  · unfold handleFinal
    dsimp only
    split_ifs
    · exact le_rfl
    · split
      · exact le_rfl
      · exact le_rfl
    all_goals exact le_rfl
  · unfold handleReady
    split_ifs <;> exact le_rfl
  · exact le_rfl

theorem settle_sent {S : Type} (h : Handshake S) : h.settle.sent = h.sent := by
  by_cases behind : behindOk h
  · rw [settle_of_behindOk behind]
  · rw [settle_of_not_behindOk behind]

theorem readAll_sent {n : Nat} {h : Handshake lib.ScramSha256} (longer : n < h.sent.length) (buf : Bytes) :
    n < (readAll lib user password h buf).1.sent.length := by
  have grows (h : Handshake lib.ScramSha256) (msg : PgMessage) (longer : n < h.sent.length) :
      n < (takeOne lib user password h msg).1.sent.length :=
    longer.trans_le (handle_sent lib user password h msg)
  have kept := plainReader.drain_invariant (takeOne lib user password) grows longer buf
  rw [readAll]
  split
  · rename_i ended
    rw [ended] at kept
    rwa [settle_sent]
  · rename_i ended
    rw [ended] at kept
    exact kept
  · rename_i ended
    rw [ended] at kept
    exact kept

theorem handleAuthentication_strays (h : Handshake lib.ScramSha256) (payload : Bytes)
    (other : ¬ (4 ≤ payload.length ∧ getI32 payload = 0)) :
    Strayed h.sent (handleAuthentication lib user password h payload) := by
  have fails (error : ConnectError) (foreign : Foreign error) : Strayed h.sent (h.fail error) :=
    .inl ⟨error, rfl, foreign⟩
  have writes (bytes : Except String Bytes) : Strayed h.sent (h.write bytes) := by
    cases bytes with
    | ok bytes => exact .inr (by simp [Handshake.write])
    | error cause => exact fails _ trivial
  unfold handleAuthentication
  dsimp only
  split_ifs with short zero
  · exact fails _ trivial
  · exact absurd ⟨by omega, zero⟩ other
  · exact writes _
  · exact fails _ trivial
  · exact writes _
  · split
    · exact .inr (by simp)
    · exact fails _ trivial
  · exact fails _ trivial
  · exact fails _ trivial

theorem readAll_strays {sent : List Bytes} {h : Handshake lib.ScramSha256} {buf rest : Bytes} {msg : PgMessage}
    (took : plainReader.read buf = .ok (some (msg, rest)))
    (strayed : Strayed sent (handle lib user password h msg)) :
    Strayed sent (readAll lib user password h buf).1 := by
  cases loops : (handle lib user password h msg).loops with
  | false =>
    rw [readAll_stops lib user password took loops]
    exact strayed
  | true =>
    rw [readAll_loops lib user password took loops]
    obtain ⟨error, stage, -⟩ | longer := strayed
    · simp [Handshake.loops, stage] at loops
    · exact .inr (readAll_sent lib user password longer rest)

theorem readAll_ne_deliverAll {h : Handshake lib.ScramSha256} (behind : behindOk h) {buf rest : Bytes}
    {msg : PgMessage} (took : plainReader.read buf = .ok (some (msg, rest)))
    (misfit : msg.msgType = 'E'.toUInt8 ∨ msg.msgType = 'R'.toUInt8 ∧ msg.isAuthOk = false) :
    (readAll lib user password h buf).1 ≠ deliverAll lib user password h.settle buf := by
  have settled := settle_of_behindOk behind
  have late : Late h.sent h.settle := ⟨settle_sent h, .inl (by rw [settled])⟩
  have strayed : Strayed h.sent (handle lib user password h msg) := by
    rw [handle, behind.1]
    dsimp only
    rw [handleAuth]
    obtain error | ⟨auth, other⟩ := misfit
    · have unauth : msg.msgType ≠ 'R'.toUInt8 := by
        rw [error]
        decide
      rw [if_neg unauth, if_pos error]
      exact .inl ⟨_, rfl, trivial⟩
    · rw [if_pos auth]
      refine handleAuthentication_strays lib user password h msg.payload fun ok => ?_
      simp [(Connect.isAuthOk_iff msg).mpr ⟨auth, ok⟩] at other
  exact (readAll_strays lib user password took strayed).ne (deliverAll_late lib user password late buf)

structure Agrees (h : Handshake lib.ScramSha256) (buf : Bytes) : Prop where
  core : (readAll lib user password h buf).1 = deliverAll lib user password h.settle buf
  waits : ¬ (readAll lib user password h buf).1.Returned →
    plainReader.read (readAll lib user password h buf).2 = .ok none
  unread : (readAll lib user password h buf).1.stage = .returned (.ok ()) →
    (readAll lib user password h buf).2 = []

theorem handle_ok_iff {h : Handshake lib.ScramSha256} (open_ : ¬ h.Returned) (msg : PgMessage) :
    (handle lib user password h msg).stage = .returned (.ok ()) ↔
      (h.stage = .auth ∨ h.stage = .ready) ∧ msg.isReady = true := by
  constructor
  · intro ok
    obtain ⟨error, failed⟩ | handled := Connect.handle_handled lib user password open_ msg
    · simp [ok] at failed
    · generalize handle lib user password h msg = next at ok handled
      cases handled with
      | passed sent ready ok' => exact absurd (Connect.returned_of_stage ok) open_
      | authenticated stage ok' => exact absurd (Connect.returned_of_stage ok) open_
      | returned stage ready => exact ⟨stage, ready⟩
      | _ => cases ok
  · rintro ⟨stage, ready⟩
    have is : msg.msgType = 'Z'.toUInt8 := of_decide_eq_true ready
    have unauth : msg.msgType ≠ 'R'.toUInt8 := by
      rw [is]
      decide
    have unerror : msg.msgType ≠ 'E'.toUInt8 := by
      rw [is]
      decide
    obtain stage | stage := stage
    · rw [handle, stage]
      dsimp only
      rw [handleAuth, if_neg unauth, if_neg unerror, if_pos is]
    · rw [handle, stage]
      dsimp only
      rw [handleReady, if_pos is]

theorem agrees_error {h : Handshake lib.ScramSha256} (open_ : ¬ h.Returned) {buf : Bytes} {error : MessageError}
    (failed : plainReader.read buf = .error error) : Agrees lib user password h buf := by
  have fails : deliverAll lib user password h.settle buf = h.fail (.message error) := by
    rw [deliverAll, plainReader.drain_failed failed]
    dsimp only
    rw [if_neg (by rwa [settle_returned]), settle_fail]
  constructor <;> rw [readAll_error lib user password failed]
  · exact fails.symm
  · exact fun still => absurd trivial still
  · exact fun ok => by cases ok

theorem agrees_none {h : Handshake lib.ScramSha256} (open_ : ¬ h.Returned) {buf : Bytes}
    (more : plainReader.read buf = .ok none) : Agrees lib user password h buf := by
  constructor <;> rw [readAll_none lib user password more]
  · rw [deliverAll_none lib user password more]
  · exact fun _ => more
  · exact fun ok => absurd ((settle_returned h).mp (Connect.returned_of_stage ok)) open_

section Taken

variable {h : Handshake lib.ScramSha256} {buf rest : Bytes} {msg : PgMessage}

theorem agrees_loops (took : plainReader.read buf = .ok (some (msg, rest)))
    (delivered : deliver lib user password h.settle msg = (handle lib user password h msg).settle)
    (loops : (handle lib user password h msg).loops = true) :
    Agrees lib user password h buf ↔ Agrees lib user password (handle lib user password h msg) rest := by
  have goes := deliverAll_some lib user password (h := h.settle) took
  rw [delivered] at goes
  have same := readAll_loops lib user password took loops
  constructor
  · rintro ⟨core, waits, unread⟩
    rw [same] at core waits unread
    exact ⟨core.trans goes, waits, unread⟩
  · rintro ⟨core, waits, unread⟩
    constructor <;> rw [same]
    · exact core.trans goes.symm
    · exact waits
    · exact unread

theorem fits_loops (open_ : ¬ h.Returned) (error : behindOk h → msg.msgType ≠ 'E'.toUInt8)
    (auth : behindOk h → msg.msgType = 'R'.toUInt8 → msg.isAuthOk = true)
    (loops : (handle lib user password h msg).loops = true) : Fits lib user password h msg rest where
  error := error
  auth := auth
  sasl sasl := by
    rw [Connect.inSasl] at sasl
    rw [Handshake.loops] at loops
    cases stage : (handle lib user password h msg).stage <;> simp [stage] at sasl loops
  ready stage ready := by
    have ok := (handle_ok_iff lib user password open_ msg).mpr ⟨stage, ready⟩
    exact absurd (Connect.returned_of_stage ok) (Connect.not_returned_of_loops loops)

theorem agrees_stops (open_ : ¬ h.Returned) (took : plainReader.read buf = .ok (some (msg, rest)))
    (delivered : deliver lib user password h.settle msg = (handle lib user password h msg).settle)
    (stops : (handle lib user password h msg).loops = false) :
    Agrees lib user password h buf ↔
      (Connect.inSasl (handle lib user password h msg) = 1 → plainReader.read rest = .ok none) ∧
        (h.stage = .auth ∨ h.stage = .ready → msg.isReady = true → rest = []) := by
  have goes := deliverAll_some lib user password (h := h.settle) took
  have same := readAll_stops lib user password took stops
  have ends := handle_ok_iff lib user password open_ msg
  have settled : (handle lib user password h msg).settle = handle lib user password h msg :=
    settle_of_not_behindOk (not_behindOk_of_stops stops)
  rw [delivered, settled] at goes
  constructor
  · rintro ⟨-, waits, unread⟩
    rw [same] at waits unread
    refine ⟨fun sasl => waits fun returned => ?_, fun stage ready => unread (ends.mpr ⟨stage, ready⟩)⟩
    rw [Connect.inSasl] at sasl
    rw [Handshake.Returned] at returned
    cases stage : (handle lib user password h msg).stage <;> simp [stage] at sasl returned
  · rintro ⟨sasl, ready⟩
    have waits (still : ¬ (handle lib user password h msg).Returned) : plainReader.read rest = .ok none := by
      refine sasl ?_
      rw [Connect.inSasl]
      rw [Handshake.Returned] at still
      rw [Handshake.loops] at stops
      cases stage : (handle lib user password h msg).stage <;> simp [stage] at still stops ⊢
    constructor <;> rw [same]
    · rw [goes]
      by_cases returned : (handle lib user password h msg).Returned
      · exact (deliverAll_returned lib user password returned rest).symm
      · exact (deliverAll_none lib user password (waits returned)).symm
    · exact waits
    · exact fun ok => ready (ends.mp ok).1 (ends.mp ok).2

end Taken

theorem agrees_iff_smoothFrom {h : Handshake lib.ScramSha256} (open_ : ¬ h.Returned) (buf : Bytes) :
    Agrees lib user password h buf ↔ SmoothFrom lib user password h buf := by
  induction size : buf.length using Nat.strongRecOn generalizing h buf with
  | _ n ih =>
    cases read : plainReader.read buf with
    | error error =>
      exact iff_of_true (agrees_error lib user password open_ read)
        (smoothFrom_vacuous lib user password fun taken same => by simp [read] at same)
    | ok taken =>
      cases taken with
      | none =>
        exact iff_of_true (agrees_none lib user password open_ read)
          (smoothFrom_vacuous lib user password fun taken same => by simp [read] at same)
      | some taken =>
        obtain ⟨msg, rest⟩ := taken
        rw [smoothFrom_cons lib user password read]
        by_cases misfit : behindOk h ∧
            (msg.msgType = 'E'.toUInt8 ∨ msg.msgType = 'R'.toUInt8 ∧ msg.isAuthOk = false)
        · obtain ⟨behind, misfit⟩ := misfit
          refine iff_of_false (fun agrees => ?_) fun smooth => ?_
          · exact readAll_ne_deliverAll lib user password behind read misfit agrees.core
          · obtain error | ⟨auth, other⟩ := misfit
            · exact smooth.1.error behind error
            · simp [smooth.1.auth behind auth] at other
        · have error (behind : behindOk h) : msg.msgType ≠ 'E'.toUInt8 := fun is =>
            misfit ⟨behind, .inl is⟩
          have auth (behind : behindOk h) (is : msg.msgType = 'R'.toUInt8) : msg.isAuthOk = true := by
            by_contra other
            exact misfit ⟨behind, .inr ⟨is, by simpa using other⟩⟩
          have delivered := deliver_settle lib user password open_ error auth
          have shorter := plainReader.shrinks read
          cases loops : (handle lib user password h msg).loops with
          | true =>
            rw [agrees_loops lib user password read delivered loops,
              ih rest.length (by omega) (Connect.not_returned_of_loops loops) rest rfl]
            simp only [fits_loops lib user password open_ error auth loops, true_and, forall_const]
          | false =>
            rw [agrees_stops lib user password open_ read delivered loops]
            simp only [Bool.false_eq_true, false_imp_iff, and_true]
            exact ⟨fun ends => ⟨error, auth, ends.1, ends.2⟩, fun fits => ⟨fits.sasl, fits.ready⟩⟩

end Delivery

end PgMux
