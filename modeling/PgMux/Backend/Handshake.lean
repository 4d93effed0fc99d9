import PgMux.Backend.Connect

set_option autoImplicit false

namespace PgMux

def PgMessage.isAuthOk (msg : PgMessage) : Bool :=
  msg.msgType = 'R'.toUInt8 && decide (4 ≤ msg.payload.length) && getI32 msg.payload = 0

namespace Connect

variable {S : Type}

/-- An AuthenticationOk came before the ReadyForQuery at which the handshake stopped, and every SCRAM
exchange that was begun has been finished. -/
def Complete (s : Connect S) : Prop :=
  (∃ before last, s.log = before ++ [last] ∧ last.2.isReady = true ∧
    ∃ entry ∈ before, entry.2.isAuthOk = true) ∧ s.core.finished = s.core.begun

-- The loop over `authenticated` takes a ReadyForQuery before it has taken an AuthenticationOk.
def early (entry : Handshake S × PgMessage) : Bool :=
  match entry.1.stage with
  | .auth => !entry.1.authenticated && entry.2.isReady
  | _ => false

-- An AuthenticationOk is taken where SASLFinal is awaited.
def skips (entry : Handshake S × PgMessage) : Bool :=
  match entry.1.stage with
  | .saslFinal _ => entry.2.isAuthOk
  | _ => false

def Orderly (entry : Handshake S × PgMessage) : Prop := early entry = false ∧ skips entry = false

def inSasl (h : Handshake S) : Nat :=
  match h.stage with
  | .saslContinue _ | .saslFinal _ => 1
  | _ => 0

def Failed (h : Handshake S) : Prop := ∃ error, h.stage = .returned (.error error)

inductive Handled (h : Handshake S) (msg : PgMessage) : Handshake S → Prop where
  | passed (sent : List Bytes) (ready : inSasl h = 0 → msg.isReady = false)
      (ok : h.stage ≠ .ready → msg.isAuthOk = false) : Handled h msg { h with sent := sent }
  | authenticated (stage : h.stage = .auth) (ok : msg.isAuthOk = true) :
      Handled h msg { h with authenticated := true }
  | returned (stage : h.stage = .auth ∨ h.stage = .ready) (ready : msg.isReady = true) :
      Handled h msg { h with stage := .returned (.ok ()) }
  | begun (stage : h.stage = .auth) (scram : S) (sent : List Bytes) (ready : msg.isReady = false)
      (ok : msg.isAuthOk = false) :
      Handled h msg { h with stage := .saslContinue scram, sent := sent, begun := h.begun + 1 }
  | answered (before : S) (stage : h.stage = .saslContinue before) (after : S) (sent : List Bytes)
      (ready : msg.isReady = false) (ok : msg.isAuthOk = false) :
      Handled h msg { h with stage := .saslFinal after, sent := sent }
  | finished (scram : S) (stage : h.stage = .saslFinal scram) (ready : msg.isReady = false)
      (ok : msg.isAuthOk = false) :
      Handled h msg { h with stage := .auth, finished := h.finished + 1 }
  | skipped (scram : S) (stage : h.stage = .saslFinal scram) (ok : msg.isAuthOk = true) :
      Handled h msg { h with stage := .auth }

theorem isAuthOk_iff (msg : PgMessage) : msg.isAuthOk = true ↔
    msg.msgType = 'R'.toUInt8 ∧ 4 ≤ msg.payload.length ∧ getI32 msg.payload = 0 := by
  simp [PgMessage.isAuthOk, and_assoc]

theorem isAuthOk_other {msg : PgMessage} (other : msg.msgType ≠ 'R'.toUInt8) : msg.isAuthOk = false := by
  simp [PgMessage.isAuthOk, other]

theorem isAuthOk_ready {msg : PgMessage} (ready : msg.isReady = true) : msg.isAuthOk = false := by
  refine isAuthOk_other ?_
  rw [PgMessage.isReady, decide_eq_true_eq] at ready
  rw [ready]
  decide

theorem isReady_auth {msg : PgMessage} (auth : msg.msgType = 'R'.toUInt8) : msg.isReady = false := by
  rw [PgMessage.isReady, auth]
  decide

theorem isAuthOk_code {msg : PgMessage} (code : getI32 msg.payload ≠ 0) : msg.isAuthOk = false := by
  simp [PgMessage.isAuthOk, code]

theorem fail_failed (h : Handshake S) (error : ConnectError) : Failed (h.fail error) := ⟨error, rfl⟩

theorem returned_of_stage {h : Handshake S} {result : Except ConnectError Unit}
    (stage : h.stage = .returned result) : h.Returned := by
  simp [Handshake.Returned, stage]

theorem Failed.returned {h : Handshake S} (failed : Failed h) : h.Returned := by
  obtain ⟨error, stage⟩ := failed
  exact returned_of_stage stage

theorem not_returned_of_loops {h : Handshake S} (loops : h.loops = true) : ¬ h.Returned := by
  rw [Handshake.loops] at loops
  rw [Handshake.Returned]
  cases stage : h.stage <;> simp [stage] at loops ⊢

theorem write_handled {h : Handshake S} {msg : PgMessage} (ready : msg.isReady = false)
    (ok : msg.isAuthOk = false) (bytes : Except String Bytes) :
    Failed (h.write bytes) ∨ Handled h msg (h.write bytes) := by
  cases bytes with
  | error cause => exact .inl (fail_failed h _)
  | ok bytes => exact .inr (.passed _ (fun _ => ready) fun _ => ok)

section Handle

variable (lib : PgProtocol) (user password : String) {h : Handshake lib.ScramSha256} {msg : PgMessage}

theorem handleAuthentication_handled (stage : h.stage = .auth) (auth : msg.msgType = 'R'.toUInt8) :
    Failed (handleAuthentication lib user password h msg.payload) ∨
      Handled h msg (handleAuthentication lib user password h msg.payload) := by
  have ready := isReady_auth auth
  rw [handleAuthentication]
  by_cases short : msg.payload.length < 4
  · rw [if_pos short]
    exact .inl (fail_failed h _)
  · rw [if_neg short]
    dsimp only
    by_cases zero : getI32 msg.payload = 0
    · rw [if_pos zero]
      exact .inr (.authenticated stage ((isAuthOk_iff msg).mpr ⟨auth, by omega, zero⟩))
    · have ok := isAuthOk_code zero
      rw [if_neg zero]
      split
      · exact write_handled ready ok _
      · split
        · split
          · exact .inl (fail_failed h _)
          · exact write_handled ready ok _
        · split
          · split
            · exact .inl (fail_failed h _)
            · split
              · exact .inr (.begun stage _ _ ready ok)
              · exact .inl (fail_failed h _)
          · exact .inl (fail_failed h _)

theorem handleAuth_handled (stage : h.stage = .auth) :
    Failed (handleAuth lib user password h msg) ∨ Handled h msg (handleAuth lib user password h msg) := by
  rw [handleAuth]
  split
  · rename_i auth
    exact handleAuthentication_handled lib user password stage auth
  · rename_i other
    have ok := isAuthOk_other other
    split
    · exact .inl (fail_failed h _)
    · split
      · rename_i ready
        exact .inr (.returned (.inl stage) (decide_eq_true ready))
      · rename_i ready
        exact .inr (.passed h.sent (fun _ => decide_eq_false ready) fun _ => ok)

theorem handleContinue_handled {scram : lib.ScramSha256} (stage : h.stage = .saslContinue scram) :
    Failed (handleContinue lib h scram msg) ∨ Handled h msg (handleContinue lib h scram msg) := by
  have sasl : inSasl h = 1 := by rw [inSasl, stage]
  rw [handleContinue]
  split
  · rename_i auth
    split
    · exact .inl (fail_failed h _)
    · dsimp only
      split
      · rename_i code
        have ok : msg.isAuthOk = false := isAuthOk_code (by omega)
        split
        · split
          · exact .inr (.answered scram stage _ _ (isReady_auth auth) ok)
          · exact .inl (fail_failed h _)
        · exact .inl (fail_failed h _)
      · exact .inl (fail_failed h _)
  · rename_i other
    split
    · exact .inl (fail_failed h _)
    · exact .inr (.passed h.sent (fun outside => by omega) fun _ => isAuthOk_other other)

theorem handleFinal_handled {scram : lib.ScramSha256} (stage : h.stage = .saslFinal scram) :
    Failed (handleFinal lib h scram msg) ∨ Handled h msg (handleFinal lib h scram msg) := by
  have sasl : inSasl h = 1 := by rw [inSasl, stage]
  rw [handleFinal]
  split
  · rename_i auth
    split
    · exact .inl (fail_failed h _)
    · rename_i long
      dsimp only
      split
      · rename_i code
        split
        · exact .inr (.finished scram stage (isReady_auth auth) (isAuthOk_code (by omega)))
        · exact .inl (fail_failed h _)
      · split
        · rename_i zero
          exact .inr (.skipped scram stage ((isAuthOk_iff msg).mpr ⟨auth, by omega, zero⟩))
        · exact .inl (fail_failed h _)
  · rename_i other
    split
    · exact .inl (fail_failed h _)
    · exact .inr (.passed h.sent (fun outside => by omega) fun _ => isAuthOk_other other)

theorem handleReady_handled {h : Handshake S} (stage : h.stage = .ready) :
    Failed (handleReady h msg) ∨ Handled h msg (handleReady h msg) := by
  rw [handleReady]
  split
  · rename_i ready
    exact .inr (.returned (.inr stage) (decide_eq_true ready))
  · rename_i ready
    split
    · exact .inl (fail_failed h _)
    · exact .inr (.passed h.sent (fun _ => decide_eq_false ready) fun unready => absurd stage unready)

theorem handle_handled (open_ : ¬ h.Returned) (msg : PgMessage) :
    Failed (handle lib user password h msg) ∨ Handled h msg (handle lib user password h msg) := by
  rw [handle]
  cases stage : h.stage with
  | auth => exact handleAuth_handled lib user password stage
  | saslContinue scram => exact handleContinue_handled lib stage
  | saslFinal scram => exact handleFinal_handled lib stage
  | ready => exact handleReady_handled stage
  | returned result => simp [Handshake.Returned, stage] at open_

end Handle

structure Follows (h : Handshake S) (log : Log S) : Prop where
  authenticated : h.authenticated = true → ∃ entry ∈ log, entry.2.isAuthOk = true
  exchanges : h.begun = h.finished + log.countP skips + inSasl h
  ready : h.stage = .ready → h.authenticated = true
  oks : ∀ entry ∈ log, entry.2.isAuthOk = true → skips entry = true ∨ h.authenticated = true
  orderly : ¬ h.Returned → ∀ entry ∈ log, early entry = false
  stopped : h.Returned → ∃ before last, log = before ++ [last] ∧ last.2.isReady = true ∧
    (early last = true ↔ h.authenticated = false) ∧ ∀ entry ∈ before, early entry = false

theorem follows_start : Follows ({} : Handshake S) [] where
  authenticated := by simp
  exchanges := rfl
  ready := by simp
  oks := by simp
  orderly := by simp
  stopped returned := returned.elim

theorem complete_iff {s : Connect S} (follows : Follows s.core s.log)
    (ok : s.core.stage = .returned (.ok ())) :
    s.Complete ↔ ∀ entry ∈ s.log, Orderly entry := by
  have returned := returned_of_stage ok
  have outside : inSasl s.core = 0 := by rw [inSasl, ok]
  have exchanges := follows.exchanges
  obtain ⟨before, last, log, ready, unauthenticated, orderly⟩ := follows.stopped returned
  rw [outside] at exchanges
  constructor
  · rintro ⟨⟨earlier, final, same, -, entry, member, authOk⟩, finished⟩
    obtain ⟨rfl, -⟩ := List.append_inj' (log.symm.trans same) rfl
    have unskipped : s.log.countP skips = 0 := by omega
    rw [List.countP_eq_zero] at unskipped
    have taken : entry ∈ s.log := log ▸ List.mem_append_left _ member
    have authenticated := (follows.oks entry taken authOk).resolve_left (unskipped entry taken)
    intro entry taken
    refine ⟨?_, by simpa using unskipped entry taken⟩
    rw [log, List.mem_append, List.mem_singleton] at taken
    obtain inside | rfl := taken
    · exact orderly entry inside
    · by_contra early
      simp [unauthenticated.mp (by simpa using early)] at authenticated
  · intro all
    have member : last ∈ s.log := log ▸ by simp
    have authenticated : s.core.authenticated = true := by
      by_contra not
      have early := unauthenticated.mpr (by simpa using not)
      simp [(all last member).1] at early
    have unskipped : s.log.countP skips = 0 :=
      List.countP_eq_zero.mpr fun entry taken => by simp [(all entry taken).2]
    refine ⟨⟨before, last, log, ready, ?_⟩, by omega⟩
    obtain ⟨entry, taken, authOk⟩ := follows.authenticated authenticated
    rw [log, List.mem_append, List.mem_singleton] at taken
    obtain inside | rfl := taken
    · exact ⟨entry, inside, authOk⟩
    · simp [isAuthOk_ready ready] at authOk

theorem early_unready (h : Handshake S) {msg : PgMessage} (ready : msg.isReady = false) :
    early (h, msg) = false := by
  rw [early]
  split <;> simp [ready]

theorem early_inSasl {h : Handshake S} (sasl : inSasl h = 1) (msg : PgMessage) :
    early (h, msg) = false := by
  rw [inSasl] at sasl
  rw [early]
  cases stage : h.stage <;> simp [stage] at sasl ⊢

theorem skips_not (h : Handshake S) (msg : PgMessage) (not : inSasl h = 0 ∨ msg.isAuthOk = false) :
    skips (h, msg) = false := by
  rw [inSasl] at not
  rw [skips]
  cases stage : h.stage <;> simp [stage] at not ⊢
  exact not

theorem Follows.push {h next : Handshake S} {msg : PgMessage} {log : Log S} (follows : Follows h log)
    (open_ : ¬ h.Returned)
    (authenticated : next.authenticated = h.authenticated ∨
      next.authenticated = true ∧ msg.isAuthOk = true)
    (exchanges : next.begun + h.finished + inSasl h =
      h.begun + next.finished + inSasl next + (skips (h, msg)).toNat)
    (ready : next.stage = .ready → next.authenticated = true)
    (oks : msg.isAuthOk = true → skips (h, msg) = true ∨ next.authenticated = true)
    (orderly : ¬ next.Returned → early (h, msg) = false)
    (stopped : next.Returned →
      msg.isReady = true ∧ (early (h, msg) = true ↔ next.authenticated = false)) :
    Follows next (log ++ [(h, msg)]) where
  authenticated is := by
    obtain same | ⟨-, ok⟩ := authenticated
    · obtain ⟨entry, member, ok⟩ := follows.authenticated (same ▸ is)
      exact ⟨entry, List.mem_append_left _ member, ok⟩
    · exact ⟨(h, msg), by simp, ok⟩
  exchanges := by
    have before := follows.exchanges
    have one : [(h, msg)].countP skips = (skips (h, msg)).toNat := by
      cases skipped : skips (h, msg) <;> simp [skipped]
    rw [List.countP_append, one]
    omega
  ready := ready
  oks entry member ok := by
    rw [List.mem_append, List.mem_singleton] at member
    obtain inside | rfl := member
    · refine (follows.oks entry inside ok).imp id fun is => ?_
      exact authenticated.elim (fun same => same ▸ is) fun gained => gained.1
    · exact oks ok
  orderly still entry member := by
    rw [List.mem_append, List.mem_singleton] at member
    obtain inside | rfl := member
    · exact follows.orderly open_ entry inside
    · exact orderly still
  stopped returned :=
    ⟨log, (h, msg), rfl, (stopped returned).1, (stopped returned).2, follows.orderly open_⟩

theorem Handled.follows {h next : Handshake S} {msg : PgMessage} {log : Log S}
    (handled : Handled h msg next) (follows : Follows h log) (open_ : ¬ h.Returned) :
    Follows next (log ++ [(h, msg)]) := by
  cases handled with
  | passed sent ready ok =>
    have outside : inSasl h = 0 ∨ inSasl h = 1 := by
      rw [inSasl]
      split <;> simp
    have unskipped : skips (h, msg) = false := by
      by_cases stage : h.stage = .ready
      · exact skips_not h msg (.inl (by rw [inSasl, stage]))
      · exact skips_not h msg (.inr (ok stage))
    refine follows.push open_ (.inl rfl) (by simp [unskipped, inSasl]) follows.ready ?_ ?_
      fun returned => absurd returned open_
    · intro authOk
      by_cases stage : h.stage = .ready
      · exact .inr (follows.ready stage)
      · simp [ok stage] at authOk
    · intro _
      obtain outside | sasl := outside
      · exact early_unready h (ready outside)
      · exact early_inSasl sasl msg
  | authenticated stage ok =>
    have outside : inSasl h = 0 := by rw [inSasl, stage]
    have unskipped := skips_not h msg (.inl outside)
    refine follows.push open_ (.inr ⟨rfl, ok⟩) (by simp [unskipped, inSasl]) (fun _ => rfl)
      (fun _ => .inr rfl) (fun _ => early_unready h ?_) fun returned => absurd returned open_
    exact isReady_auth ((isAuthOk_iff msg).mp ok).1
  | returned stage ready =>
    have outside : inSasl h = 0 := by rw [inSasl]; obtain stage | stage := stage <;> rw [stage]
    have unskipped := skips_not h msg (.inl outside)
    refine follows.push open_ (.inl rfl) (by rw [outside, unskipped]; rfl) (fun same => by cases same)
      (fun ok => by simp [isAuthOk_ready ready] at ok) (fun still => absurd trivial still) fun _ => ⟨ready, ?_⟩
    obtain stage | stage := stage
    · simp [early, stage, ready]
    · simp [early, stage, follows.ready stage]
  | begun stage scram sent ready ok =>
    have outside : inSasl h = 0 := by rw [inSasl, stage]
    have unskipped := skips_not h msg (.inl outside)
    exact follows.push open_ (.inl rfl) (by simp [unskipped, inSasl, stage]; omega) (fun same => by cases same)
      (fun is => by simp [ok] at is) (fun _ => early_unready h ready) fun returned => returned.elim
  | answered before stage after sent ready ok =>
    have unskipped := skips_not h msg (.inr ok)
    exact follows.push open_ (.inl rfl) (by simp [unskipped, inSasl, stage]) (fun same => by cases same)
      (fun is => by simp [ok] at is) (fun _ => early_unready h ready) fun returned => returned.elim
  | finished scram stage ready ok =>
    have unskipped := skips_not h msg (.inr ok)
    exact follows.push open_ (.inl rfl) (by simp [unskipped, inSasl, stage]; omega) (fun same => by cases same)
      (fun is => by simp [ok] at is) (fun _ => early_unready h ready) fun returned => returned.elim
  | skipped scram stage ok =>
    have inside : inSasl h = 1 := by rw [inSasl, stage]
    have skipped : skips (h, msg) = true := by simp [skips, stage, ok]
    exact follows.push open_ (.inl rfl) (by simp [skipped, inSasl, stage]) (fun same => by cases same)
      (fun _ => .inl skipped) (fun _ => early_inSasl inside msg) fun returned => returned.elim

theorem settle_follows {h : Handshake S} {log : Log S} (follows : Follows h log) : Follows h.settle log := by
  rw [Handshake.settle]
  split
  · rename_i stage
    split
    · rename_i authenticated
      obtain ⟨ok, exchanges, -, oks, orderly, -⟩ := follows
      refine ⟨ok, ?_, fun _ => authenticated, oks, fun _ => orderly ?_, fun returned => returned.elim⟩
      · rwa [inSasl, stage] at exchanges
      · simp [Handshake.Returned, stage]
    · exact follows
  · exact follows

def Tracks (s : Handshake S × Log S) : Prop := Failed s.1 ∨ Follows s.1 s.2

variable (lib : PgProtocol) (user password : String)

theorem takeMessage_tracks {s : Handshake lib.ScramSha256 × Log lib.ScramSha256} (open_ : ¬ s.1.Returned)
    (follows : Follows s.1 s.2) (msg : PgMessage) : Tracks (takeMessage lib user password s msg).1 :=
  (handle_handled lib user password open_ msg).imp id fun handled => handled.follows follows open_

theorem takeMessage_continued {s next : Handshake lib.ScramSha256 × Log lib.ScramSha256} {msg : PgMessage}
    (continued : takeMessage lib user password s msg = (next, none)) : ¬ next.1.Returned := by
  simp only [takeMessage, Prod.mk.injEq, ite_eq_left_iff, reduceCtorEq, imp_false, not_not] at continued
  obtain ⟨rfl, loops⟩ := continued
  exact not_returned_of_loops loops

theorem takeMessage_open (s : Handshake lib.ScramSha256 × Log lib.ScramSha256) (msg : PgMessage)
    (next : Handshake lib.ScramSha256 × Log lib.ScramSha256)
    (before : ¬ s.1.Returned ∧ Follows s.1 s.2)
    (continued : takeMessage lib user password s msg = (next, none)) :
    ¬ next.1.Returned ∧ Follows next.1 next.2 := by
  have open_ := takeMessage_continued lib user password continued
  have tracks := takeMessage_tracks lib user password before.1 before.2 msg
  rw [continued] at tracks
  exact ⟨open_, tracks.resolve_left fun failed => open_ failed.returned⟩

theorem pass_tracks {s : Connect lib.ScramSha256} (open_ : ¬ s.core.Returned) (follows : Follows s.core s.log)
    (read : Except String Bytes) :
    Tracks ((pass lib user password s read).core, (pass lib user password s read).log) := by
  unfold pass
  split
  · exact .inl (fail_failed _ _)
  · exact .inl (fail_failed _ _)
  · rename_i chunk _
    obtain ⟨ms, after, rest, passes, ends⟩ :=
      plainReader.drain_passes (takeMessage lib user password) (s.core, s.log) (s.buf ++ chunk)
    obtain ⟨still, holds⟩ := passes.invariant (takeMessage_open lib user password) ⟨open_, follows⟩
    obtain ⟨-, drained⟩ | ⟨e, -, failed⟩ | ⟨m, left, last, result, -, stops, stopped⟩ := ends
    · rw [drained]
      exact .inr (settle_follows holds)
    · rw [failed]
      exact .inl (fail_failed _ _)
    · rw [stopped]
      have tracks := takeMessage_tracks lib user password still holds m
      rw [stops] at tracks
      exact tracks

theorem step_tracks (s : Connect lib.ScramSha256) (read : Except String Bytes)
    (t : Connect lib.ScramSha256) (tracks : Tracks (s.core, s.log))
    (stepped : step lib user password s read = some t) : Tracks (t.core, t.log) := by
  rw [step] at stepped
  split at stepped
  · cases stepped
  · rename_i open_
    obtain rfl := Option.some.inj stepped
    obtain failed | follows := tracks
    · exact absurd failed.returned open_
    · exact pass_tracks lib user password open_ follows read

theorem complete_iff_orderly (reads : List (Except String Bytes)) (s : Connect lib.ScramSha256)
    (reached : Transition.run (step lib user password) {} reads = some s)
    (ok : s.core.stage = .returned (.ok ())) :
    s.Complete ↔ ∀ entry ∈ s.log, Orderly entry := by
  have tracks := Transition.invariant (step_tracks lib user password) (.inr follows_start) reached
  obtain ⟨error, failed⟩ | follows := tracks
  · simp [ok] at failed
  · exact complete_iff follows ok

def authentication (code : Int) (body : Bytes) : Bytes := PgMessage.encode ⟨'R'.toUInt8, putI32 code ++ body⟩

def serverFirst : String :=
  "r=9IZ2O01zb9IgiIZ1WJ/zgpJBjx/oIRLs02gGSHcw1KEty3eY,s=fs3IXBy7U7+IvVjZ,i=4096"

def clientFinal : String :=
  "c=biws,r=9IZ2O01zb9IgiIZ1WJ/zgpJBjx/oIRLs02gGSHcw1KEty3eY,p=AmNKosjJzS31NTlQYNs5BTeQjdHdk7lOflDo5re2an8="

def serverFinal : String := "v=U+ppxD5XUKtradnv8e2MkeupiA8FU87Sg8CXzXHDAzw="

-- One SCRAM exchange: the password is `foobar` and the client's nonce `9IZ2O01zb9IgiIZ1WJ/zgpJB`. The
-- state is the client's next message.
def oneExchange : PgProtocol where
  ScramSha256 := Bytes
  new _ := asBytes "n,,n=,r=9IZ2O01zb9IgiIZ1WJ/zgpJB"
  message scram := scram
  update _ message :=
    if message = asBytes serverFirst then .ok (asBytes clientFinal) else .error "invalid nonce"
  finish _ message := if message = asBytes serverFinal then .ok () else .error "SCRAM verification error"
  md5Hash _ _ _ := ""
  passwordMessage password := .ok (PgMessage.encode ⟨'p'.toUInt8, password ++ [0]⟩)
  saslInitialResponse mechanism data :=
    .ok (PgMessage.encode ⟨'p'.toUInt8, asBytes mechanism ++ [0] ++ putI32 data.length ++ data⟩)
  saslResponse data := .ok (PgMessage.encode ⟨'p'.toUInt8, data⟩)

instance : DecidableEq oneExchange.ScramSha256 := inferInstanceAs (DecidableEq Bytes)

instance (entry : Handshake S × PgMessage) : Decidable (Orderly entry) :=
  inferInstanceAs (Decidable (_ ∧ _))

def scramExchange : List (Except String Bytes) :=
  [.ok (authentication 10 (asBytes "SCRAM-SHA-256" ++ [0, 0])),
    .ok (authentication 11 (asBytes serverFirst)),
    .ok (authentication 12 (asBytes serverFinal) ++ buildAuthOk),
    .ok (buildParameterStatus "server_version" "16.2" ++ buildReadyForQuery 'I'.toUInt8)]

theorem complete_scramExchange :
    ∃ s, Transition.run (step oneExchange "app" "foobar") {} scramExchange = some s ∧
      s.core.stage = .returned (.ok ()) ∧ s.core.begun = 1 ∧ s.Complete := by
  obtain ⟨s, reached, ok, begun, orderly⟩ :
      ∃ s, Transition.run (step oneExchange "app" "foobar") {} scramExchange = some s ∧
        s.core.stage = .returned (.ok ()) ∧ s.core.begun = 1 ∧ ∀ entry ∈ s.log, Orderly entry :=
    Transition.exists_run (by decide)
  exact ⟨s, reached, ok, begun,
    (complete_iff_orderly oneExchange "app" "foobar" scramExchange s reached ok).mpr orderly⟩

-- ReadyForQuery alone, and the exchange with an AuthenticationOk in the place of the server's proof.
def unproven : List (Except String Bytes) :=
  [.ok (authentication 10 (asBytes "SCRAM-SHA-256" ++ [0, 0])),
    .ok (authentication 11 (asBytes serverFirst)), .ok buildAuthOk,
    .ok (buildReadyForQuery 'I'.toUInt8)]

theorem not_complete_unproven :
    (∃ s, Transition.run (step oneExchange "app" "foobar") {} [.ok (buildReadyForQuery 'I'.toUInt8)] =
        some s ∧ s.core.stage = .returned (.ok ()) ∧ ¬ s.Complete) ∧
      ∃ s, Transition.run (step oneExchange "app" "foobar") {} unproven = some s ∧
        s.core.stage = .returned (.ok ()) ∧ ¬ s.Complete := by
  constructor
  · obtain ⟨s, reached, ok, never⟩ :
        ∃ s, Transition.run (step oneExchange "app" "foobar") {} [.ok (buildReadyForQuery 'I'.toUInt8)] =
          some s ∧ s.core.stage = .returned (.ok ()) ∧ ∀ entry ∈ s.log, entry.2.isAuthOk = false :=
      Transition.exists_run (by decide)
    refine ⟨s, reached, ok, ?_⟩
    rintro ⟨⟨before, last, log, -, entry, member, authOk⟩, -⟩
    simp [never entry (log ▸ List.mem_append_left _ member)] at authOk
  · obtain ⟨s, reached, ok, unfinished⟩ :
        ∃ s, Transition.run (step oneExchange "app" "foobar") {} unproven = some s ∧
          s.core.stage = .returned (.ok ()) ∧ s.core.finished ≠ s.core.begun :=
      Transition.exists_run (by decide)
    exact ⟨s, reached, ok, fun complete => unfinished complete.2⟩

end Connect

end PgMux
