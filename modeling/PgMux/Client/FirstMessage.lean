import PgMux.Client.Boundaries

set_option autoImplicit false

namespace PgMux

namespace Dialogue

-- A round of phase 1 does what `try_read_message(buf, true)` says. A failure takes nothing, and the only
-- failure of phase 1 that takes nothing is a panic.
def Agrees (tls : Bool) (buf : Bytes) : Prop :=
  match tryReadMessage buf true with
  | .error _ => ∃ error, (∀ cause, error ≠ ClientError.panic cause) ∧
      readInitial tls buf = ([], .returned (.error error), buf)
  | .ok none => readInitial tls buf = ([], .startup, buf)
  | .ok (some (msg, rest)) =>
    readInitial tls buf = ((handleStartup msg.payload).1, (handleStartup msg.payload).2, rest)

/-- The length is one that `try_read_message` accepts; once the message is there as a whole, the length of
the buffer has not wrapped around, and the bytes behind the length are not the code of another request. -/
def InBounds (buf : Bytes) : Prop :=
  4 ≤ buf.length → (4 ≤ getI32 buf ∧ getI32 buf ≤ maxMessageSize) ∧
    (getI32 buf ≤ buf.length → Seen buf ∧ (8 ≤ buf.length →
      getI32 (buf.drop 4) ≠ sslRequestCode ∧ getI32 (buf.drop 4) ≠ cancelRequestCode))

instance (buf : Bytes) : Decidable (InBounds buf) := inferInstanceAs (Decidable (_ → _))

theorem asI32_le (n : Nat) : asI32 n ≤ n := by
  rw [asI32]
  have low := Nat.mod_le n (2 ^ 32)
  split <;> omega

theorem asUsize_bounds (buf : Bytes) :
    4 ≤ asUsize (getI32 buf) ∧ asUsize (getI32 buf) ≤ maxMessageSize ↔
      4 ≤ getI32 buf ∧ getI32 buf ≤ maxMessageSize := by
  have range := getI32_range buf
  have limit : maxMessageSize < 2 ^ 31 := by decide
  rw [asUsize]
  omega

section Round

variable {tls : Bool} {buf : Bytes}

theorem tryReadMessage_rejected (long : 4 ≤ buf.length)
    (outside : ¬ (4 ≤ getI32 buf ∧ getI32 buf ≤ maxMessageSize)) :
    tryReadMessage buf true = .error (.invalidStartupLength (asUsize (getI32 buf))) := by
  rw [← asUsize_bounds] at outside
  simp only [tryReadMessage, if_true]
  rw [if_neg (by omega), if_pos outside]

theorem tryReadMessage_cut (long : 4 ≤ buf.length) (bounds : 4 ≤ getI32 buf ∧ getI32 buf ≤ maxMessageSize)
    (cut : (buf.length : Int) < getI32 buf) : tryReadMessage buf true = .ok none := by
  have inside := (asUsize_bounds buf).mpr bounds
  have limit : maxMessageSize < 2 ^ 31 := by decide
  have stated := getI32_eq_asUsize (show asUsize (getI32 buf) < 2 ^ 31 by omega)
  simp only [tryReadMessage, if_true]
  rw [if_neg (by omega), if_neg (not_not.mpr inside), if_pos (by omega)]

theorem tryReadMessage_whole (long : 4 ≤ buf.length) (bounds : 4 ≤ getI32 buf ∧ getI32 buf ≤ maxMessageSize)
    (whole : getI32 buf ≤ buf.length) :
    tryReadMessage buf true = .ok (some (⟨0, payloadOf buf⟩, behindStartup buf)) := by
  have inside := (asUsize_bounds buf).mpr bounds
  have limit : maxMessageSize < 2 ^ 31 := by decide
  have stated := getI32_eq_asUsize (show asUsize (getI32 buf) < 2 ^ 31 by omega)
  simp only [tryReadMessage, if_true]
  rw [if_neg (by omega), if_neg (not_not.mpr inside), if_neg (by omega), List.drop_drop,
    show 4 + (asUsize (getI32 buf) - 4) = asUsize (getI32 buf) by omega]
  rfl

theorem readInitial_no_failure {error : ClientError} (noPanic : ∀ cause, error ≠ ClientError.panic cause) :
    readInitial tls buf ≠ ([], .returned (.error error), buf) := by
  unfold readInitial
  dsimp only
  split_ifs with short wait ssl accept cancel cut small
  · simp
  · simp
  · simp
  · simp
  · simp
  · simp
  · simp only [ne_eq, Prod.mk.injEq, ClientStage.returned.injEq, Except.error.injEq, not_and]
    exact fun _ same => absurd same.symm (noPanic _)
  · intro same
    have shorter := congrArg (fun round => round.2.2.length) same
    simp only [List.length_drop] at shorter
    omega

theorem readInitial_taken (long : 4 ≤ buf.length) (bounds : 4 ≤ getI32 buf ∧ getI32 buf ≤ maxMessageSize)
    (whole : getI32 buf ≤ buf.length) (seen : Seen buf)
    (coded : 8 ≤ buf.length →
      getI32 (buf.drop 4) ≠ sslRequestCode ∧ getI32 (buf.drop 4) ≠ cancelRequestCode) :
    readInitial tls buf =
      ((handleStartup (payloadOf buf)).1, (handleStartup (payloadOf buf)).2, behindStartup buf) := by
  have inside := (asUsize_bounds buf).mpr bounds
  have limit : maxMessageSize < 2 ^ 31 := by decide
  have stated := getI32_eq_asUsize (show asUsize (getI32 buf) < 2 ^ 31 by omega)
  rw [readInitial, if_neg (by omega), if_neg (by rw [Seen] at seen; omega),
    if_neg fun ssl => (coded ssl.1).1 ssl.2, if_neg fun cancel => (coded cancel.1).2 cancel.2]
  dsimp only
  rw [if_neg (by omega), if_neg (by omega)]
  rfl

theorem readInitial_missed (long : 4 ≤ buf.length) (bounds : 4 ≤ getI32 buf ∧ getI32 buf ≤ maxMessageSize)
    (whole : getI32 buf ≤ buf.length)
    (missed : ¬ (Seen buf ∧ (8 ≤ buf.length →
      getI32 (buf.drop 4) ≠ sslRequestCode ∧ getI32 (buf.drop 4) ≠ cancelRequestCode))) :
    readInitial tls buf ≠
      ((handleStartup (payloadOf buf)).1, (handleStartup (payloadOf buf)).2, behindStartup buf) := by
  have inside := (asUsize_bounds buf).mpr bounds
  have started := (handleStartup_stage (payloadOf buf)).1
  intro same
  have stage : (readInitial tls buf).2.1 ≠ .startup := by
    rw [same]
    exact started
  have rest : (readInitial tls buf).2.2.length < buf.length := by
    rw [same]
    simp only [behindStartup, List.length_drop]
    omega
  by_cases seen : Seen buf
  · rw [readInitial, if_neg (by omega), if_neg (by rw [Seen] at seen; omega)] at stage rest
    by_cases ssl : 8 ≤ buf.length ∧ getI32 (buf.drop 4) = sslRequestCode
    · rw [if_pos ssl] at stage
      cases tls <;> exact stage rfl
    · rw [if_neg ssl] at rest
      by_cases cancel : 8 ≤ buf.length ∧ getI32 (buf.drop 4) = cancelRequestCode
      · rw [if_pos cancel] at rest
        exact absurd rest (lt_irrefl _)
      · exact missed ⟨seen, fun eight => ⟨fun is => ssl ⟨eight, is⟩, fun is => cancel ⟨eight, is⟩⟩⟩
  · rw [readInitial_wait tls (.inr ⟨long, by rw [Seen] at seen; omega⟩)] at stage
    exact stage rfl

end Round

theorem agrees_iff (tls : Bool) (buf : Bytes) : Agrees tls buf ↔ InBounds buf := by
  by_cases long : 4 ≤ buf.length
  · rw [InBounds, forall_prop_of_true long]
    by_cases bounds : 4 ≤ getI32 buf ∧ getI32 buf ≤ maxMessageSize
    · by_cases whole : getI32 buf ≤ buf.length
      · rw [Agrees, tryReadMessage_whole long bounds whole, forall_prop_of_true whole]
        constructor
        · intro same
          by_contra missed
          exact readInitial_missed long bounds whole (fun taken => missed ⟨bounds, taken⟩) same
        · rintro ⟨-, seen, coded⟩
          exact readInitial_taken long bounds whole seen coded
      · rw [Agrees, tryReadMessage_cut long bounds (by omega)]
        have wrapped := asI32_le buf.length
        exact iff_of_true (readInitial_wait tls (.inr ⟨long, by omega⟩)) ⟨bounds, fun le => absurd le whole⟩
    · rw [Agrees, tryReadMessage_rejected long bounds]
      refine iff_of_false ?_ fun inBounds => bounds inBounds.1
      rintro ⟨error, noPanic, same⟩
      exact readInitial_no_failure noPanic same
  · have short : tryReadMessage buf true = .ok none := by
      simp only [tryReadMessage, if_true]
      exact if_pos (by omega)
    rw [Agrees, short]
    exact iff_of_true (readInitial_wait tls (.inl (by omega))) fun four => absurd four long

section Runs

variable (cfg : Config) (tls : Bool)

def Treated (s : Dialogue) (read : ClientRead) : Prop :=
  s.arrival.stage = .startup →
    match tryReadMessage (s.sent ++ read.chunk.1) true with
    | .error _ => ∃ error, (∀ cause, error ≠ ClientError.panic cause) ∧
        s.arrival.pass cfg tls (.ok read.chunk.1) read.loads =
          { s.arrival with stage := .returned (.error error), buf := s.sent ++ read.chunk.1 }
    | .ok none => s.arrival.pass cfg tls (.ok read.chunk.1) read.loads =
        { s.arrival with buf := s.sent ++ read.chunk.1 }
    | .ok (some (msg, rest)) => s.arrival.pass cfg tls (.ok read.chunk.1) read.loads =
        { s.arrival with
          stage := (handleStartup msg.payload).2
          buf := rest
          replies := s.arrival.replies ++ (handleStartup msg.payload).1 }

def SentInBounds (s : Dialogue) (read : ClientRead) : Prop :=
  s.arrival.stage = .startup → InBounds (s.sent ++ read.chunk.1)

def Buffered (s : Dialogue) : Prop := s.arrival.stage = .startup → s.arrival.buf = s.sent

variable {cfg tls}

theorem pass_eq_iff {s : Dialogue} {read : ClientRead} (stage : s.arrival.stage = .startup)
    {replies : List Bytes} {next : ClientStage} {rest : Bytes} :
    s.arrival.pass cfg tls (.ok read.chunk.1) read.loads =
        { s.arrival with stage := next, buf := rest, replies := s.arrival.replies ++ replies } ↔
      readInitial tls (s.arrival.buf ++ read.chunk.1) = (replies, next, rest) := by
  rw [pass_startup stage]
  constructor
  · intro same
    have stages := congrArg Arrival.stage same
    have buffers := congrArg Arrival.buf same
    have written := congrArg Arrival.replies same
    exact Prod.ext (List.append_cancel_left written) (Prod.ext stages buffers)
  · intro round
    rw [round]

theorem treated_iff {s : Dialogue} (buffered : Buffered s) (read : ClientRead) :
    Treated cfg tls s read ↔ SentInBounds s read := by
  apply forall_congr'
  intro stage
  rw [← agrees_iff tls, Agrees, ← buffered stage]
  generalize tryReadMessage (s.arrival.buf ++ read.chunk.1) true = taken
  have nothing : s.arrival.replies = s.arrival.replies ++ [] := (List.append_nil _).symm
  obtain error | _ | ⟨msg, rest⟩ := taken
  · apply exists_congr
    intro failure
    refine and_congr_right fun _ => ?_
    rw [← @pass_eq_iff cfg tls s read stage, ← nothing]
  · rw [← @pass_eq_iff cfg tls s read stage, ← nothing, ← stage]
  · exact pass_eq_iff stage

theorem started_step {s t : Dialogue} {read : ClientRead} (started : s.arrival.stage ≠ .startup)
    (stepped : step cfg tls s read = some t) : t.arrival.stage ≠ .startup := by
  by_cases waiting : Waiting s.arrival.stage
  · cases stage : s.arrival.stage with
    | startup => exact absurd stage started
    | password startupInfo =>
      rw [step, pass_password stage] at stepped
      obtain rfl := Option.some.inj stepped
      dsimp only
      split
      · exact ClientStage.noConfusion
      · exact started
      · rename_i msg rest taken
        intro (again : handlePassword startupInfo msg = .startup)
        have gone := handlePassword_stage startupInfo msg
        rw [again] at gone
        exact gone trivial
    | proxying startupInfo => simp [stage, Waiting] at waiting
    | returned result => simp [stage, Waiting] at waiting
  · have settled := step_settled cfg tls waiting stepped
    exact fun stage => settled (by rw [stage]; trivial)

theorem buffered_step {s t : Dialogue} {read : ClientRead} (treated : Treated cfg tls s read)
    (stepped : step cfg tls s read = some t) : Buffered t := by
  intro again
  by_cases stage : s.arrival.stage = .startup
  · have done := treated stage
    obtain rfl := Option.some.inj stepped
    dsimp only at again ⊢
    split at done
    · obtain ⟨error, -, same⟩ := done
      rw [same] at again
      cases again
    · rw [done]
    · rename_i msg rest taken
      rw [done] at again
      exact absurd again (handleStartup_stage msg.payload).1
  · exact absurd again (started_step stage stepped)

variable (cfg tls)

theorem startup_reader_agrees (reads : List ClientRead) :
    Transition.Along (step cfg tls) (Treated cfg tls) {} reads ↔
      Transition.Along (step cfg tls) SentInBounds {} reads :=
  Transition.along_iff_along (fun _ read buffered => treated_iff buffered read)
    (fun _ _ _ _ treated stepped => buffered_step treated stepped) fun _ => rfl

end Runs

def OpensWithStartup (stream : Bytes) : Prop :=
  ¬ sslRequest <+: stream ∧ ¬ putI32 16 ++ putI32 cancelRequestCode <+: stream

-- A message whose length is zero.
def zeroLength : List ClientRead := [brings [0, 0, 0, 0] (by decide)]

theorem startup_reader_disagrees :
    ¬ ∀ cfg tls reads, OpensWithStartup (sentBy reads) →
      Transition.Along (step cfg tls) (Treated cfg tls) {} reads := by
  intro agrees
  obtain ⟨treated, -⟩ := agrees {} false zeroLength ⟨by decide, by decide⟩
  obtain ⟨error, noPanic, same⟩ := treated rfl
  have panics : (readInitial false [0, 0, 0, 0]).2.1 = .returned (.error (.panic .outOfRange)) := by decide
  have stage := congrArg Arrival.stage same
  rw [pass_startup rfl] at stage
  exact noPanic .outOfRange (by simpa using stage.symm.trans panics)

end Dialogue

end PgMux
