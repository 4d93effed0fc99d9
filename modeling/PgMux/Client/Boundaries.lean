import PgMux.Client.Arrival

set_option autoImplicit false

namespace PgMux

namespace Dialogue

section Step

variable {cfg : Config} {tls : Bool} {s t : Dialogue} {read : ClientRead}

theorem pass_startup (stage : s.arrival.stage = .startup) :
    s.arrival.pass cfg tls (.ok read.chunk.1) read.loads =
      { s.arrival with
        stage := (readInitial tls (s.arrival.buf ++ read.chunk.1)).2.1
        buf := (readInitial tls (s.arrival.buf ++ read.chunk.1)).2.2
        replies := s.arrival.replies ++ (readInitial tls (s.arrival.buf ++ read.chunk.1)).1 } := by
  obtain ⟨⟨chunk, some⟩, loads⟩ := read
  obtain ⟨first, others, rfl⟩ := List.exists_cons_of_ne_nil some
  rw [Arrival.pass, stage]
  rfl

theorem matches_startup (stage : s.arrival.stage = .startup) (stepped : step cfg tls s read = some t) :
    Matches tls t ↔ Lands s.arrival.replies (ideal tls (s.sent ++ read.chunk.1))
      (readInitial tls (s.arrival.buf ++ read.chunk.1)) := by
  rw [step, pass_startup stage] at stepped
  obtain rfl := Option.some.inj stepped
  constructor
  · rintro ⟨stage, replies, kept, -⟩
    exact ⟨stage, replies, kept⟩
  · rintro ⟨stage, replies, kept⟩
    exact ⟨stage, replies, kept, fun proxying => absurd proxying (readInitial_proxying tls _)⟩

end Step

structure Inv (c : ClientStream) (s : Dialogue) : Prop where
  front : s.sent <+: c.bytes
  fast : ∃ pending, s.arrival.proxy.mode = .fast pending
  empty : s.arrival.proxy.bufs.clientBuf = []
  silent : ¬ Proxying s.arrival.stage → s.arrival.forwarded = []

section Step

variable {cfg : Config} {tls : Bool} {c : ClientStream} {s t : Dialogue} {read : ClientRead}

theorem fits_startup (tls : Bool) (buf : Bytes) : Fits tls .startup buf ↔
    (sslRequest <+: buf → Seen buf ∧ if tls then ¬ Whole (buf.drop 8) else buf = sslRequest) ∧
    (¬ sslRequest <+: buf → Whole buf → Seen buf ∧ ∀ startupInfo,
      (handleStartup (payloadOf buf)).2 = .password startupInfo →
        tryReadMessage (behindStartup buf) false = .ok none) := by
  constructor
  · intro fits
    exact ⟨fits.ssl rfl, fits.startup rfl⟩
  · rintro ⟨ssl, startup⟩
    exact ⟨fun _ => ssl, fun _ => startup, fun _ _ _ _ stage => by cases stage⟩

-- Behind an SSLRequest, or where there was none, the buffer holds the startup message.
theorem lands_fits (tls : Bool) (replies : List Bytes) {raw rest buf : Bytes} (is : IsStartup raw)
    (front : buf <+: raw ++ rest) :
    Lands replies (withStartup replies buf) (readInitial tls buf) ↔ Fits tls .startup buf := by
  have not := not_ssl_startup is front
  rw [lands_startup tls replies is front, fits_startup]
  simp only [not, false_imp_iff, true_and, not_false_iff, forall_const]

theorem cut_ssl {rest buf : Bytes} (front : buf <+: sslRequest ++ rest) (short : buf.length < 8) :
    ¬ sslRequest <+: buf ∧ ¬ Whole buf ∧
      (buf.length < 4 ∨ 4 ≤ buf.length ∧ asI32 buf.length < getI32 buf) := by
  have eight (long : 4 ≤ buf.length) : getI32 buf = 8 := by
    rw [← getI32_prefix front long, getI32_sslRequest]
  refine ⟨fun ssl => ?_, ?_, ?_⟩
  · have longer := ssl.length_le
    rw [sslRequest_length] at longer
    omega
  · rintro ⟨long, fits⟩
    have asked : asUsize 8 = 8 := by decide
    rw [eight long, asked] at fits
    omega
  · by_cases long : 4 ≤ buf.length
    · refine .inr ⟨long, ?_⟩
      rw [eight long, asI32_cast (by omega)]
      omega
    · exact .inl (by omega)

theorem lands_fits_ssl (tls : Bool) {rest buf : Bytes} (front : buf <+: sslRequest ++ rest) :
    Lands [] (ideal tls buf) (readInitial tls buf) ↔ Fits tls .startup buf := by
  obtain short | ⟨more, rfl⟩ := startup_or_short front
  · rw [sslRequest_length] at short
    obtain ⟨not, cut, wait⟩ := cut_ssl front short
    rw [readInitial_wait tls wait, ideal, if_neg not, withStartup_cut [] cut, fits_startup]
    exact iff_of_true ⟨rfl, rfl, fun _ => rfl⟩ ⟨fun ssl => absurd ssl not, fun _ whole => absurd whole cut⟩
  · have ssl : sslRequest <+: sslRequest ++ more := List.prefix_append _ _
    have behind : (sslRequest ++ more).drop 8 = more := List.drop_left' sslRequest_length
    rw [ideal, if_pos ssl, behind, lands_ssl, fits_startup, behind]
    simp only [ssl, forall_const, not_true_eq_false, false_imp_iff, and_true]

theorem ideal_startup {tls : Bool} {sent : Bytes} (stage : (ideal tls sent).stage = .startup) :
    (sslRequest <+: sent ∧ (ideal tls sent).replies = [sslReply tls] ∧ (ideal tls sent).buf = sent.drop 8) ∨
      (¬ sslRequest <+: sent ∧ (ideal tls sent).replies = [] ∧ (ideal tls sent).buf = sent) := by
  by_cases ssl : sslRequest <+: sent
  · have now : ideal tls sent = withStartup [sslReply tls] (sent.drop 8) := if_pos ssl
    rw [now, withStartup_stage] at stage
    rw [now, withStartup_cut _ stage]
    exact .inl ⟨ssl, rfl, rfl⟩
  · have now : ideal tls sent = withStartup [] sent := if_neg ssl
    rw [now, withStartup_stage] at stage
    rw [now, withStartup_cut _ stage]
    exact .inr ⟨ssl, rfl, rfl⟩

theorem startup_decides (matches_ : Matches tls s) (stage : s.arrival.stage = .startup)
    (front : s.sent ++ read.chunk.1 <+: c.bytes) (stepped : step cfg tls s read = some t) :
    Matches tls t ↔ Smooth tls s read := by
  rw [matches_startup stage stepped, Smooth, stage, matches_.replies, matches_.kept (by rw [stage]; trivial)]
  obtain ⟨ssl, replies, buf⟩ | ⟨unasked, replies, buf⟩ := ideal_startup (stage ▸ matches_.stage).symm
  · rw [replies, buf]
    obtain ⟨more, sent⟩ := ssl
    have dropped : s.sent.drop 8 = more := by rw [← sent, List.drop_left' sslRequest_length]
    have goes : ideal tls (s.sent ++ read.chunk.1) = withStartup [sslReply tls] (more ++ read.chunk.1) := by
      rw [ideal, ← sent, List.append_assoc, if_pos (List.prefix_append _ _), List.drop_left' sslRequest_length]
    rw [dropped, goes]
    rw [← sent, ClientStream.bytes] at front
    cases ssl : c.ssl with
    | true =>
      rw [ssl, if_pos rfl, List.append_assoc, List.append_assoc, List.prefix_append_right_inj] at front
      exact lands_fits tls _ c.isStartup front
    | false =>
      rw [ssl, if_neg (by decide), List.nil_append, List.append_assoc] at front
      exact absurd (List.prefix_append _ _) (not_ssl_startup c.isStartup front)
  · rw [replies, buf]
    rw [ClientStream.bytes] at front
    cases ssl : c.ssl with
    | true =>
      rw [ssl, if_pos rfl, List.append_assoc] at front
      exact lands_fits_ssl tls front
    | false =>
      rw [ssl, if_neg (by decide), List.nil_append] at front
      rw [ideal, if_neg (not_ssl_startup c.isStartup front)]
      exact lands_fits tls _ c.isStartup front

theorem proxying_handlePassword (startupInfo : ClientStartupInfo) (msg : PgMessage) :
    Proxying (handlePassword startupInfo msg) ↔ ∃ password, passwordOf msg = .ok password := by
  rw [handlePassword]
  cases given : passwordOf msg with
  | ok password => exact iff_of_true trivial ⟨password, rfl⟩
  | error error => exact iff_of_false (fun proxying => proxying) (by simp)

theorem pass_password {startupInfo : ClientStartupInfo} (stage : s.arrival.stage = .password startupInfo) :
    s.arrival.pass cfg tls (.ok read.chunk.1) read.loads =
      match tryReadMessage (s.arrival.buf ++ read.chunk.1) false with
      | .error error => s.arrival.fail (.message error)
      | .ok none => { s.arrival with buf := s.arrival.buf ++ read.chunk.1 }
      | .ok (some (msg, rest)) => { s.arrival with stage := handlePassword startupInfo msg, buf := rest } := by
  obtain ⟨⟨chunk, some⟩, loads⟩ := read
  obtain ⟨first, others, rfl⟩ := List.exists_cons_of_ne_nil some
  rw [Arrival.pass, stage]
  rfl

theorem fits_password {tls : Bool} {startupInfo : ClientStartupInfo} {buf : Bytes} :
    Fits tls (.password startupInfo) buf ↔ ∀ msg rest password,
      tryReadMessage buf false = .ok (some (msg, rest)) → passwordOf msg = .ok password → rest = [] := by
  constructor
  · intro fits msg rest password
    exact fits.password startupInfo msg rest password rfl
  · intro fits
    exact ⟨nofun, nofun, fun _ msg rest password _ => fits msg rest password⟩

theorem password_decides {startupInfo : ClientStartupInfo} (matches_ : Matches tls s)
    (stage : s.arrival.stage = .password startupInfo) (silent : s.arrival.forwarded = [])
    (stepped : step cfg tls s read = some t) : Matches tls t ↔ Smooth tls s read := by
  have now := matches_.stage
  rw [stage] at now
  have later := (ideal_append (by simp [← now]) read.chunk.1).2 startupInfo now.symm
  rw [← matches_.replies, ← matches_.kept (by rw [stage]; trivial)] at later
  rw [step, pass_password stage] at stepped
  obtain rfl := Option.some.inj stepped
  rw [Smooth, stage, fits_password]
  cases taken : tryReadMessage (s.arrival.buf ++ read.chunk.1) false with
  | error error =>
    rw [withPassword, taken] at later
    refine iff_of_true ?_ fun msg rest password some => by cases some
    constructor <;> dsimp only <;> rw [later]
    · rfl
    · rfl
    · exact fun waiting => waiting.elim
    · exact fun proxying => proxying.elim
  | ok taken_ =>
    cases taken_ with
    | none =>
      rw [withPassword, taken] at later
      refine iff_of_true ?_ fun msg rest password some => by cases some
      constructor <;> dsimp only <;> rw [later]
      · exact stage
      · exact fun _ => rfl
      · rw [stage]
        exact fun proxying => proxying.elim
    | some message =>
      obtain ⟨msg, rest⟩ := message
      rw [withPassword, taken] at later
      constructor
      · rintro ⟨-, -, -, forwarded⟩ other left password same given
        obtain ⟨rfl, rfl⟩ : msg = other ∧ rest = left := by simpa using same
        dsimp only at forwarded
        rw [later, silent] at forwarded
        exact (forwarded ((proxying_handlePassword startupInfo msg).mpr ⟨password, given⟩)).symm
      · intro fits
        constructor <;> dsimp only <;> rw [later]
        · exact fun waiting => absurd waiting (handlePassword_stage startupInfo msg)
        · intro proxying
          obtain ⟨password, given⟩ := (proxying_handlePassword startupInfo msg).mp proxying
          rw [silent, fits msg rest password rfl given]

theorem pass_proxying {startupInfo : ClientStartupInfo} {pending : Bool}
    (stage : s.arrival.stage = .proxying startupInfo) (fast : s.arrival.proxy.mode = .fast pending)
    (empty : s.arrival.proxy.bufs.clientBuf = []) :
    s.arrival.pass cfg tls (.ok read.chunk.1) read.loads =
      { s.arrival with
        proxy := (fastClient read.loads s.arrival.proxy pending read.chunk.1).1
        forwarded := s.arrival.forwarded ++ read.chunk.1 } := by
  obtain ⟨⟨chunk, some⟩, loads⟩ := read
  obtain ⟨first, others, rfl⟩ := List.exists_cons_of_ne_nil some
  simp [Arrival.pass, stage, Arrival.proxied, selectPass, fast, fastClient, next, forwardedBy, empty]

theorem pass_returned {result : Except ClientError Unit} (stage : s.arrival.stage = .returned result) :
    s.arrival.pass cfg tls (.ok read.chunk.1) read.loads = s.arrival := by
  rw [Arrival.pass, stage]

theorem smooth_settled (settled : ¬ Waiting s.arrival.stage) : Smooth tls s read := by
  rw [Smooth]
  cases stage : s.arrival.stage with
  | startup => exact absurd (by rw [stage]; trivial) settled
  | password startupInfo => exact absurd (by rw [stage]; trivial) settled
  | proxying startupInfo => exact ⟨nofun, nofun, fun _ _ _ _ => nofun⟩
  | returned result => exact ⟨nofun, nofun, fun _ _ _ _ => nofun⟩

theorem settled_matches (inv : Inv c s) (matches_ : Matches tls s) (settled : ¬ Waiting s.arrival.stage)
    (stepped : step cfg tls s read = some t) : Matches tls t := by
  have now := matches_.stage
  have started : (ideal tls s.sent).stage ≠ .startup := fun startup => by
    rw [now, startup] at settled
    exact settled trivial
  have later := (ideal_append started read.chunk.1).1 (now ▸ settled)
  rw [step] at stepped
  obtain rfl := Option.some.inj stepped
  cases stage : s.arrival.stage with
  | startup => exact absurd (by rw [stage]; trivial) settled
  | password startupInfo => exact absurd (by rw [stage]; trivial) settled
  | proxying startupInfo =>
    obtain ⟨pending, fast⟩ := inv.fast
    rw [pass_proxying stage fast inv.empty]
    constructor <;> dsimp only
    · rw [later.stage, ← now]
    · rw [later.replies, ← matches_.replies]
    · exact fun waiting => absurd waiting settled
    · intro proxying
      rw [later.forwarded (now ▸ proxying), ← matches_.forwarded proxying]
  | returned result =>
    rw [pass_returned stage]
    constructor <;> dsimp only
    · rw [later.stage, ← now]
    · rw [later.replies, ← matches_.replies]
    · exact fun waiting => absurd waiting settled
    · rw [stage]
      exact fun proxying => proxying.elim

theorem step_decides (cfg : Config) (tls : Bool) (c : ClientStream) (s : Dialogue) (read : ClientRead)
    (t : Dialogue) (inv : Inv c s) (after : Inv c t) (matches_ : Matches tls s)
    (stepped : step cfg tls s read = some t) : Matches tls t ↔ Smooth tls s read := by
  have front := after.front
  have sent : t.sent = s.sent ++ read.chunk.1 := (Option.some.inj stepped) ▸ rfl
  rw [sent] at front
  cases stage : s.arrival.stage with
  | startup => exact startup_decides matches_ stage front stepped
  | password startupInfo =>
    have silent := inv.silent (by rw [stage]; exact fun proxying => proxying)
    exact password_decides matches_ stage silent stepped
  | proxying startupInfo =>
    have settled : ¬ Waiting s.arrival.stage := by rw [stage]; exact fun waiting => waiting
    exact iff_of_true (settled_matches inv matches_ settled stepped) (smooth_settled settled)
  | returned result =>
    have settled : ¬ Waiting s.arrival.stage := by rw [stage]; exact fun waiting => waiting
    exact iff_of_true (settled_matches inv matches_ settled stepped) (smooth_settled settled)

theorem step_inv (inv : Inv c s) (stepped : step cfg tls s read = some t)
    (front : s.sent ++ read.chunk.1 <+: c.bytes) : Inv c t := by
  rw [step] at stepped
  obtain rfl := Option.some.inj stepped
  obtain ⟨pending, fast⟩ := inv.fast
  cases stage : s.arrival.stage with
  | startup =>
    rw [pass_startup stage]
    exact ⟨front, ⟨pending, fast⟩, inv.empty, fun _ => inv.silent (by rw [stage]; exact fun proxying => proxying)⟩
  | password startupInfo =>
    have silent := inv.silent (by rw [stage]; exact fun proxying => proxying)
    rw [pass_password stage]
    split <;> exact ⟨front, ⟨pending, fast⟩, inv.empty, fun _ => silent⟩
  | proxying startupInfo =>
    rw [pass_proxying stage fast inv.empty]
    exact ⟨front, ⟨_, rfl⟩, rfl, fun not => absurd (by rw [stage]; trivial) not⟩
  | returned result =>
    rw [pass_returned stage]
    exact ⟨front, ⟨pending, fast⟩, inv.empty, inv.silent⟩

end Step

def sentBy (reads : List ClientRead) : Bytes := joined (reads.map ClientRead.chunk)

theorem sentBy_cons (read : ClientRead) (reads : List ClientRead) :
    sentBy (read :: reads) = read.chunk.1 ++ sentBy reads := rfl

section Runs

variable (cfg : Config) (tls : Bool) (c : ClientStream)

theorem always_inv {s : Dialogue} {reads : List ClientRead} (inv : Inv c s)
    (front : s.sent ++ sentBy reads <+: c.bytes) : Transition.Always (step cfg tls) (Inv c) s reads := by
  induction reads generalizing s with
  | nil => exact inv
  | cons read reads ih =>
    refine ⟨inv, fun t stepped => ?_⟩
    rw [sentBy_cons, ← List.append_assoc] at front
    have sent : t.sent = s.sent ++ read.chunk.1 := (Option.some.inj stepped) ▸ rfl
    exact ih (step_inv inv stepped ((List.prefix_append _ _).trans front)) (by rw [sent]; exact front)

theorem matches_start : Matches tls {} := by
  have start : ideal tls [] = {} := by
    rw [ideal, if_neg (by decide), withStartup_cut [] (by decide)]
  exact ⟨by rw [start], by rw [start], fun _ => by rw [start], fun _ => by rw [start]⟩

theorem inv_start : Inv c {} := ⟨List.nil_prefix, ⟨false, rfl⟩, rfl, fun _ => rfl⟩

theorem always_matches_iff {reads : List ClientRead} (front : sentBy reads <+: c.bytes) :
    Transition.Always (step cfg tls) (Matches tls) {} reads ↔
      Transition.Along (step cfg tls) (Smooth tls) {} reads :=
  Transition.always_iff_along (step_decides cfg tls c) (fun _ _ stuck => by cases stuck)
    (always_inv cfg tls c (inv_start c) front) (matches_start tls)

theorem run_sent {s t : Dialogue} {reads : List ClientRead}
    (reached : Transition.run (step cfg tls) s reads = some t) : t.sent = s.sent ++ sentBy reads := by
  induction reads generalizing s with
  | nil =>
    obtain rfl := Option.some.inj reached
    exact (List.append_nil _).symm
  | cons read reads ih =>
    obtain ⟨u, stepped, later⟩ := Transition.run_cons.mp reached
    obtain rfl := Option.some.inj stepped
    rw [ih later, sentBy_cons, List.append_assoc]

theorem withStartup_proxying (replies : List Bytes) {raw rest buf : Bytes} (is : IsStartup raw)
    (front : buf <+: raw ++ rest) (proxying : Proxying (withStartup replies buf).stage) :
    ∃ password, Accepted password ∧ buf = raw ++ password ++ (withStartup replies buf).forwarded := by
  obtain short | ⟨left, rfl⟩ := startup_or_short front
  · rw [withStartup_cut replies (not_whole_short is front short)] at proxying
    exact proxying.elim
  · have whole := whole_startup is left
    by_cases password : ∃ startupInfo, (handleStartup (payloadOf (raw ++ left))).2 = .password startupInfo
    · obtain ⟨startupInfo, stage⟩ := password
      rw [withStartup_password replies whole stage, behindStartup_startup is left] at proxying ⊢
      cases read : tryReadMessage left false with
      | error error => simp [withPassword, read, Proxying] at proxying
      | ok taken =>
        cases taken with
        | none => simp [withPassword, read, Proxying] at proxying
        | some taken =>
          obtain ⟨msg, further⟩ := taken
          obtain ⟨password, same, accepted, -⟩ := tryReadMessage_some read
          refine ⟨password, accepted, ?_⟩
          simp only [withPassword, read]
          rw [same, List.append_assoc]
    · rw [withStartup_returned replies whole (not_exists.mp password)] at proxying
      cases at_ : (handleStartup (payloadOf (raw ++ left))).2 with
      | proxying startupInfo => exact absurd at_ ((handleStartup_stage _).2 startupInfo)
      | _ => simp [at_, Proxying] at proxying

theorem ideal_proxying {bytes : Bytes} (front : bytes <+: c.bytes)
    (proxying : Proxying (ideal tls bytes).stage) : ∃ password, Accepted password ∧
      bytes = (if c.ssl then sslRequest else []) ++ c.startup ++ password ++ (ideal tls bytes).forwarded := by
  have shape : c.bytes = (if c.ssl then sslRequest else []) ++ (c.startup ++ c.behind) := List.append_assoc _ _ _
  rw [shape] at front
  cases ssl : c.ssl with
  | true =>
    rw [ssl, if_pos rfl] at front
    obtain short | ⟨more, rfl⟩ := startup_or_short front
    · rw [sslRequest_length] at short
      obtain ⟨not, cut, -⟩ := cut_ssl front short
      rw [ideal, if_neg not, withStartup_cut [] cut] at proxying
      exact proxying.elim
    · rw [List.prefix_append_right_inj] at front
      have goes : ideal tls (sslRequest ++ more) = withStartup [sslReply tls] more := by
        rw [ideal, if_pos (List.prefix_append _ _), List.drop_left' sslRequest_length]
      rw [goes] at proxying ⊢
      obtain ⟨password, accepted, same⟩ := withStartup_proxying _ c.isStartup front proxying
      refine ⟨password, accepted, ?_⟩
      rw [if_pos rfl, List.append_assoc, List.append_assoc, ← List.append_assoc c.startup, ← same]
  | false =>
    rw [ssl, if_neg (by decide), List.nil_append] at front
    have goes : ideal tls bytes = withStartup [] bytes := if_neg (not_ssl_startup c.isStartup front)
    rw [goes] at proxying ⊢
    exact withStartup_proxying [] c.isStartup front proxying

theorem step_settled {s t : Dialogue} {read : ClientRead} (settled : ¬ Waiting s.arrival.stage)
    (stepped : step cfg tls s read = some t) : ¬ Waiting t.arrival.stage := by
  rw [step] at stepped
  obtain rfl := Option.some.inj stepped
  dsimp only
  cases stage : s.arrival.stage with
  | startup => exact absurd (by rw [stage]; trivial) settled
  | password startupInfo => exact absurd (by rw [stage]; trivial) settled
  | proxying startupInfo =>
    rw [Arrival.pass, stage]
    dsimp only
    rw [Arrival.proxied]
    dsimp only
    split
    · exact settled
    all_goals exact fun waiting => waiting
  | returned result =>
    rw [pass_returned stage]
    exact settled

theorem along_settled {s : Dialogue} (settled : ¬ Waiting s.arrival.stage) (reads : List ClientRead) :
    Transition.Along (step cfg tls) (Smooth tls) s reads := by
  induction reads generalizing s with
  | nil => trivial
  | cons read reads ih =>
    exact ⟨smooth_settled settled, fun t stepped => ih (step_settled cfg tls settled stepped)⟩

theorem along_password {s : Dialogue} {password : ClientRead} (accepted : Accepted password.chunk.1)
    (started : s.arrival.stage ≠ .startup) (empty : s.arrival.buf = []) (later : List ClientRead) :
    Transition.Along (step cfg tls) (Smooth tls) s (password :: later) := by
  cases stage : s.arrival.stage with
  | startup => exact absurd stage started
  | password startupInfo =>
    have took : tryReadMessage password.chunk.1 false = .ok (some (parseRaw password.chunk.1, [])) := by
      have read := plainReader_accepted accepted []
      rwa [List.append_nil] at read
    refine ⟨?_, fun t stepped => along_settled cfg tls ?_ later⟩
    · rw [Smooth, stage, empty, List.nil_append, fits_password, took]
      intro msg rest given same
      obtain ⟨rfl, rfl⟩ : parseRaw password.chunk.1 = msg ∧ [] = rest := by simpa using same
      exact fun _ => rfl
    · rw [step, pass_password stage, empty, List.nil_append, took] at stepped
      obtain rfl := Option.some.inj stepped
      exact handlePassword_stage startupInfo _
  | proxying startupInfo =>
    exact along_settled cfg tls (by rw [stage]; exact fun waiting => waiting) _
  | returned result =>
    exact along_settled cfg tls (by rw [stage]; exact fun waiting => waiting) _

theorem seen_startup {raw : Bytes} (is : IsStartup raw) : Seen raw := by
  rw [Seen, is.size, asI32_cast is.small]

theorem along_startup {s : Dialogue} {startup password : ClientRead} (whole : startup.chunk.1 = c.startup)
    (accepted : Accepted password.chunk.1) (stage : s.arrival.stage = .startup) (empty : s.arrival.buf = [])
    (later : List ClientRead) :
    Transition.Along (step cfg tls) (Smooth tls) s (startup :: password :: later) := by
  have all : c.startup = c.startup ++ [] := (List.append_nil _).symm
  have seen := seen_startup c.isStartup
  refine ⟨?_, fun t stepped => ?_⟩
  · rw [Smooth, stage, empty, List.nil_append, whole, ← lands_fits tls [] c.isStartup (List.prefix_append _ []),
      lands_startup tls [] c.isStartup (List.prefix_append _ [])]
    refine fun _ => ⟨seen, fun _ _ => ?_⟩
    rw [all, behindStartup_startup c.isStartup]
    rfl
  · have round := readInitial_startup tls c.isStartup (all ▸ seen)
    rw [← all] at round
    rw [step, pass_startup stage, empty, List.nil_append, whole, round] at stepped
    obtain rfl := Option.some.inj stepped
    exact along_password cfg tls accepted (handleStartup_stage _).1 rfl later

theorem along_singles {ssl startup password : ClientRead} (asks : ssl.chunk.1 = sslRequest)
    (whole : startup.chunk.1 = c.startup) (accepted : Accepted password.chunk.1) (later : List ClientRead) :
    Transition.Along (step cfg tls) (Smooth tls) {}
      ((if c.ssl then [ssl] else []) ++ startup :: password :: later) := by
  cases asked : c.ssl with
  | false => exact along_startup cfg tls c whole accepted rfl rfl later
  | true =>
    have seen : Seen sslRequest := by decide
    have round := readInitial_ssl tls [] (by rwa [List.append_nil])
    rw [List.append_nil] at round
    refine ⟨?_, fun t stepped => ?_⟩
    · have fits : Fits tls .startup sslRequest := by
        rw [fits_startup]
        refine ⟨fun _ => ⟨seen, ?_⟩, fun not => absurd (List.prefix_refl _) not⟩
        split
        · decide
        · rfl
      rw [Smooth, asks]
      exact fits
    · rw [step, pass_startup rfl, asks] at stepped
      dsimp only at stepped
      rw [List.nil_append, round] at stepped
      obtain rfl := Option.some.inj stepped
      exact along_startup cfg tls c whole accepted rfl (by cases tls <;> rfl) later

theorem handshakes_agree :
    (∀ ssl startup password later, ssl.chunk.1 = sslRequest → startup.chunk.1 = c.startup →
      Accepted password.chunk.1 →
      Transition.Along (step cfg tls) (Smooth tls) {}
        ((if c.ssl then [ssl] else []) ++ startup :: password :: later)) ∧
    (∀ reads, sentBy reads <+: c.bytes → (Transition.Always (step cfg tls) (Matches tls) {} reads ↔
      Transition.Along (step cfg tls) (Smooth tls) {} reads)) ∧
    ∀ first second s t, sentBy first <+: c.bytes → sentBy first = sentBy second →
      Transition.Along (step cfg tls) (Smooth tls) {} first →
      Transition.Along (step cfg tls) (Smooth tls) {} second →
      Transition.run (step cfg tls) {} first = some s → Transition.run (step cfg tls) {} second = some t →
        s.arrival.stage = t.arrival.stage ∧ s.arrival.replies = t.arrival.replies ∧
        (Proxying s.arrival.stage → s.arrival.forwarded = t.arrival.forwarded ∧
          ∃ password, Accepted password ∧ sentBy first =
            (if c.ssl then sslRequest else []) ++ c.startup ++ password ++ s.arrival.forwarded) := by
  refine ⟨fun ssl startup password later asks whole accepted =>
      along_singles cfg tls c asks whole accepted later,
    fun reads => always_matches_iff cfg tls c, ?_⟩
  intro first second s t front same smoothFirst smoothSecond reachedFirst reachedSecond
  have here := ((always_matches_iff cfg tls c front).mpr smoothFirst).last reachedFirst
  have there := ((always_matches_iff cfg tls c (same ▸ front)).mpr smoothSecond).last reachedSecond
  have sentFirst : s.sent = sentBy first := run_sent cfg tls reachedFirst
  have sentSecond : t.sent = sentBy first := (run_sent cfg tls reachedSecond).trans same.symm
  have stages : s.arrival.stage = t.arrival.stage := by
    rw [here.stage, there.stage, sentFirst, sentSecond]
  refine ⟨stages, by rw [here.replies, there.replies, sentFirst, sentSecond], fun proxying => ?_⟩
  have forwarded := here.forwarded proxying
  refine ⟨by rw [forwarded, there.forwarded (stages ▸ proxying), sentFirst, sentSecond], ?_⟩
  rw [forwarded, sentFirst]
  rw [here.stage, sentFirst] at proxying
  exact ideal_proxying tls c front proxying

end Runs

instance (tls : Bool) (s : Dialogue) : Decidable (Matches tls s) :=
  have (stage : ClientStage) : Decidable (Waiting stage) :=
    match stage with
    | .startup | .password _ => isTrue trivial
    | .proxying _ | .returned _ => isFalse fun waiting => waiting
  have (stage : ClientStage) : Decidable (Proxying stage) :=
    match stage with
    | .proxying _ => isTrue trivial
    | .startup | .password _ | .returned _ => isFalse fun proxying => proxying
  decidable_of_iff
    (s.arrival.stage = (ideal tls s.sent).stage ∧ s.arrival.replies = (ideal tls s.sent).replies ∧
      (Waiting s.arrival.stage → s.arrival.buf = (ideal tls s.sent).buf) ∧
      (Proxying s.arrival.stage → s.arrival.forwarded = (ideal tls s.sent).forwarded))
    ⟨fun h => ⟨h.1, h.2.1, h.2.2.1, h.2.2.2⟩, fun h => ⟨h.stage, h.replies, h.kept, h.forwarded⟩⟩

def startupPacket : Bytes :=
  let payload := putI32 196608 ++ asBytes "user" ++ [0] ++ asBytes "app" ++ [0] ++ [0]
  putI32 (payload.length + 4) ++ payload

def passwordMessage : Bytes := PgMessage.encode ⟨'p'.toUInt8, asBytes "secret" ++ [0]⟩

def query : Bytes := PgMessage.encode ⟨'Q'.toUInt8, asBytes "SELECT 1" ++ [0]⟩

def stream (ssl : Bool) : ClientStream where
  ssl := ssl
  startup := startupPacket
  isStartup := ⟨by decide, by decide, by decide, by decide⟩
  behind := passwordMessage ++ query

def brings (bytes : Bytes) (some : bytes ≠ []) : ClientRead := ⟨⟨bytes, some⟩, fun _ => false, fun _ => none⟩

-- A read for each message, and messages cut in their middle.
def single : List ClientRead :=
  [brings sslRequest (by decide), brings startupPacket (by decide), brings passwordMessage (by decide),
    brings query (by decide)]

def pieces : List ClientRead :=
  [brings (sslRequest.take 3) (by decide), brings (sslRequest.drop 3) (by decide),
    brings (startupPacket.take 9) (by decide), brings (startupPacket.drop 9 ++ passwordMessage.take 6) (by decide),
    brings (passwordMessage.drop 6) (by decide), brings query (by decide)]

theorem handshakes_agree_pieces :
    ∃ s t, Transition.run (step {} false) {} single = some s ∧
      Transition.run (step {} false) {} pieces = some t ∧ s.arrival.stage = t.arrival.stage ∧
      s.arrival.forwarded = query := by
  obtain ⟨-, exact_, agree⟩ := handshakes_agree {} false (stream true)
  obtain ⟨s, reached, forwarded⟩ : ∃ s, Transition.run (step {} false) {} single = some s ∧
      s.arrival.forwarded = query := Transition.exists_run (by decide +kernel)
  obtain ⟨t, other⟩ : ∃ t, Transition.run (step {} false) {} pieces = some t := ⟨_, rfl⟩
  have front : sentBy single <+: (stream true).bytes := by decide +kernel
  have same : sentBy single = sentBy pieces := by decide +kernel
  have smooth := (exact_ single front).mp (by decide +kernel)
  have smooth' := (exact_ pieces (same ▸ front)).mp (by decide +kernel)
  exact ⟨s, t, reached, other, (agree single pieces s t front same smooth smooth' reached other).1, forwarded⟩

def reached (reads : List ClientRead) : Option (ClientStage × Bytes × Bytes) :=
  (Transition.run (step {} false) {} reads).map fun s => (s.arrival.stage, s.arrival.buf, s.arrival.forwarded)

-- A password behind the startup message.
def passwordTogether : List ClientRead := [brings (startupPacket ++ passwordMessage) (by decide)]

def passwordApart : List ClientRead := [brings startupPacket (by decide), brings passwordMessage (by decide)]

-- A query behind the password.
def queryTogether : List ClientRead :=
  [brings startupPacket (by decide), brings (passwordMessage ++ query) (by decide)]

def queryApart : List ClientRead :=
  [brings startupPacket (by decide), brings passwordMessage (by decide), brings query (by decide)]

-- A startup message behind an SSLRequest.
def startupTogether : List ClientRead := [brings (sslRequest ++ startupPacket) (by decide)]

def startupApart : List ClientRead := [brings sslRequest (by decide), brings startupPacket (by decide)]

theorem not_agree_behind :
    (sentBy passwordTogether = sentBy passwordApart ∧
        reached passwordTogether = some (.password ⟨"app", "app", "", none, []⟩, passwordMessage, []) ∧
        reached passwordApart = some (.proxying ⟨"app", "app", "secret", none, []⟩, [], [])) ∧
      (sentBy queryTogether = sentBy queryApart ∧
        reached queryTogether = some (.proxying ⟨"app", "app", "secret", none, []⟩, query, []) ∧
        reached queryApart = some (.proxying ⟨"app", "app", "secret", none, []⟩, [], query)) ∧
      sentBy startupTogether = sentBy startupApart ∧
        reached startupTogether = some (.startup, [], []) ∧
        reached startupApart = some (.password ⟨"app", "app", "", none, []⟩, [], []) := by
  refine ⟨⟨?_, ?_, ?_⟩, ⟨?_, ?_, ?_⟩, ?_, ?_, ?_⟩ <;> decide +kernel

end Dialogue

end PgMux
