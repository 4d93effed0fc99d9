import PgMux.Backend.Delivery

set_option autoImplicit false

namespace PgMux

namespace Delivery

variable (lib : PgProtocol) (user password : String)

theorem deliver_not_behindOk (h : Handshake lib.ScramSha256) (msg : PgMessage) (not : ¬ behindOk h) :
    ¬ behindOk (deliver lib user password h msg) := by
  rw [deliver]
  split
  · exact not
  · exact settle_not_behindOk _

theorem deliverAll_not_behindOk {h : Handshake lib.ScramSha256} (not : ¬ behindOk h) (bytes : Bytes) :
    ¬ behindOk (deliverAll lib user password h bytes) :=
  deliverAll_invariant lib user password (deliver_not_behindOk lib user password)
    (fun _ _ _ behind => by cases behind.1) not bytes

def collect (ms : List PgMessage) (msg : PgMessage) : List PgMessage × Option Empty := (ms ++ [msg], none)

theorem readAll_collects (h : Handshake lib.ScramSha256) (buf : Bytes) (first : List PgMessage) :
    ∃ ms, plainReader.Passes collect first buf ms (first ++ ms) (readAll lib user password h buf).2 := by
  obtain ⟨ms, after, rest, passes, ends⟩ := plainReader.drain_passes (takeOne lib user password) h buf
  rw [readAll]
  obtain ⟨-, drained⟩ | ⟨e, -, failed⟩ | ⟨m, left, last, result, took, -, stopped⟩ := ends
  · rw [drained]
    exact ⟨ms, passes.collects first⟩
  · rw [failed]
    exact ⟨ms, passes.collects first⟩
  · rw [stopped]
    have one : plainReader.Passes collect (first ++ ms) rest [m] (first ++ ms ++ [m]) left :=
      .head took rfl (.refl _ left)
    refine ⟨ms ++ [m], ?_⟩
    rw [← List.append_assoc]
    exact (passes.collects first).trans one

-- What the handshake has not taken of what was sent is in its buffer.
def Aligned (s : Delivery lib.ScramSha256) : Prop :=
  ¬ s.connect.core.Returned → ∃ ms, plainReader.Passes collect [] s.sent ms ms s.connect.buf

theorem Aligned.deliverAll {s : Delivery lib.ScramSha256} (aligned : Aligned lib s)
    (open_ : ¬ s.connect.core.Returned) (matches_ : Matches lib user password s) (more : Bytes) :
    deliverAll lib user password {} (s.sent ++ more) =
      deliverAll lib user password s.connect.core (s.connect.buf ++ more) := by
  obtain ⟨ms, passes⟩ := aligned open_
  have through := passes.transfer
    (fun _ _ => rfl : ∀ h msg, (deliverBody lib user password h msg).2 = none) {}
  have here : s.connect.core = ms.foldl (fun h m => (deliverBody lib user password h m).1) {} := by
    rw [matches_.core, Delivery.deliverAll, through.drain, plainReader.drain_drained (matches_.waits open_)]
  rw [here, Delivery.deliverAll, (through.append plainReader_incremental more).drain, Delivery.deliverAll]

theorem deliverAll_append {h : Handshake lib.ScramSha256} {bytes : Bytes}
    (returned : (deliverAll lib user password h bytes).Returned) (more : Bytes) :
    deliverAll lib user password h (bytes ++ more) = deliverAll lib user password h bytes := by
  rw [deliverAll] at returned
  rw [deliverAll, plainReader.drain_append plainReader_incremental, deliverAll]
  generalize plainReader.drain (deliverBody lib user password) h bytes = ended at returned
  obtain ⟨after, rest, ended⟩ := ended
  cases ended with
  | drained => exact deliverAll_returned lib user password returned (rest ++ more)
  | failed error => rfl
  | stopped result => rfl

theorem offer_open {s t : Delivery lib.ScramSha256} {chunk : Chunk} (open_ : ¬ s.connect.core.Returned)
    (stepped : offer lib user password s chunk = some t) :
    t.connect.core = (readAll lib user password s.connect.core (s.connect.buf ++ chunk.1)).1 ∧
      t.connect.buf = (readAll lib user password s.connect.core (s.connect.buf ++ chunk.1)).2 ∧
      t.sent = s.sent ++ chunk.1 := by
  rw [offer, if_neg open_] at stepped
  obtain rfl := Option.some.inj stepped
  obtain ⟨core, buf⟩ := pass_eq lib user password s.connect chunk
  exact ⟨core, buf, rfl⟩

theorem offer_returned {s t : Delivery lib.ScramSha256} {chunk : Chunk} (returned : s.connect.core.Returned)
    (stepped : offer lib user password s chunk = some t) :
    t = { s with sent := s.sent ++ chunk.1 } := by
  rw [offer, if_pos returned] at stepped
  exact (Option.some.inj stepped).symm

theorem offer_aligned (s : Delivery lib.ScramSha256) (chunk : Chunk) (t : Delivery lib.ScramSha256)
    (aligned : Aligned lib s) (stepped : offer lib user password s chunk = some t) : Aligned lib t := by
  intro still
  by_cases returned : s.connect.core.Returned
  · obtain rfl := offer_returned lib user password returned stepped
    exact absurd returned still
  · obtain ⟨-, buf, sent⟩ := offer_open lib user password returned stepped
    obtain ⟨before, passes⟩ := aligned returned
    obtain ⟨ms, later⟩ := readAll_collects lib user password s.connect.core (s.connect.buf ++ chunk.1) before
    rw [buf, sent]
    exact ⟨before ++ ms, (passes.append plainReader_incremental chunk.1).trans later⟩

theorem offer_matches (s : Delivery lib.ScramSha256) (chunk : Chunk) (t : Delivery lib.ScramSha256)
    (aligned : Aligned lib s) (matches_ : Matches lib user password s)
    (stepped : offer lib user password s chunk = some t) :
    Matches lib user password t ↔ Smooth lib user password s chunk := by
  by_cases returned : s.connect.core.Returned
  · obtain rfl := offer_returned lib user password returned stepped
    refine iff_of_true ⟨?_, matches_.waits, matches_.unread⟩ fun open_ => absurd returned open_
    have same := matches_.core
    rw [same] at returned
    exact same.trans (deliverAll_append lib user password returned chunk.1).symm
  · obtain ⟨core, buf, sent⟩ := offer_open lib user password returned stepped
    have settled : s.connect.core.settle = s.connect.core := by
      refine settle_of_not_behindOk ?_
      rw [matches_.core]
      exact deliverAll_not_behindOk lib user password (fun behind => by cases behind.2) s.sent
    have whole := aligned.deliverAll lib user password returned matches_ chunk.1
    rw [Smooth, forall_prop_of_true returned, ← agrees_iff_smoothFrom lib user password returned]
    constructor
    · rintro ⟨same, waits, unread⟩
      rw [core, sent, whole] at same
      rw [core, buf] at waits unread
      exact ⟨by rw [same, settled], waits, unread⟩
    · rintro ⟨same, waits, unread⟩
      rw [settled, ← whole, ← sent, ← core] at same
      rw [← core, ← buf] at waits unread
      exact ⟨same, waits, unread⟩

theorem matches_start : Matches lib user password {} := by
  refine ⟨?_, fun _ => rfl, fun _ => rfl⟩
  rw [deliverAll_none lib user password (by rfl)]

theorem aligned_start : Aligned lib {} := fun _ => ⟨[], .refl _ _⟩

theorem always_matches_iff (reads : List Chunk) :
    Transition.Always (offer lib user password) (Matches lib user password) {} reads ↔
      Transition.Along (offer lib user password) (Smooth lib user password) {} reads :=
  Transition.always_iff_along
    (fun s chunk t aligned _ matches_ stepped => offer_matches lib user password s chunk t aligned matches_ stepped)
    (fun _ _ stuck => by cases stuck)
    (Transition.always (offer_aligned lib user password) reads (aligned_start lib))
    (matches_start lib user password)

theorem run_sent {s t : Delivery lib.ScramSha256} {reads : List Chunk}
    (reached : Transition.run (offer lib user password) s reads = some t) : t.sent = s.sent ++ joined reads := by
  induction reads generalizing s with
  | nil =>
    obtain rfl := Option.some.inj reached
    simp [joined]
  | cons chunk reads ih =>
    obtain ⟨u, stepped, later⟩ := Transition.run_cons.mp reached
    obtain rfl := Option.some.inj stepped
    rw [ih later, List.append_assoc]
    rfl

theorem run_matches {s : Delivery lib.ScramSha256} {reads : List Chunk}
    (smooth : Transition.Along (offer lib user password) (Smooth lib user password) {} reads)
    (reached : Transition.run (offer lib user password) {} reads = some s) :
    s.connect.core = deliverAll lib user password {} (joined reads) ∧
      (outcome s = some (.ok ()) → s.connect.buf = []) := by
  have last := ((always_matches_iff lib user password reads).mpr smooth).last reached
  refine ⟨?_, fun ok => last.unread ?_⟩
  · rw [last.core, run_sent lib user password reached]
    rfl
  · rw [outcome] at ok
    cases stage : s.connect.core.stage <;> simp [stage] at ok ⊢
    exact ok

-- Between two reads that bring whole messages.
def Between (s : Delivery lib.ScramSha256) : Prop :=
  ¬ s.connect.core.Returned → s.connect.buf = [] ∧ ¬ behindOk s.connect.core

theorem readAll_single (h : Handshake lib.ScramSha256) {raw : Bytes} (accepted : Accepted raw) :
    (readAll lib user password h raw).2 = [] ∧ ¬ behindOk (readAll lib user password h raw).1 := by
  have took := plainReader_accepted accepted []
  rw [List.append_nil] at took
  cases loops : (handle lib user password h (parseRaw raw)).loops with
  | true =>
    rw [readAll_loops lib user password took loops, readAll_none lib user password (by rfl)]
    exact ⟨rfl, settle_not_behindOk _⟩
  | false =>
    rw [readAll_stops lib user password took loops]
    exact ⟨rfl, not_behindOk_of_stops loops⟩

theorem smoothFrom_single {h : Handshake lib.ScramSha256} (not : ¬ behindOk h) {raw : Bytes}
    (accepted : Accepted raw) : SmoothFrom lib user password h raw := by
  have took := plainReader_accepted accepted []
  rw [List.append_nil] at took
  refine (smoothFrom_cons lib user password took).mpr ⟨?_, fun _ => ?_⟩
  · exact ⟨fun behind => absurd behind not, fun behind => absurd behind not, fun _ => rfl, fun _ _ => rfl⟩
  · exact smoothFrom_vacuous lib user password fun taken same => by cases same

theorem along_singles (raws : List Chunk) (accepted : ∀ raw ∈ raws, Accepted raw.1)
    {s : Delivery lib.ScramSha256} (between : Between lib s) :
    Transition.Along (offer lib user password) (Smooth lib user password) s raws := by
  induction raws generalizing s with
  | nil => trivial
  | cons raw raws ih =>
    have whole := accepted raw (by simp)
    refine ⟨fun open_ => ?_, fun t stepped => ih (fun other member => accepted other (by simp [member])) ?_⟩
    · rw [(between open_).1]
      exact smoothFrom_single lib user password (between open_).2 whole
    · intro still
      by_cases returned : s.connect.core.Returned
      · obtain rfl := offer_returned lib user password returned stepped
        exact absurd returned still
      · obtain ⟨core, buf, -⟩ := offer_open lib user password returned stepped
        rw [core, buf, (between returned).1]
        exact readAll_single lib user password s.connect.core whole

theorem cuttings_agree :
    (∀ raws : List Chunk, (∀ raw ∈ raws, Accepted raw.1) →
      Transition.Along (offer lib user password) (Smooth lib user password) {} raws) ∧
    (∀ reads, Transition.Always (offer lib user password) (Matches lib user password) {} reads ↔
      Transition.Along (offer lib user password) (Smooth lib user password) {} reads) ∧
    ∀ first second s t, joined first = joined second →
      Transition.Along (offer lib user password) (Smooth lib user password) {} first →
      Transition.Along (offer lib user password) (Smooth lib user password) {} second →
      Transition.run (offer lib user password) {} first = some s →
      Transition.run (offer lib user password) {} second = some t →
        s.connect.core = t.connect.core ∧ outcome s = outcome t ∧
          (outcome s = some (.ok ()) → s.connect.buf = [] ∧ t.connect.buf = []) := by
  have start : Between lib {} := fun _ => ⟨rfl, fun behind => by cases behind.2⟩
  refine ⟨fun raws accepted => along_singles lib user password raws accepted start,
    always_matches_iff lib user password, ?_⟩
  intro first second s t same smoothFirst smoothSecond reachedFirst reachedSecond
  obtain ⟨coreFirst, unreadFirst⟩ := run_matches lib user password smoothFirst reachedFirst
  obtain ⟨coreSecond, unreadSecond⟩ := run_matches lib user password smoothSecond reachedSecond
  have core : s.connect.core = t.connect.core := by rw [coreFirst, coreSecond, same]
  have ends : outcome s = outcome t := by rw [outcome, outcome, core]
  exact ⟨core, ends, fun ok => ⟨unreadFirst ok, unreadSecond (ends ▸ ok)⟩⟩

instance [DecidableEq lib.ScramSha256] (s : Delivery lib.ScramSha256) :
    Decidable (Matches lib user password s) :=
  decidable_of_iff
    (s.connect.core = deliverAll lib user password {} s.sent ∧
      (¬ s.connect.core.Returned → plainReader.read s.connect.buf = .ok none) ∧
      (s.connect.core.stage = .returned (.ok ()) → s.connect.buf = []))
    ⟨fun h => ⟨h.1, h.2.1, h.2.2⟩, fun h => ⟨h.core, h.waits, h.unread⟩⟩

def scramStart : List Chunk :=
  [⟨Connect.authentication 10 (asBytes "SCRAM-SHA-256" ++ [0, 0]), by decide⟩,
    ⟨Connect.authentication 11 (asBytes Connect.serverFirst), by decide⟩]

def saslFinal : Bytes := Connect.authentication 12 (asBytes Connect.serverFinal)

def ready : Bytes := buildReadyForQuery 'I'.toUInt8

def together : List Chunk := scramStart ++ [⟨saslFinal ++ buildAuthOk ++ ready, by decide⟩]

def apart : List Chunk :=
  scramStart ++ [⟨saslFinal, by decide⟩, ⟨buildAuthOk, by decide⟩, ⟨ready, by decide⟩]

theorem cuttings_agree_scram :
    ∃ s t, Transition.run (offer Connect.oneExchange "app" "foobar") {} together = some s ∧
      Transition.run (offer Connect.oneExchange "app" "foobar") {} apart = some t ∧
      outcome s = some (.ok ()) ∧ outcome s = outcome t := by
  obtain ⟨s, reached, ok⟩ : ∃ s, Transition.run (offer Connect.oneExchange "app" "foobar") {} together =
      some s ∧ outcome s = some (.ok ()) :=
    Transition.exists_run (by decide)
  obtain ⟨t, other⟩ : ∃ t, Transition.run (offer Connect.oneExchange "app" "foobar") {} apart = some t :=
    ⟨_, rfl⟩
  obtain ⟨-, exact_, agree⟩ := cuttings_agree Connect.oneExchange "app" "foobar"
  have smooth := (exact_ together).mp (by decide +kernel)
  have smooth' := (exact_ apart).mp (by decide +kernel)
  have same : joined together = joined apart := by decide +kernel
  exact ⟨s, t, reached, other, ok, (agree together apart s t same smooth smooth' reached other).2.1⟩

def notice : Bytes := buildNoticeResponse "NOTICE" "00000" "hello"

def noDatabase : Bytes := buildErrorResponse "FATAL" "3D000" "database \"x\" does not exist"

def ended (reads : List Chunk) : Option (Option (Except ConnectError Unit) × Bytes) :=
  (Transition.run (offer Connect.oneExchange "app" "foobar") {} reads).map fun s => (outcome s, s.connect.buf)

-- An error behind AuthenticationOk.
def errorTogether : List Chunk := [⟨buildAuthOk ++ noDatabase, by decide⟩]

def errorApart : List Chunk := [⟨buildAuthOk, by decide⟩, ⟨noDatabase, by decide⟩]

-- A notice in front of SASLFinal.
def noticeTogether : List Chunk := scramStart ++ [⟨notice ++ saslFinal ++ buildAuthOk ++ ready, by decide⟩]

def noticeApart : List Chunk :=
  scramStart ++ [⟨notice, by decide⟩, ⟨saslFinal ++ buildAuthOk ++ ready, by decide⟩]

theorem not_agree_together :
    (joined errorTogether = joined errorApart ∧
        (ended errorTogether).map Prod.fst ≠ (ended errorApart).map Prod.fst) ∧
      (joined noticeTogether = joined noticeApart ∧
        (ended noticeTogether).map Prod.fst = some none ∧ ended noticeApart = some (some (.ok ()), [])) ∧
      -- A notice behind ReadyForQuery.
      ended [⟨buildAuthOk ++ ready ++ notice, by decide⟩] = some (some (.ok ()), notice) := by
  refine ⟨⟨?_, ?_⟩, ⟨?_, ?_, ?_⟩, ?_⟩ <;> decide +kernel

end Delivery

end PgMux
