import PgMux.Backend.Transactions
import PgMux.Proxy.Enforcement

set_option autoImplicit false

namespace PgMux

open Request

variable (server : Postgres) (ctx : Settings)

theorem statementsOf_raw {r : Request} {text : String} (found : r.text = some text) :
    server.statementsOf r.raw = server.parse text := by
  have extracted : extractQueryText (parseRaw r.raw) = some text := found
  rw [Postgres.statementsOf, extracted]
  rfl

theorem statementsOf_readOnlyQuery {r : Request} (accepted : Accepted r.raw) {text : String}
    (found : r.text = some text) :
    server.statementsOf (readOnlyQuery text) = (server.parse text).map (.setTransactionReadOnly :: ·) := by
  rw [Postgres.statementsOf, (readOnlyOf_readOnlyQuery accepted found).text]
  exact server.parse_readOnly text

/-- Whatever the transaction in which a rewritten query comes, every statement of it that runs behind
the one that the proxy has put first runs in a read-only transaction. -/
def RunsReadOnly (r : Request) (out : List Bytes) : Prop :=
  out ≠ [r.raw] → ∀ raw ∈ out, ∀ body ∈ server.statementsOf raw, ∀ t : Transaction,
    ∀ run ∈ (t.executions server.effect body).tail, run.2.readOnly = true

/-- Of a query that is rewritten, no statement that has another one behind it, and no error before it, takes
the read-only mode away. -/
def KeepsMode (r : Request) : Prop :=
  r.Enforced ctx → ∀ text ∈ r.text, ∀ body ∈ server.parse text,
    ∀ statement ∈ Statement.untilStop server.effect body.dropLast, ¬ statement.Frees server.effect

theorem executions_behind (effect : Effect) (body : List Statement) :
    (∀ t : Transaction, ∀ run ∈ (t.executions effect (.setTransactionReadOnly :: body)).tail,
        run.2.readOnly = true) ↔
      ∀ statement ∈ Statement.untilStop effect body.dropLast, ¬ statement.Frees effect := by
  constructor
  · intro all
    have fresh := all {}
    simp only [Transaction.executions, Transaction.after, Bool.false_eq_true, if_false,
      List.tail_cons] at fresh
    exact (Transaction.executions_readOnly rfl rfl body).mp fresh
  · intro keeps t
    cases sound : t.failed with
    | true => simp [Transaction.executions, Transaction.after, sound]
    | false =>
      simp only [Transaction.executions, Transaction.after, sound, Bool.false_eq_true, if_false,
        List.tail_cons]
      exact (Transaction.executions_readOnly rfl rfl body).mpr keeps

theorem runsReadOnly_reply (r : Request) (accepted : Accepted r.raw) :
    RunsReadOnly server r (r.reply ctx) ↔ KeepsMode server ctx r := by
  by_cases enforced : r.Enforced ctx
  · cases found : r.text with
    | none => simp [RunsReadOnly, KeepsMode, reply_of_no_text enforced found, found]
    | some text =>
      have rewritten : [readOnlyQuery text] ≠ [r.raw] := by
        simpa using (readOnlyOf_readOnlyQuery accepted found).ne_raw found
      simp only [RunsReadOnly, KeepsMode, reply_of_text enforced found, enforced, found, ne_eq,
        rewritten, not_false_iff, forall_const, List.forall_mem_singleton, Option.mem_def,
        Option.some.injEq, forall_eq', statementsOf_readOnlyQuery server accepted found,
        Option.map_eq_some_iff, forall_exists_index, and_imp, forall_apply_eq_imp_iff₂]
      exact forall_congr' fun body => forall_congr' fun _ => executions_behind server.effect body
  · have same := reply_of_not_enforced enforced
    simp [RunsReadOnly, KeepsMode, same, enforced]

theorem runsReadOnly_iff (scanner : MessageBoundaryScanner) (events : List Event) :
    Transition.Always (SlowLoop.step ctx) (SlowLoop.EachReply ctx (RunsReadOnly server))
        (SlowLoop.start scanner) events ↔
      Transition.Along (SlowLoop.step ctx)
        (fun l event => ∀ r ∈ l.newRequests event, KeepsMode server ctx r) (SlowLoop.start scanner)
        events :=
  SlowLoop.always_eachReply_iff (runsReadOnly_reply server ctx) scanner events

def commitThenInsert : String := "COMMIT; INSERT INTO t VALUES (1)"

theorem not_runsReadOnly_commitThenInsert :
    ¬ Transition.Always (SlowLoop.step testSettings)
      (SlowLoop.EachReply testSettings (RunsReadOnly plainPostgres)) (SlowLoop.start .new)
      [SlowLoop.overLimitReads (query commitThenInsert).encode] := by
  intro always
  obtain ⟨l, ran, requests, wrote⟩ : ∃ l, Transition.run (SlowLoop.step testSettings) (SlowLoop.start .new)
      [SlowLoop.overLimitReads (query commitThenInsert).encode] = some l ∧
      l.requests = [⟨(query commitThenInsert).encode, some 2000, 'I'.toUInt8⟩] ∧
      serverWrites l.written = [readOnlyQuery commitThenInsert] :=
    Transition.exists_run (by decide)
  have runs := SlowLoop.holds_of_single always ran requests wrote
  have insert := runs (by decide) (readOnlyQuery commitThenInsert) (by simp)
    [.setTransactionReadOnly, .commit, .other "INSERT INTO t VALUES (1)".toList] (by decide) {}
    (.other "INSERT INTO t VALUES (1)".toList, {}) (by decide)
  simp at insert

-- The status that a client has heard last, which was the given one before.
def reported (status : UInt8) (writes : List Write) : UInt8 :=
  writes.foldl (fun status write =>
    match write with
    | .toClient raw => if raw.headD 0 = 'Z'.toUInt8 ∧ raw.length = 6 then raw.getD 5 0 else status
    | _ => status) status

theorem reported_append (status : UInt8) (first second : List Write) :
    reported status (first ++ second) = reported (reported status first) second :=
  List.foldl_append

theorem reported_ofClient (status : UInt8) {writes : List Write}
    (quiet : ∀ write ∈ writes, write.ofClient = true) : reported status writes = status := by
  induction writes with
  | nil => rfl
  | cons write rest ih =>
    have here := quiet write (by simp)
    have later := ih fun other member => quiet other (by simp [member])
    cases write with
    | toClient raw => simp [Write.ofClient] at here
    | toServer bytes => exact later
    | notice bytes => exact later

theorem slowServerMessage_reported (loads : Loads) (status : UInt8) (pass : ServerPass)
    (m : PgMessage × Bytes) (tracked : pass.scanner.transactionStatus = reported status pass.writes) :
    (slowServerMessage loads pass m).1.scanner.transactionStatus =
      reported status (slowServerMessage loads pass m).1.writes := by
  have writes := (slowServerMessage_spec loads pass m).1
  rw [writes, reported_append, ← tracked]
  simp only [slowServerMessage, reported, List.foldl_cons, List.foldl_nil]
  split_ifs <;> rfl

theorem selectPass_reported {p : Proxy} {injected : Bool} (mode : p.mode = .slow injected)
    (event : Event) :
    (selectPass ctx p event).1.scanner.transactionStatus =
      reported p.scanner.transactionStatus (selectPass ctx p event).2.1 := by
  obtain ⟨peer, read, loads⟩ := event
  match peer, read with
  | _, .error cause => rfl
  | _, .ok [] => rfl
  | .client, .ok (first :: others) =>
    obtain ⟨rest, -, -, ends⟩ := SlowLoop.slowClient_responds ctx loads p injected (first :: others)
    have quiet := List.filter_eq_self.mp (SlowLoop.respondAll_clientSide ctx injected
      (requestsFrom loads p.scanner.transactionStatus 0
        (completeMessages (p.bufs.clientBuf ++ first :: others))))
    obtain ⟨-, run⟩ | ⟨e, -, run⟩ := ends
    · simp only [selectPass, mode, run, reported_ofClient _ quiet]
    · simp only [selectPass, mode, run, reported_ofClient _ quiet]
  | .server, .ok (first :: others) =>
    simp only [selectPass, mode, slowServer]
    exact messageReader.drain_invariant _ (slowServerMessage_reported loads p.scanner.transactionStatus)
      rfl _

theorem step_reported (status : UInt8) (l : SlowLoop) (event : Event) (t : SlowLoop)
    (responded : SlowLoop.Responded ctx l) (_ : SlowLoop.Responded ctx t)
    (tracked : l.proxy.scanner.transactionStatus = reported status l.written)
    (stepped : SlowLoop.step ctx l event = some t) :
    t.proxy.scanner.transactionStatus = reported status t.written := by
  obtain ⟨injected, mode, -⟩ := responded.responded
  simp only [SlowLoop.step] at stepped
  split at stepped
  · exact Option.some.inj stepped ▸ tracked
  · obtain rfl := Option.some.inj stepped
    rw [reported_append, ← tracked]
    exact selectPass_reported ctx mode event

theorem always_reported (scanner : MessageBoundaryScanner) (events : List Event) :
    Transition.Always (SlowLoop.step ctx)
      (fun l => l.proxy.scanner.transactionStatus = reported scanner.transactionStatus l.written)
      (SlowLoop.start scanner) events :=
  (Transition.always SlowLoop.responded_step events (SlowLoop.responded_start ctx scanner)).also
    (step_reported ctx scanner.transactionStatus) rfl

/-- A `COMMIT` or a `ROLLBACK` that comes while the last status of the server is that of a failed
transaction ends the failed transaction. -/
def EndsFailed (r : Request) (out : List Bytes) : Prop :=
  r.status = 'E'.toUInt8 → ∀ text ∈ r.text, ∀ statement : Statement, statement.Ends →
    server.parse text = some [statement] → ∀ t : Transaction, t.failed = true →
      ∃ raw ∈ out, ∃ body ∈ server.statementsOf raw, (t.afterAll server.effect body).failed = false

def EndsUnderLimit (r : Request) : Prop :=
  r.status = 'E'.toUInt8 → ∀ text ∈ r.text, ∀ statement : Statement, statement.Ends →
    server.parse text = some [statement] → ¬ r.OverLimit ctx ∨ r.Exempt ctx

theorem afterAll_ends (effect : Effect) {t : Transaction} {statement : Statement} (ends : statement.Ends) :
    (t.afterAll effect [statement]).failed = false := by
  simp [Transaction.afterAll, Transaction.after_of_ends t ends]

theorem afterAll_readOnly (effect : Effect) {t : Transaction} (failed : t.failed = true) (body : List Statement) :
    (t.afterAll effect (.setTransactionReadOnly :: body)).failed = true := by
  simp [Transaction.afterAll, Transaction.after, failed]

theorem endsFailed_reply (r : Request) (accepted : Accepted r.raw) :
    EndsFailed server r (r.reply ctx) ↔ EndsUnderLimit server ctx r := by
  refine forall_congr' fun _ => forall_congr' fun text => forall_congr' fun found =>
    forall_congr' fun statement => forall_congr' fun ends => forall_congr' fun parsed => ?_
  have found : r.text = some text := found
  obtain ⟨query, -⟩ := extractQueryText_some.mp found
  by_cases enforced : r.Enforced ctx
  · refine iff_of_false ?_ ?_
    · intro all
      obtain ⟨raw, written, body, executes, ended⟩ := all { failed := true } rfl
      rw [reply_of_text enforced found, List.mem_singleton] at written
      subst written
      rw [statementsOf_readOnlyQuery server accepted found, parsed] at executes
      obtain rfl : [.setTransactionReadOnly, statement] = body := by simpa using executes
      simp [afterAll_readOnly] at ended
    · exact fun free => free.elim (fun below => below enforced.2.1) enforced.2.2
  · refine iff_of_true ?_ ?_
    · intro t _
      refine ⟨r.raw, by simp [reply_of_not_enforced enforced], [statement], ?_, afterAll_ends server.effect ends⟩
      rw [statementsOf_raw server found]
      exact parsed
    · by_contra neither
      obtain ⟨beyond, bound⟩ := not_or.mp neither
      exact enforced ⟨query, not_not.mp beyond, bound⟩

theorem endsFailed_iff (scanner : MessageBoundaryScanner) (events : List Event) :
    Transition.Always (SlowLoop.step ctx)
        (fun l => l.proxy.scanner.transactionStatus = reported scanner.transactionStatus l.written)
        (SlowLoop.start scanner) events ∧
      (Transition.Always (SlowLoop.step ctx) (SlowLoop.EachReply ctx (EndsFailed server))
          (SlowLoop.start scanner) events ↔
        Transition.Along (SlowLoop.step ctx)
          (fun l event => ∀ r ∈ l.newRequests event, EndsUnderLimit server ctx r) (SlowLoop.start scanner)
          events) :=
  ⟨always_reported ctx scanner events,
    SlowLoop.always_eachReply_iff (endsFailed_reply server ctx) scanner events⟩

-- The server reports a failed transaction, and then the client asks for its end.
def rollbackFailed : List Event :=
  [⟨.server, .ok (readyForQuery 'E').encode, ⟨fun _ => true, fun _ => some 2000⟩⟩,
    SlowLoop.overLimitReads (query "ROLLBACK").encode]

theorem not_endsFailed_rollbackFailed :
    ¬ Transition.Always (SlowLoop.step testSettings)
      (SlowLoop.EachReply testSettings (EndsFailed plainPostgres)) (SlowLoop.start .new)
      rollbackFailed := by
  intro always
  obtain ⟨l, ran, requests, wrote⟩ : ∃ l, Transition.run (SlowLoop.step testSettings) (SlowLoop.start .new)
      rollbackFailed = some l ∧
      l.requests = [⟨(query "ROLLBACK").encode, some 2000, 'E'.toUInt8⟩] ∧
      serverWrites l.written = [readOnlyQuery "ROLLBACK"] :=
    Transition.exists_run (by decide)
  have ends := SlowLoop.holds_of_single always ran requests wrote
  obtain ⟨raw, written, body, executes, ended⟩ := ends rfl "ROLLBACK" (by decide) .rollback (.inr rfl)
    (by decide) { failed := true } rfl
  rw [List.mem_singleton] at written
  subst written
  have parsed : plainPostgres.statementsOf (readOnlyQuery "ROLLBACK") =
      some [.setTransactionReadOnly, .rollback] := by decide
  rw [parsed] at executes
  obtain rfl : [.setTransactionReadOnly, .rollback] = body := by simpa using executes
  simp [afterAll_readOnly] at ended

end PgMux
