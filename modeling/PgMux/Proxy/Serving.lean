import PgMux.Proxy.Enforcement

set_option autoImplicit false

namespace PgMux

open Request

/-- A message that the server has taken: the request of the client that led to it, whether its
statements ran (they do not after a syntax error or in a failed transaction), and the status of the
`ReadyForQuery` that answered it, if one did. -/
structure Execution where
  request : Request
  message : Bytes
  runs : Bool
  status : Option UInt8
deriving DecidableEq, Repr

structure Serving where
  loop : SlowLoop
  taken : Nat := 0
  -- What the server has taken since it last was idle.
  transaction : List Execution := []
  -- A statement that the proxy has put in front of a query has made the transaction read only.
  readOnly : Bool := false
  -- The shrink operations that ran, and whether the transaction was read only by then.
  shrinks : List (Request × Bool) := []
deriving DecidableEq, Repr

inductive ServingAction where
  | pass (event : Event)
  | execute (runs : Bool) (status : Option UInt8)

namespace Request

def Shrinks (r : Request) : Prop := ∃ text ∈ r.text, isShrinkOperation text = true

instance (r : Request) : Decidable r.Shrinks :=
  decidable_of_iff (r.text.any isShrinkOperation = true) (by simp [Shrinks, Option.any_eq_true])

end Request

namespace Serving

def start (scanner : MessageBoundaryScanner) : Serving := { loop := .start scanner }

-- What the loop has written to the server, each message with its request.
def sent (ctx : Settings) (l : SlowLoop) : List (Request × Bytes) :=
  l.requests.flatMap fun r => (r.reply ctx).map fun message => (r, message)

def idle : Option UInt8 := some 'I'.toUInt8

def take (s : Serving) (e : Execution) : Serving :=
  { s with
    taken := s.taken + 1
    transaction := if e.status = idle then [] else s.transaction ++ [e]
    readOnly := (s.readOnly || e.runs && decide (e.message ≠ e.request.raw)) && decide (e.status ≠ idle)
    shrinks := if e.runs ∧ e.request.Shrinks then s.shrinks ++ [(e.request, s.readOnly)] else s.shrinks }

def step (ctx : Settings) (s : Serving) : ServingAction → Option Serving
  | .pass event => (s.loop.step ctx event).map fun l => { s with loop := l }
  | .execute runs status =>
    (sent ctx s.loop)[s.taken]?.map fun m => s.take ⟨m.1, m.2, runs, status⟩

/-- The server has been sent the listed messages and no others, and none of the shrink operations
that ran did so in a transaction that the proxy had made read only. -/
def ShrinksFreely (ctx : Settings) (s : Serving) : Prop :=
  serverWrites s.loop.written = (sent ctx s.loop).map Prod.snd ∧ ∀ shrink ∈ s.shrinks, shrink.2 = false

/-- Before a shrink operation, no query has run in the same transaction that was over the limit and
not exempt. -/
def NoneEnforcedBefore (ctx : Settings) (s : Serving) : ServingAction → Prop
  | .execute true _ => ∀ m ∈ (sent ctx s.loop)[s.taken]?, m.1.Shrinks →
      ∀ e ∈ s.transaction, e.runs = true → e.request.text.isSome → ¬ e.request.Enforced ctx
  | _ => True

theorem sent_messages (ctx : Settings) (l : SlowLoop) :
    (sent ctx l).map Prod.snd = l.requests.flatMap (reply ctx) := by
  simp [sent, List.map_flatMap, Function.comp_def]

theorem rewritten_iff {ctx : Settings} {l : SlowLoop} (responded : SlowLoop.Responded ctx l)
    {r : Request} {message : Bytes} (member : (r, message) ∈ sent ctx l) :
    message ≠ r.raw ↔ r.text.isSome ∧ r.Enforced ctx := by
  obtain ⟨q, met, among⟩ := List.mem_flatMap.mp member
  obtain ⟨out, written, same⟩ := List.mem_map.mp among
  obtain ⟨rfl, rfl⟩ : q = r ∧ out = message := by simpa using same
  by_cases enforced : q.Enforced ctx
  · cases found : q.text with
    | none => simp [reply_of_no_text enforced found] at written
    | some text =>
      rw [reply_of_text enforced found, List.mem_singleton] at written
      subst written
      refine iff_of_true ?_ ⟨rfl, enforced⟩
      exact (readOnlyOf_readOnlyQuery (responded.accepted q met) found).ne_raw found
  · rw [reply_of_not_enforced enforced, List.mem_singleton] at written
    simp [written, enforced]

-- The transaction is read only if and only if a query that ran in it was rewritten.
structure Tracked (ctx : Settings) (s : Serving) : Prop where
  responded : SlowLoop.Responded ctx s.loop
  mode : s.readOnly = true ↔
    ∃ e ∈ s.transaction, e.runs = true ∧ e.request.text.isSome ∧ e.request.Enforced ctx

theorem tracked_start (ctx : Settings) (scanner : MessageBoundaryScanner) : Tracked ctx (start scanner) :=
  ⟨SlowLoop.responded_start ctx scanner, by simp [start]⟩

theorem Tracked.take {ctx : Settings} {s : Serving} (tracked : Tracked ctx s) {r : Request}
    {message : Bytes} (next : (sent ctx s.loop)[s.taken]? = some (r, message)) (runs : Bool)
    (status : Option UInt8) : Tracked ctx (s.take ⟨r, message, runs, status⟩) := by
  have rewritten := rewritten_iff tracked.responded (List.mem_of_getElem? next)
  refine ⟨tracked.responded, ?_⟩
  by_cases ends : status = idle
  · simp [Serving.take, ends]
  · simp only [Serving.take, ends, if_false, ne_eq, not_false_iff, decide_true, Bool.and_true,
      Bool.or_eq_true, Bool.and_eq_true, decide_eq_true_iff, tracked.mode, List.mem_append,
      List.mem_singleton, or_and_right, exists_or, exists_eq_left]
    rw [← ne_eq, rewritten]

theorem step_tracked {ctx : Settings} (s : Serving) (a : ServingAction) (t : Serving)
    (tracked : Tracked ctx s) (stepped : step ctx s a = some t) : Tracked ctx t := by
  cases a with
  | pass event =>
    obtain ⟨l, passed, rfl⟩ := Option.map_eq_some_iff.mp stepped
    exact ⟨SlowLoop.responded_step _ _ _ tracked.responded passed, tracked.mode⟩
  | execute runs status =>
    obtain ⟨m, next, rfl⟩ := Option.map_eq_some_iff.mp stepped
    exact tracked.take next runs status

theorem step_shrinksFreely {ctx : Settings} (s : Serving) (a : ServingAction) (t : Serving)
    (before : Tracked ctx s) (after : Tracked ctx t) (free : s.ShrinksFreely ctx)
    (stepped : step ctx s a = some t) : t.ShrinksFreely ctx ↔ NoneEnforcedBefore ctx s a := by
  have wrote : serverWrites t.loop.written = (sent ctx t.loop).map Prod.snd := by
    rw [after.responded.replies, sent_messages]
  rw [ShrinksFreely, and_iff_right wrote]
  cases a with
  | pass event =>
    obtain ⟨l, -, rfl⟩ := Option.map_eq_some_iff.mp stepped
    exact iff_of_true free.2 trivial
  | execute runs status =>
    obtain ⟨⟨r, message⟩, next, rfl⟩ := Option.map_eq_some_iff.mp stepped
    cases runs with
    | false => exact iff_of_true (by simpa [Serving.take] using free.2) trivial
    | true =>
      by_cases shrinks : r.Shrinks
      · have listed : (s.take ⟨r, message, true, status⟩).shrinks = s.shrinks ++ [(r, s.readOnly)] := by
          simp [Serving.take, shrinks]
        have mode : s.readOnly = false ↔ ∀ e ∈ s.transaction, e.runs = true →
            e.request.text.isSome → ¬ e.request.Enforced ctx := by
          rw [← Bool.not_eq_true, before.mode]
          simp
        simp only [listed, List.mem_append, List.mem_singleton, or_imp, forall_and, forall_eq,
          NoneEnforcedBefore, next, Option.mem_some, forall_eq', shrinks, forall_const, mode]
        exact and_iff_right free.2
      · refine iff_of_true (by simpa [Serving.take, shrinks] using free.2) ?_
        simp [NoneEnforcedBefore, next, shrinks]

theorem noneEnforcedBefore_of_disabled {ctx : Settings} (s : Serving) (a : ServingAction)
    (disabled : step ctx s a = none) : NoneEnforcedBefore ctx s a := by
  cases a with
  | pass event => trivial
  | execute runs status =>
    cases runs with
    | false => trivial
    | true =>
      have nothing : (sent ctx s.loop)[s.taken]? = none := Option.map_eq_none_iff.mp disabled
      simp [NoneEnforcedBefore, nothing]

theorem shrinksFreely_iff (ctx : Settings) (scanner : MessageBoundaryScanner)
    (actions : List ServingAction) :
    Transition.Always (step ctx) (ShrinksFreely ctx) (start scanner) actions ↔
      Transition.Along (step ctx) (NoneEnforcedBefore ctx) (start scanner) actions := by
  have tracked := Transition.always step_tracked actions (tracked_start ctx scanner)
  refine Transition.always_iff_along step_shrinksFreely noneEnforcedBefore_of_disabled tracked ?_
  exact ⟨rfl, by simp [start]⟩

-- Over the limit, a client begins a transaction and deletes rows in it.
def deleteInTransaction : List ServingAction :=
  [.pass (SlowLoop.overLimitReads (query "BEGIN").encode), .execute true (some 'T'.toUInt8),
    .pass (SlowLoop.overLimitReads (query "DELETE FROM t").encode), .execute true (some 'E'.toUInt8)]

theorem not_shrinksFreely_deleteInTransaction :
    testSettings.cfg.monitor.allowShrinkOperationsWhenOverlimit = true ∧
      ¬ Transition.Always (step testSettings) (ShrinksFreely testSettings) (start .new)
        deleteInTransaction := by
  refine ⟨rfl, fun always => ?_⟩
  obtain ⟨s, ran, shrinks⟩ : ∃ s, Transition.run (step testSettings) (start .new) deleteInTransaction =
      some s ∧ s.shrinks.map Prod.snd = [true] := Transition.exists_run (by decide)
  obtain ⟨shrink, member, readOnly⟩ := List.mem_map.mp (shrinks ▸ List.mem_singleton_self true)
  have free := (always.last ran).2 shrink member
  simp [readOnly] at free

end Serving

end PgMux
