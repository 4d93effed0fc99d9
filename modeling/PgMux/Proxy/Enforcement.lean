import PgMux.Proxy.Requests

set_option autoImplicit false

namespace PgMux

open Request

namespace SlowLoop

def EachReply (ctx : Settings) (holds : Request → List Bytes → Prop) (l : SlowLoop) : Prop :=
  serverWrites l.written = l.requests.flatMap (reply ctx) ∧ ∀ r ∈ l.requests, holds r (r.reply ctx)

section EachReply

variable {ctx : Settings} {holds : Request → List Bytes → Prop}

theorem always_eachReply (each : ∀ r, Accepted r.raw → holds r (r.reply ctx))
    (scanner : MessageBoundaryScanner) (events : List Event) :
    Transition.Always (step ctx) (EachReply ctx holds) (start scanner) events :=
  (Transition.always responded_step events (responded_start ctx scanner)).mono fun _ responded =>
    ⟨responded.replies, fun r member => each r (responded.accepted r member)⟩

theorem always_eachReply_iff {guard : Request → Prop}
    (decides : ∀ r, Accepted r.raw → (holds r (r.reply ctx) ↔ guard r))
    (scanner : MessageBoundaryScanner) (events : List Event) :
    Transition.Always (step ctx) (EachReply ctx holds) (start scanner) events ↔
      Transition.Along (step ctx) (fun l event => ∀ r ∈ l.newRequests event, guard r) (start scanner)
        events :=
  always_requests_iff (fun _ responded => and_iff_right responded.replies) decides scanner events

theorem holds_of_single {s l : SlowLoop} {events : List Event} {r : Request} {out : List Bytes}
    (always : Transition.Always (step ctx) (EachReply ctx holds) s events)
    (ran : Transition.run (step ctx) s events = some l) (requests : l.requests = [r])
    (wrote : serverWrites l.written = out) : holds r out := by
  obtain ⟨replies, each⟩ := always.last ran
  rw [requests, wrote, List.flatMap_singleton] at replies
  rw [requests, List.forall_mem_singleton, ← replies] at each
  exact each

end EachReply

end SlowLoop

structure ReadOnlyOf (text : String) (msg : Bytes) : Prop where
  type : msg.headD 0 = 'Q'.toUInt8
  -- The length, read as an `i32`.
  length : getI32 (msg.drop 1) = (msg.drop 5).length + 4
  text : extractQueryText (parseRaw msg) = some ("SET TRANSACTION READ ONLY; " ++ text)

structure Enforces (ctx : Settings) (r : Request) (out : List Bytes) : Prop where
  free : ¬ (r.IsQuery ∧ r.OverLimit ctx) → out = [r.raw]
  unmodified : r.IsQuery → r.OverLimit ctx → (out = [r.raw] ↔
    ctx.cfg.monitor.allowShrinkOperationsWhenOverlimit = true ∧
      ∃ text ∈ r.text, isShrinkOperation text = true)
  rewritten : r.IsQuery → r.OverLimit ctx → out ≠ [r.raw] → ∀ text ∈ r.text,
    ∃ msg, out = [msg] ∧ ReadOnlyOf text msg
  dropped : r.IsQuery → r.OverLimit ctx → r.text = none → out = []

theorem readOnlyOf_readOnlyQuery {r : Request} (accepted : Accepted r.raw) {text : String}
    (found : r.text = some text) : ReadOnlyOf text (readOnlyQuery text) := by
  have wellFormed := readOnlyMessage_wellFormed accepted found
  have parsed : parseRaw (readOnlyQuery text) = readOnlyMessage text :=
    PgMessage.parseRaw_encode wellFormed
  obtain ⟨-, clean, -⟩ := extractQueryText_some.mp found
  refine ⟨?_, ?_, ?_⟩
  · exact congrArg PgMessage.msgType parsed
  · have payload : (readOnlyQuery text).drop 5 = (readOnlyMessage text).payload :=
      congrArg PgMessage.payload parsed
    rw [payload, readOnlyQuery, ← readOnlyMessage, PgMessage.encode_of_wellFormed wellFormed,
      List.drop_one, List.tail_cons]
    exact getI32_putI32 ((readOnlyMessage text).payload.length + 4) _ wellFormed.2
  · rw [parsed, extractQueryText_some, asBytes_append]
    refine ⟨rfl, ?_, [], ?_⟩
    · have first : 0 ∉ asBytes "SET TRANSACTION READ ONLY; " := by decide
      simp [first, clean]
    · rw [readOnlyMessage, asBytes_append]

-- The rewritten text is longer, so no query is rewritten to itself.
theorem ReadOnlyOf.ne_raw {r : Request} {text : String} (found : r.text = some text) {msg : Bytes}
    (readOnly : ReadOnlyOf text msg) : msg ≠ r.raw := by
  rintro rfl
  have same : some text = some ("SET TRANSACTION READ ONLY; " ++ text) := found.symm.trans readOnly.text
  have long := congrArg String.length (Option.some.inj same)
  rw [String.length_append] at long
  have first : "SET TRANSACTION READ ONLY; ".length = 27 := by decide
  omega

theorem reply_of_not_enforced {ctx : Settings} {r : Request} (not : ¬ r.Enforced ctx) :
    r.reply ctx = [r.raw] :=
  if_neg not

theorem reply_of_text {ctx : Settings} {r : Request} (enforced : r.Enforced ctx) {text : String}
    (found : r.text = some text) : r.reply ctx = [readOnlyQuery text] := by
  rw [reply, if_pos enforced, found]
  rfl

theorem reply_of_no_text {ctx : Settings} {r : Request} (enforced : r.Enforced ctx)
    (none : r.text = none) : r.reply ctx = [] := by
  rw [reply, if_pos enforced, none]
  rfl

theorem reply_unmodified {ctx : Settings} {r : Request} (accepted : Accepted r.raw) (query : r.IsQuery)
    (beyond : r.OverLimit ctx) : r.reply ctx = [r.raw] ↔ r.Exempt ctx := by
  by_cases exempt : r.Exempt ctx
  · exact iff_of_true (reply_of_not_enforced fun enforced => enforced.2.2 exempt) exempt
  · refine iff_of_false ?_ exempt
    have enforced : r.Enforced ctx := ⟨query, beyond, exempt⟩
    cases found : r.text with
    | none => simp [reply_of_no_text enforced found]
    | some text =>
      simpa [reply_of_text enforced found] using (readOnlyOf_readOnlyQuery accepted found).ne_raw found

theorem enforces_reply (ctx : Settings) (r : Request) (accepted : Accepted r.raw) :
    Enforces ctx r (r.reply ctx) where
  free not := reply_of_not_enforced fun enforced => not ⟨enforced.1, enforced.2.1⟩
  unmodified query beyond := reply_unmodified accepted query beyond
  rewritten query beyond modified text found := by
    have enforced : r.Enforced ctx :=
      ⟨query, beyond, fun exempt => modified ((reply_unmodified accepted query beyond).mpr exempt)⟩
    exact ⟨_, reply_of_text enforced found, readOnlyOf_readOnlyQuery accepted found⟩
  dropped query beyond none := by
    refine reply_of_no_text ⟨query, beyond, ?_⟩ none
    rintro ⟨-, text, found, -⟩
    simp [none] at found

/-- In every run, each simple query that the loop meets while the database is over its limit is
forwarded as it is exactly when it is exempt, and read only otherwise. -/
theorem SlowLoop.always_enforces (ctx : Settings) (scanner : MessageBoundaryScanner)
    (events : List Event) :
    Transition.Always (step ctx) (fun l => completeMessages l.clientRead = l.requests.map Request.raw ∧
      EachReply ctx (Enforces ctx) l) (start scanner) events := by
  refine Transition.Always.and ?_ (always_eachReply (enforces_reply ctx) scanner events)
  exact (Transition.always responded_step events (responded_start ctx scanner)).mono
    fun _ responded => responded.complete

end PgMux
