import PgMux.Statements
import PgMux.Proxy.Enforcement

set_option autoImplicit false

namespace PgMux

open Request

def AllShrink (text : String) : Prop :=
  ∀ statement ∈ statements text, ¬ Blank statement → BeginsShrink statement

instance (text : String) : Decidable (AllShrink text) := inferInstanceAs (Decidable (∀ _ ∈ _, _))

def ShrinkOnly (text : String) : Prop := isShrinkOperation text = true → AllShrink text

def LaterShrink (text : String) : Prop :=
  match statements text with
  | [] => True
  | first :: later => BeginsShrink first →
    ∀ statement ∈ later, ¬ Blank statement → BeginsShrink statement

theorem shrinkOnly_text (text : String) : ShrinkOnly text ↔ LaterShrink text := by
  obtain ⟨first, later, split⟩ := List.exists_cons_of_ne_nil (List.splitOn_ne_nil ';' text.toList)
  have split : statements text = first :: later := split
  simp only [ShrinkOnly, LaterShrink, AllShrink, isShrinkOperation_iff split, split, List.mem_cons,
    forall_eq_or_imp]
  constructor
  · exact fun all begins => (all begins).2
  · exact fun others begins => ⟨fun _ => begins, others begins⟩

def OnlyShrinksPass (ctx : Settings) (r : Request) (out : List Bytes) : Prop :=
  r.IsQuery → r.OverLimit ctx → out = [r.raw] → ∀ text ∈ r.text, AllShrink text

def NoOtherBehind (ctx : Settings) (r : Request) : Prop :=
  r.IsQuery → r.OverLimit ctx → ctx.cfg.monitor.allowShrinkOperationsWhenOverlimit = true →
    ∀ text ∈ r.text, LaterShrink text

theorem onlyShrinksPass_iff (ctx : Settings) (r : Request) (accepted : Accepted r.raw) :
    OnlyShrinksPass ctx r (r.reply ctx) ↔ NoOtherBehind ctx r := by
  refine forall_congr' fun query => forall_congr' fun beyond => ?_
  rw [reply_unmodified accepted query beyond, Exempt]
  cases found : r.text with
  | none => simp
  | some text =>
    simp only [Option.mem_def, Option.some.injEq, exists_eq_left', forall_eq', and_imp,
      ← shrinkOnly_text, ShrinkOnly]

theorem shrinkOnly_iff (text : String) (ctx : Settings) (scanner : MessageBoundaryScanner)
    (events : List Event) :
    (ShrinkOnly text ↔ LaterShrink text) ∧
      (Transition.Always (SlowLoop.step ctx) (SlowLoop.EachReply ctx (OnlyShrinksPass ctx))
          (SlowLoop.start scanner) events ↔
        Transition.Along (SlowLoop.step ctx) (fun l event => ∀ r ∈ l.newRequests event, NoOtherBehind ctx r)
          (SlowLoop.start scanner) events) :=
  ⟨shrinkOnly_text text, SlowLoop.always_eachReply_iff (onlyShrinksPass_iff ctx) scanner events⟩

def deleteThenInsert : String := "DELETE FROM t; INSERT INTO t VALUES (1)"

theorem not_shrinkOnly_deleteThenInsert :
    deleteThenInsert.toList.all (fun c => c ∉ ['\x27', '"', '$', '-', '/']) = true ∧ ¬ ShrinkOnly deleteThenInsert ∧
    ¬ Transition.Always (SlowLoop.step testSettings)
      (SlowLoop.EachReply testSettings (OnlyShrinksPass testSettings)) (SlowLoop.start .new)
      [SlowLoop.overLimitReads (query deleteThenInsert).encode] := by
  have bad : isShrinkOperation deleteThenInsert = true ∧ ¬ AllShrink deleteThenInsert := by decide
  refine ⟨by decide, fun only => bad.2 (only bad.1), fun always => ?_⟩
  obtain ⟨l, ran, requests, passed⟩ : ∃ l, Transition.run (SlowLoop.step testSettings) (SlowLoop.start .new)
      [SlowLoop.overLimitReads (query deleteThenInsert).encode] = some l ∧
      l.requests = [⟨(query deleteThenInsert).encode, some 2000, 'I'.toUInt8⟩] ∧
      serverWrites l.written = [(query deleteThenInsert).encode] :=
    Transition.exists_run (by decide)
  have onlyShrinks := SlowLoop.holds_of_single always ran requests passed
  exact bad.2 (onlyShrinks (by decide) (by decide) rfl deleteThenInsert (by decide))

end PgMux
