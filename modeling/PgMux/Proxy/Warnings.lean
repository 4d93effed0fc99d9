import PgMux.Proxy.Requests
import PgMux.Shared.Latch

set_option autoImplicit false

/-!
# Which queries the client is warned about

The flag `transaction_read_only_injected` is a latch. It knows nothing of transactions: a message that is not
enforced for its type or for the size of the database clears it, and nothing else does.
-/

namespace PgMux

open Request Transition

namespace Request

def clearsLatch (ctx : Settings) (r : Request) : Bool := !(asksSize r.raw && decide (r.OverLimit ctx))

def announces (ctx : Settings) (r : Request) : Bool := decide (r.Enforced ctx) && r.text.isSome

end Request

def behindNotices : List Write → List Bytes
  | .notice _ :: .toServer bytes :: rest => bytes :: behindNotices rest
  | _ :: rest => behindNotices rest
  | [] => []

theorem behindNotices_toServer (bytes : List Bytes) (rest : List Write) :
    behindNotices (bytes.map .toServer ++ rest) = behindNotices rest := by
  induction bytes with
  | nil => rfl
  | cons first others ih => exact ih

theorem notices_toServer (bytes : List Bytes) (rest : List Write) :
    notices (bytes.map .toServer ++ rest) = notices rest := by
  induction bytes with
  | nil => rfl
  | cons first others ih => exact ih

theorem respondAll_rises (ctx : Settings) (up : Bool) (requests : List Request) :
    notices (respondAll ctx up requests).2 =
        (Latch.rises (clearsLatch ctx) (announces ctx) up requests).map (fun _ => overLimitNotice ctx) ∧
      behindNotices (respondAll ctx up requests).2 =
        (Latch.rises (clearsLatch ctx) (announces ctx) up requests).flatMap (reply ctx) := by
  induction requests generalizing up with
  | nil => exact ⟨rfl, rfl⟩
  | cons r rest ih =>
    simp only [respondAll, Latch.rises]
    by_cases asks : asksSize r.raw = true ∧ r.OverLimit ctx
    · have keeps : ¬ clearsLatch ctx r = true := by simp [clearsLatch, asks]
      rw [respond, if_pos asks, if_neg keeps]
      by_cases enforced : r.Enforced ctx ∧ r.text.isSome = true
      · have sets : announces ctx r = true := by simpa [announces] using enforced
        obtain ⟨text, readable⟩ := Option.isSome_iff_exists.mp enforced.2
        have replies : r.reply ctx = [readOnlyQuery text] := by simp [reply, enforced.1, readable]
        obtain ⟨noticed, behind⟩ := ih true
        rw [if_pos enforced, if_pos sets, replies]
        cases up with
        | true => exact ⟨noticed, behind⟩
        | false =>
          constructor
          · exact congrArg (overLimitNotice ctx :: ·) noticed
          · simpa [behindNotices, replies] using behind
      · have quiet : ¬ announces ctx r = true := by simpa [announces] using enforced
        rw [if_neg enforced, if_neg quiet, notices_toServer, behindNotices_toServer]
        exact ih up
    · have clears : clearsLatch ctx r = true := by
        rw [clearsLatch, Bool.not_eq_true', ← Bool.not_eq_true]
        simpa using asks
      rw [respond, if_neg asks, if_pos clears, notices_toServer, behindNotices_toServer]
      exact ih false

namespace SlowLoop

/-- The queries that the client is warned about: the first one that is rewritten after each message that clears
the latch, and after the call of the loop. -/
def warned (ctx : Settings) (l : SlowLoop) : List Request :=
  (l.requests.splitOnP (clearsLatch ctx)).filterMap (List.find? (announces ctx))

theorem warned_once (ctx : Settings) (scanner : MessageBoundaryScanner) (events : List Event) :
    Always (step ctx) (fun l => notices l.written = (l.warned ctx).map (fun _ => overLimitNotice ctx) ∧
      behindNotices (clientSide l.written) = (l.warned ctx).flatMap (reply ctx)) (start scanner) events := by
  refine (always responded_step events (responded_start ctx scanner)).mono ?_
  rintro l ⟨-, -, -, injected, -, responses⟩
  obtain ⟨noticed, behind⟩ := respondAll_rises ctx false l.requests
  rw [responses, (Latch.rises_blocks _ _ l.requests).1] at noticed behind
  rw [← notices_clientSide]
  exact ⟨noticed, behind⟩

end SlowLoop

end PgMux
