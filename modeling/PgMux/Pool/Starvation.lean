import PgMux.Pool.Wakeups

set_option autoImplicit false

namespace PgMux

def Task.outOfTime (cfg : PoolConfig) (now : Instant) : Task → Bool
  | .called _ => decide (now + fromMillis cfg.acquireTimeoutMs ≤ now)
  | .waiting _ deadline _ => decide (deadline ≤ now)
  | _ => false

namespace PoolManager

def Overdue (cfg : PoolConfig) (now : Instant) (m : PoolManager) (key : PoolKey) : Prop :=
  ∃ conn ∈ (m.pool key).idle, fromSecs cfg.idleTimeoutSecs < now - conn.lastUsed

def FreshUntil (cfg : PoolConfig) (m : PoolManager) (key : PoolKey) (last : Instant) : Prop :=
  ∀ conn ∈ (m.pool key).idle, last ≤ conn.lastUsed + fromSecs cfg.idleTimeoutSecs

instance (cfg : PoolConfig) (m : PoolManager) (key : PoolKey) (last : Instant) : Decidable (FreshUntil cfg m key last) :=
  inferInstanceAs (Decidable (∀ conn ∈ (m.pool key).idle, last ≤ conn.lastUsed + fromSecs cfg.idleTimeoutSecs))

theorem FreshUntil.not_overdue {cfg : PoolConfig} {m : PoolManager} {key : PoolKey} {last now : Instant}
    (fresh : FreshUntil cfg m key last) (inTime : now ≤ last) : ¬ Overdue cfg now m key := by
  rintro ⟨conn, idle, overdue⟩
  have bound := inTime.trans (fresh conn idle)
  exact absurd overdue (Nat.not_lt.mpr (Nat.sub_le_iff_le_add'.mpr bound))

theorem Alike.overdue {cfg : PoolConfig} {now : Instant} {m n : PoolManager} (alike : Alike m n)
    (key : PoolKey) : Overdue cfg now n key ↔ Overdue cfg now m key := by
  rw [Overdue, alike.idle, Overdue]

end PoolManager

namespace System

open PoolManager

theorem overdue_evicted {cfg : PoolConfig} {now : Instant} {m after : PoolManager} {own : PoolKey}
    (alike : Alike (m.evict own (m.pool own).idle.length) after) (key : PoolKey) :
    Overdue cfg now after key ↔ key ≠ own ∧ Overdue cfg now m key := by
  rw [alike.overdue, Overdue, evict_idle]
  split
  · rename_i same
    simp [same]
  · rename_i other
    simp [other, Overdue]

theorem acquireLoop_in_time {cfg : PoolConfig} {now : Instant} (i : Nat) (call : AcquireCall) {deadline : Instant}
    (fuel : Nat) (m : PoolManager) (early : now < deadline) (other : AcquireCall) (error : AcquireError) :
    (acquireLoop cfg now i call deadline fuel m).2 ≠ .failed other error := by
  induction fuel generalizing m with
  | zero => simp [acquireLoop, park]
  | succ fuel ih =>
    simp only [acquireLoop]
    cases pass : attempt cfg now call.key deadline m with
    | mk after result =>
      cases result with
      | reuse stream => simp
      | connect => simp
      | wait =>
        dsimp only
        split
        · exact ih _
        · simp [park]
      | bail error =>
        -- Both limits turn a caller away only when its deadline has come.
        have turned : (attempt cfg now call.key deadline m).2 = .bail error := by rw [pass]
        rw [attempt_eq] at turned
        simp only at turned
        split at turned
        · cases turned
        · simp only [checkCapacity, if_neg (Nat.not_le.mpr early)] at turned
          split_ifs at turned

theorem acquireLoop_globalLimit (cfg : PoolConfig) (now : Instant) (i : Nat) (call : AcquireCall)
    (deadline : Instant) (fuel : Nat) (m : PoolManager) :
    (∃ other, (acquireLoop cfg now i call deadline (fuel + 1) m).2 = .failed other .globalLimit) ↔
      deadline ≤ now ∧ (m.pool call.key).idle.dropWhile (expired cfg now) = [] ∧
        cfg.maxTotalConnections ≤
          (m.evict call.key (m.pool call.key).idle.length).totalServerConnections.value := by
  by_cases late : deadline ≤ now
  · simp only [acquireLoop, attempt_eq, late, true_and]
    cases fresh : (m.pool call.key).idle.dropWhile (expired cfg now) with
    | cons conn rest => simp
    | nil =>
      rw [length_takeWhile_of_dropWhile fresh]
      simp only [checkCapacity, late, if_true, true_and]
      split_ifs with global
      · simp [bail, global]
      · simp [bail, global]
      · simp [global]
  · refine iff_of_false ?_ (fun limited => late limited.1)
    rintro ⟨other, failed⟩
    exact acquireLoop_in_time i call (fuel + 1) m (Nat.lt_of_not_le late) other _ failed

theorem resume_globalLimit {cfg : PoolConfig} {s : System} (balanced : Balanced s) {i : Nat} {task : Task}
    (here : s.tasks[i]? = some task) (call : AcquireCall) (deadline : Instant) {m : PoolManager}
    (alike : Alike s.manager m) :
    (∃ other, (s.resume cfg i call deadline m).tasks[i]? = some (.failed other .globalLimit)) ↔
      deadline ≤ s.now ∧ s.nextIdle cfg call.key = none ∧
        cfg.maxTotalConnections ≤
          s.manager.totalServerConnections.value - (s.manager.pool call.key).idle.length := by
  have within := balanced.idle_le call.key
  rw [balanced.total] at within
  have left := evict_total call.key (m.pool call.key).idle.length (alike.total.trans balanced.total)
    (by rwa [alike.idle])
  have placed : (s.resume cfg i call deadline m).tasks[i]? =
      some (acquireLoop cfg s.now i call deadline 2 m).2 :=
    List.getElem?_set_self (List.getElem?_eq_some_iff.mp here).1
  simp only [placed, Option.some.injEq]
  rw [acquireLoop_globalLimit, left, alike.idle, nextIdle, List.head?_eq_none_iff, balanced.total]

theorem poll_globalLimit {cfg : PoolConfig} {s t : System} (balanced : Balanced s) {i : Nat} {task : Task}
    {call : AcquireCall} (here : s.tasks[i]? = some task) (asks : task.asking = some call)
    (stepped : step cfg s (.poll i) = some t) :
    (∃ other, t.tasks[i]? = some (.failed other .globalLimit)) ↔
      task.outOfTime cfg s.now = true ∧ s.nextIdle cfg call.key = none ∧
        cfg.maxTotalConnections ≤
          s.manager.totalServerConnections.value - (s.manager.pool call.key).idle.length := by
  cases step_steps stepped with
  | begin _ other there =>
    obtain rfl := Option.some.inj (there.symm.trans here)
    obtain rfl := Option.some.inj asks
    rw [resume_globalLimit balanced here other _ (alike_entry s.manager other.key), Task.outOfTime,
      decide_eq_true_eq]
  | wake _ other deadline there =>
    obtain rfl := Option.some.inj (there.symm.trans here)
    obtain rfl := Option.some.inj asks
    rw [resume_globalLimit balanced here other deadline (.refl s.manager), Task.outOfTime, decide_eq_true_eq]

theorem poll_overdue {cfg : PoolConfig} {s t : System} {i : Nat} {call : AcquireCall}
    (asks : s.asking i = some call) (stepped : step cfg s (.poll i) = some t)
    (none : s.nextIdle cfg call.key = none) (key : PoolKey) :
    Overdue cfg t.now t.manager key ↔ key ≠ call.key ∧ Overdue cfg s.now s.manager key := by
  have now : t.now = s.now := by
    cases step_steps stepped with
    | begin | wake => rfl
  obtain ⟨old, other, before, new, -, asked, -, alike, polled, -, -⟩ := poll_polled stepped
  obtain rfl := Option.some.inj (asks.symm.trans asked)
  rw [nextIdle, List.head?_eq_none_iff, ← alike.idle] at none
  rw [now, ← alike.overdue]
  generalize t.manager = after at polled ⊢
  cases polled with
  | reuse conn rest n fresh dropped => simp [none] at fresh
  | start _ empty room same | wait _ _ empty full same away => exact overdue_evicted same key

theorem expire_overdue (cfg : PoolConfig) (s : System) (i : Nat) (call : AcquireCall) (notified : Bool)
    (key : PoolKey) :
    Overdue cfg (s.timeOut i call notified).now (s.timeOut i call notified).manager key ↔
      Overdue cfg s.now s.manager key := by
  have left : Alike s.manager (s.leaving i call).manager :=
    (alike_bail s.manager call.key .timeout).trans (alike_setPool _ call.key _ rfl rfl)
  rw [timeOut_eq]
  split
  · have told := left.trans (alike_notifyOne (s.leaving i call) call.key)
    rw [notifyOne_now, told.overdue]
    rfl
  · exact left.overdue key

end System

end PgMux
