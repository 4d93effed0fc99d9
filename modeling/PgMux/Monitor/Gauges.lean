import PgMux.Monitor.Pass

set_option autoImplicit false

namespace PgMux

namespace Checking

open DbSizeMonitor Transition

variable {F : Type} (cfg : MonitorConfig) (asF64 : Nat → F)

def OverLimitShown (c : Checking F) : Prop :=
  ∀ db size, c.monitor.getDbSize db = some size →
    c.gauges.dbOverLimit.lookup db = some (asF64 (if (c.monitor.dbInfo cfg db).overLimit then 1 else 0))

/-- A limit that is registered puts a known size on the side of it on which it was reported before. -/
def KeepsSide (c : Checking F) : CheckingAction → Prop
  | .registerLimit db maxBytes => ∀ size ∈ c.monitor.getDbSize db,
      (maxBytes < size ↔ (c.monitor.dbInfo cfg db).overLimit = true)
  | _ => True

instance (c : Checking F) (a : CheckingAction) : Decidable (KeepsSide cfg c a) :=
  match a with
  | .registerLimit db maxBytes => inferInstanceAs (Decidable (∀ size ∈ c.monitor.getDbSize db,
      (maxBytes < size ↔ (c.monitor.dbInfo cfg db).overLimit = true)))
  | .registerSession _ _ | .unregisterSession _ | .tick | .connected _ | .answered _ => isTrue trivial

theorem dbInfo_overLimit {monitor : DbSizeMonitor} {db : String} {size limit : Nat}
    (known : monitor.getDbSize db = some size) (limited : monitor.getDbLimit cfg db = some limit) :
    (monitor.dbInfo cfg db).overLimit = decide (limit < size) := by
  simp [dbInfo, known, limited]

theorem dbInfo_congr {n m : DbSizeMonitor} (db : String) (size : n.getDbSize db = m.getDbSize db)
    (limit : n.dbLimits.lookup db = m.dbLimits.lookup db) : n.dbInfo cfg db = m.dbInfo cfg db := by
  have limits : n.getDbLimit cfg db = m.getDbLimit cfg db := by rw [getDbLimit, limit, getDbLimit]
  rw [dbInfo, dbInfo, size, limits]

theorem overLimitShown_congr {c d : Checking F} (sizes : d.monitor.dbSizes = c.monitor.dbSizes)
    (limits : d.monitor.dbLimits = c.monitor.dbLimits) (gauges : d.gauges = c.gauges) :
    OverLimitShown cfg asF64 d ↔ OverLimitShown cfg asF64 c := by
  have same (db : String) : d.monitor.dbInfo cfg db = c.monitor.dbInfo cfg db :=
    dbInfo_congr cfg db (congrArg (·.lookup db) sizes) (congrArg (·.lookup db) limits)
  simp only [OverLimitShown, getDbSize, sizes, gauges, same]

theorem recordSize_overLimit {monitor : DbSizeMonitor} (gauges : SizeGauges F) {db : String} (size : Nat) {limit : Nat}
    (limited : monitor.getDbLimit cfg db = some limit) (other : String) :
    (recordSize cfg asF64 monitor gauges db size).dbOverLimit.lookup other =
      if other = db then some (asF64 (if limit < size then 1 else 0)) else gauges.dbOverLimit.lookup other := by
  simp only [recordSize, limited]
  by_cases same : other = db
  · subst same
    rw [AList.lookup_insert, if_pos rfl]
  · rw [AList.lookup_insert_ne same, if_neg same]

theorem takeRow_shown {c : Checking F} {db : String} (row : Option Int) (tracked : db ∈ c.monitor.dbLimits)
    (shown : OverLimitShown cfg asF64 c) : OverLimitShown cfg asF64 (takeRow cfg asF64 c db row) := by
  cases row with
  | none => exact shown
  | some value =>
    obtain ⟨limit, found⟩ := Option.isSome_iff_exists.mp (AList.lookup_isSome.mpr tracked)
    have limited : DbSizeMonitor.getDbLimit cfg
        { c.monitor with dbSizes := c.monitor.dbSizes.insert db (asUsize value) } db = some limit := by
      rw [getDbLimit, found, Option.some_or]
    intro other size known
    have gauge := recordSize_overLimit cfg asF64 c.gauges (asUsize value) limited other
    by_cases same : other = db
    · subst same
      have measured : asUsize value = size := by simpa [takeRow, getDbSize] using known
      subst measured
      rw [if_pos rfl] at gauge
      rw [dbInfo_overLimit cfg known limited]
      simp only [decide_eq_true_eq]
      exact gauge
    · rw [if_neg same] at gauge
      rw [takeRow_getDbSize, if_neg same] at known
      have before := shown other size known
      have report := dbInfo_congr cfg (n := (takeRow cfg asF64 c db (some value)).monitor) (m := c.monitor) other
        (by rw [takeRow_getDbSize, if_neg same]) rfl
      rw [report]
      exact gauge.trans before

theorem Follows.tracked {c : Checking F} {m : DbSizeMonitor} (follows : Follows c m)
    {asked : List (String × Option Int)} {db : String} {rest : List String}
    (stage : c.stage = .querying asked (db :: rest)) : db ∈ c.monitor.dbLimits := by
  have once := follows.once
  rw [stage] at once
  rw [follows.limits]
  exact once.2.2 db (by simp)

variable {asF64}

theorem gauge_injective (differ : asF64 0 ≠ asF64 1) {first second : Bool}
    (same : asF64 (if first then 1 else 0) = asF64 (if second then 1 else 0)) : first = second := by
  cases first with
  | false =>
    cases second with
    | false => rfl
    | true => exact absurd same differ
  | true =>
    cases second with
    | false => exact absurd same.symm differ
    | true => rfl

theorem registerLimit_shown (differ : asF64 0 ≠ asF64 1) {c : Checking F} (shown : OverLimitShown cfg asF64 c)
    (database : String) (maxBytes : Nat) :
    OverLimitShown cfg asF64 { c with monitor := c.monitor.registerLimit database maxBytes } ↔
      KeepsSide cfg c (.registerLimit database maxBytes) := by
  have limited : (c.monitor.registerLimit database maxBytes).getDbLimit cfg database = some maxBytes := by
    simp [getDbLimit, DbSizeMonitor.registerLimit]
  constructor
  · intro after size known
    have gauge := after database size known
    have same : (c.monitor.registerLimit database maxBytes).getDbSize database = some size := known
    rw [dbInfo_overLimit cfg same limited, shown database size known, Option.some.injEq] at gauge
    rw [gauge_injective differ gauge, decide_eq_true_eq]
  · intro keeps other size known
    by_cases same : other = database
    · subst same
      have side := keeps size known
      have still : (c.monitor.registerLimit other maxBytes).getDbSize other = some size := known
      rw [dbInfo_overLimit cfg still limited, shown other size known]
      simp [side]
    · have report := dbInfo_congr cfg (n := c.monitor.registerLimit database maxBytes) (m := c.monitor) other rfl
        (AList.lookup_insert_ne same)
      rw [report]
      exact shown other size known

theorem step_shown (differ : asF64 0 ≠ asF64 1) (c : Checking F) (a : CheckingAction) (d : Checking F)
    (follows : ∃ m, Follows c m) (shown : OverLimitShown cfg asF64 c) (stepped : step cfg asF64 c a = some d) :
    OverLimitShown cfg asF64 d ↔ KeepsSide cfg c a := by
  cases a with
  | registerLimit database maxBytes =>
    obtain rfl := Option.some.inj stepped
    exact registerLimit_shown cfg differ shown database maxBytes
  | registerSession database limitBytes =>
    obtain rfl := Option.some.inj stepped
    exact iff_of_true ((overLimitShown_congr cfg asF64 rfl rfl rfl).mpr shown) trivial
  | unregisterSession id =>
    obtain rfl := Option.some.inj stepped
    exact iff_of_true ((overLimitShown_congr cfg asF64 rfl rfl rfl).mpr shown) trivial
  | tick =>
    refine iff_of_true ?_ trivial
    simp only [step] at stepped
    split at stepped
    · split at stepped <;> obtain rfl := Option.some.inj stepped <;> exact shown
    · cases stepped
  | connected ok =>
    refine iff_of_true ?_ trivial
    simp only [step] at stepped
    split at stepped
    · obtain rfl := Option.some.inj stepped
      exact shown
    · cases stepped
  | answered row =>
    refine iff_of_true ?_ trivial
    obtain ⟨m, follows⟩ := follows
    simp only [step] at stepped
    split at stepped
    · rename_i asked db rest stage
      have taken := takeRow_shown cfg asF64 row (follows.tracked stage) shown
      split at stepped
      · obtain rfl := Option.some.inj stepped
        exact (overLimitShown_congr cfg asF64 rfl rfl rfl).mpr taken
      · obtain rfl := Option.some.inj stepped
        exact taken
    · cases stepped

theorem overLimitShown_iff (differ : asF64 0 ≠ asF64 1) (actions : List CheckingAction) :
    Always (step cfg asF64) (OverLimitShown cfg asF64) {} actions ↔
      Along (step cfg asF64) (KeepsSide cfg) {} actions := by
  have follows : Always (step cfg asF64) (fun c => ∃ m, Follows c m) {} actions := by
    refine Always.of_recorded ((recorded_simulates (step_follows cfg asF64) follows_initial actions).mono ?_)
    rintro r ⟨m, -, after⟩
    exact ⟨m, after⟩
  refine always_iff_along ?_ ?_ follows ?_
  · exact fun c a d now _ before stepped => step_shown cfg differ c a d now before stepped
  · intro c a disabled
    cases a with
    | registerLimit database maxBytes => cases disabled
    | _ => trivial
  · intro db size known
    simp [getDbSize] at known

-- A database over its limit gets a higher limit, and is over that one too.
def limitRaised : List CheckingAction :=
  [.registerLimit "testdb" 100, .tick, .connected true, .answered (some 200), .registerLimit "testdb" 150]

theorem overLimitShown_limitRaised :
    Always (step {} (fun n : Nat => n)) (OverLimitShown {} fun n => n) {} limitRaised :=
  (overLimitShown_iff {} (by decide) limitRaised).mpr (by decide)

end Checking

end PgMux
