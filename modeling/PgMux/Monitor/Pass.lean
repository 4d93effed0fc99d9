import PgMux.Client.Reports
import PgMux.Shared.History

set_option autoImplicit false

/-!
# A pass of the size check between the sessions

`check_all_sizes` awaits its connection and then one query for each database, and sessions come and go at
every await. Here a pass is taken apart into these steps.
-/

namespace PgMux

structure SizeGauges (F : Type) where
  dbSizeBytes : Tally.Table String F := ∅
  dbSizeLimitBytes : Tally.Table String F := ∅
  dbOverLimit : Tally.Table String F := ∅

inductive CheckStage where
  -- In `ticker.tick()`.
  | waiting
  -- In `tokio_postgres::connect`.
  | connecting (databases : List String)
  -- In `query_one` for the first of the rest. The others have been asked, and have answered this.
  | querying (asked : List (String × Option Int)) (rest : List String)

structure Checking (F : Type) where
  monitor : DbSizeMonitor := {}
  stage : CheckStage := .waiting
  gauges : SizeGauges F := {}

inductive CheckingAction where
  | registerLimit (database : String) (maxBytes : Nat)
  | registerSession (database : String) (limitBytes : Nat)
  | unregisterSession (id : Nat)
  | tick
  | connected (ok : Bool)
  | answered (row : Option Int)

namespace Checking

open DbSizeMonitor Transition

variable {F : Type} (cfg : MonitorConfig) (asF64 : Nat → F)

def recordSize (monitor : DbSizeMonitor) (gauges : SizeGauges F) (db : String) (size : Nat) : SizeGauges F :=
  let gauges := { gauges with dbSizeBytes := gauges.dbSizeBytes.insert db (asF64 size) }
  match monitor.getDbLimit cfg db with
  | some limit =>
    { gauges with
      dbSizeLimitBytes := gauges.dbSizeLimitBytes.insert db (asF64 limit)
      dbOverLimit := gauges.dbOverLimit.insert db (asF64 (if limit < size then 1 else 0)) }
  | none => gauges

-- The match on the result of `query_one`.
def takeRow (c : Checking F) (db : String) (row : Option Int) : Checking F :=
  match row with
  | some size =>
    let size := asUsize size
    let monitor := { c.monitor with dbSizes := c.monitor.dbSizes.insert db size }
    { c with monitor := monitor, gauges := recordSize cfg asF64 monitor c.gauges db size }
  | none => c

def updateFlags (monitor : DbSizeMonitor) : DbSizeMonitor :=
  { monitor with sessions := Tally.mapValues (updateFlag monitor.dbSizes) monitor.sessions }

def step (c : Checking F) : CheckingAction → Option (Checking F)
  | .registerLimit database maxBytes => some { c with monitor := c.monitor.registerLimit database maxBytes }
  | .registerSession database limitBytes =>
    some { c with monitor := (c.monitor.registerSession database limitBytes).1 }
  | .unregisterSession id => some { c with monitor := c.monitor.unregisterSession id }
  | .tick =>
    match c.stage with
    | .waiting =>
      let databases := c.monitor.dbLimits.keys
      if databases.isEmpty then some c else some { c with stage := .connecting databases }
    | _ => none
  | .connected ok =>
    match c.stage with
    | .connecting databases => some { c with stage := if ok then .querying [] databases else .waiting }
    | _ => none
  | .answered row =>
    match c.stage with
    | .querying asked (db :: rest) =>
      let next := takeRow cfg asF64 c db row
      if rest.isEmpty then some { next with monitor := updateFlags next.monitor, stage := .waiting }
      else some { next with stage := .querying (asked ++ [(db, row)]) rest }
    | _ => none

def asked (c : Checking F) : List (String × Option Int) :=
  match c.stage with
  | .querying asked _ => asked
  | _ => []

def answersOf (asked : List (String × Option Int)) (db : String) : Option Int := (asked.lookup db).join

-- What the steps do at once: the pass as a whole comes last.
def does (c : Checking F) (a : CheckingAction) (_ : Checking F) : List MonitorAction :=
  match a with
  | .registerLimit database maxBytes => [.registerLimit database maxBytes]
  | .registerSession database limitBytes => [.registerSession database limitBytes]
  | .unregisterSession id => [.unregisterSession id]
  | .answered row =>
    match c.stage with
    | .querying asked [db] => [.check true (answersOf (asked ++ [(db, row)]))]
    | _ => []
  | _ => []

def verdict (limitBytes : Nat) (size : Option Nat) : Bool :=
  decide (0 < limitBytes) && size.any fun size => decide (limitBytes < size)

/-- The monitor goes through a pass while another one, which has not begun it, waits for its end. -/
structure Follows (c : Checking F) (m : DbSizeMonitor) : Prop where
  sound : m.Sound
  limits : c.monitor.dbLimits = m.dbLimits
  counter : c.monitor.sessionIdCounter = m.sessionIdCounter
  sizes : ∀ db, c.monitor.getDbSize db = ((answersOf c.asked db).map asUsize).or (m.getDbSize db)
  sessions : ∀ id, (c.monitor.sessions.lookup id).map (fun session => (session.database, session.limitBytes)) =
    (m.sessions.lookup id).map fun session => (session.database, session.limitBytes)
  flags : ∀ id session, c.monitor.sessions.lookup id = some session →
    session.overLimit = verdict session.limitBytes (c.monitor.getDbSize session.database) ∨
      session.overLimit = verdict session.limitBytes (m.getDbSize session.database)
  once : match c.stage with
    | .waiting => True
    | .connecting databases => databases ≠ [] ∧ databases.Nodup ∧ ∀ db ∈ databases, db ∈ m.dbLimits
    | .querying asked rest => rest ≠ [] ∧ (asked.map Prod.fst ++ rest).Nodup ∧
        ∀ db ∈ asked.map Prod.fst ++ rest, db ∈ m.dbLimits

theorem answersOf_snoc {asked : List (String × Option Int)} {db : String} (row : Option Int)
    (fresh : db ∉ asked.map Prod.fst) (other : String) :
    answersOf (asked ++ [(db, row)]) other = if other = db then row else answersOf asked other := by
  induction asked with
  | nil =>
    by_cases same : other = db
    · simp [answersOf, same]
    · simp [answersOf, List.lookup_cons, same, beq_false_of_ne same]
  | cons first rest ih =>
    obtain ⟨name, answer⟩ := first
    simp only [List.map_cons, List.mem_cons, not_or] at fresh
    have later := ih fresh.2
    simp only [answersOf, List.cons_append] at later ⊢
    by_cases here : other = name
    · have differs : other ≠ db := fun same => fresh.1 (same.symm.trans here)
      rw [List.lookup_cons, List.lookup_cons]
      simp [here, if_neg (here ▸ differs)]
    · rw [List.lookup_cons, List.lookup_cons, beq_false_of_ne here]
      exact later

theorem answersOf_unasked {asked : List (String × Option Int)} {db : String} (unasked : db ∉ asked.map Prod.fst) :
    answersOf asked db = none := by
  have missing : asked.lookup db = none := by
    rw [List.lookup_eq_none_iff]
    rintro ⟨name, row⟩ member
    have differs : db ≠ name := fun same => unasked (same ▸ List.mem_map_of_mem member)
    simpa using differs
  rw [answersOf, missing]
  rfl

theorem verdict_eq (limitBytes : Nat) (size : Option Nat) :
    verdict limitBytes size = true ↔ 0 < limitBytes ∧ ∃ n, size = some n ∧ limitBytes < n := by
  cases size <;> simp [verdict]

theorem flagsRight_iff {monitor : DbSizeMonitor} : monitor.FlagsRight ↔
    ∀ id session, monitor.sessions.lookup id = some session →
      session.overLimit = verdict session.limitBytes (monitor.getDbSize session.database) := by
  have same (flag : Bool) (limitBytes : Nat) (size : Option Nat) : flag = verdict limitBytes size ↔
      (flag = true ↔ 0 < limitBytes ∧ ∃ n, size = some n ∧ limitBytes < n) := by
    rw [← verdict_eq, Bool.eq_iff_iff]
  simp only [same]
  rfl

theorem updateFlag_verdict {sizes : Tally.Table String Nat} {session : SessionLimit} {old : Option Nat}
    (flag : session.overLimit = verdict session.limitBytes (sizes.lookup session.database) ∨
      session.overLimit = verdict session.limitBytes old)
    (known : sizes.lookup session.database = none → old = none) :
    (updateFlag sizes session).overLimit =
      verdict session.limitBytes (sizes.lookup session.database) := by
  rw [updateFlag]
  split
  · rename_i zero
    rcases flag with same | same <;> simp [same, verdict, zero]
  · rename_i limited
    cases here : sizes.lookup session.database with
    | none =>
      rw [here, known here, or_self] at flag
      exact flag
    | some size => simp [verdict, Nat.pos_of_ne_zero limited]

section TakeRow

variable (c : Checking F) (db : String) (row : Option Int)

theorem takeRow_getDbSize (other : String) : (takeRow cfg asF64 c db row).monitor.getDbSize other =
    if other = db then (row.map asUsize).or (c.monitor.getDbSize other) else c.monitor.getDbSize other := by
  cases row with
  | none => simp [takeRow]
  | some size =>
    by_cases same : other = db
    · subst same
      simp [takeRow, getDbSize]
    · simp [takeRow, getDbSize, same, AList.lookup_insert_ne same]

theorem takeRow_others : (takeRow cfg asF64 c db row).monitor.dbLimits = c.monitor.dbLimits ∧
    (takeRow cfg asF64 c db row).monitor.sessions = c.monitor.sessions ∧
    (takeRow cfg asF64 c db row).monitor.sessionIdCounter = c.monitor.sessionIdCounter := by
  cases row <;> exact ⟨rfl, rfl, rfl⟩

end TakeRow

theorem follows_initial : Follows ({} : Checking F) {} := by
  refine ⟨sound_initial, rfl, rfl, fun db => rfl, fun id => rfl, ?_, trivial⟩
  intro id session here
  simp at here

theorem Follows.unasked {c : Checking F} {m : DbSizeMonitor} (follows : Follows c m) {db : String}
    (unasked : db ∉ c.asked.map Prod.fst) : c.monitor.getDbSize db = m.getDbSize db := by
  rw [follows.sizes, answersOf_unasked unasked]
  rfl

theorem Follows.flag {c : Checking F} {m : DbSizeMonitor} (follows : Follows c m) {id : Nat} {session : SessionLimit}
    (here : c.monitor.sessions.lookup id = some session) (unasked : session.database ∉ c.asked.map Prod.fst) :
    session.overLimit = verdict session.limitBytes (m.getDbSize session.database) := by
  have flag := follows.flags id session here
  rwa [follows.unasked unasked, or_self] at flag

theorem Follows.registerLimit {c : Checking F} {m : DbSizeMonitor} (follows : Follows c m) (database : String)
    (maxBytes : Nat) :
    Follows { c with monitor := c.monitor.registerLimit database maxBytes } (m.registerLimit database maxBytes) := by
  refine ⟨sound_registerLimit follows.sound database maxBytes, ?_, follows.counter, follows.sizes, follows.sessions,
    follows.flags, ?_⟩
  · exact congrArg (·.insert database maxBytes) follows.limits
  · have once := follows.once
    have kept {db : String} (member : db ∈ m.dbLimits) : db ∈ (m.registerLimit database maxBytes).dbLimits :=
      (AList.mem_insert m.dbLimits).mpr (.inr member)
    cases stage : c.stage with
    | waiting => simp
    | connecting databases =>
      simp only [stage] at once ⊢
      exact ⟨once.1, once.2.1, fun db member => kept (once.2.2 db member)⟩
    | querying asked rest =>
      simp only [stage] at once ⊢
      exact ⟨once.1, once.2.1, fun db member => kept (once.2.2 db member)⟩

theorem Follows.registerSession {c : Checking F} {m : DbSizeMonitor} (follows : Follows c m) (database : String)
    (limitBytes : Nat) :
    Follows { c with monitor := (c.monitor.registerSession database limitBytes).1 }
      (m.registerSession database limitBytes).1 := by
  refine ⟨sound_registerSession follows.sound database limitBytes, follows.limits,
    congrArg (· + 1) follows.counter, follows.sizes, ?_, ?_, follows.once⟩
  · intro id
    simp only [DbSizeMonitor.registerSession, ← follows.counter]
    by_cases new : id = c.monitor.sessionIdCounter
    · subst new
      simp
    · rw [AList.lookup_insert_ne new, AList.lookup_insert_ne new]
      exact follows.sessions id
  · intro id session here
    by_cases new : id = c.monitor.sessionIdCounter
    · subst new
      simp only [DbSizeMonitor.registerSession, AList.lookup_insert, Option.some.injEq] at here
      subst here
      left
      change _ = verdict limitBytes (c.monitor.getDbSize database)
      cases c.monitor.getDbSize database <;> simp [verdict]
    · simp only [DbSizeMonitor.registerSession, AList.lookup_insert_ne new] at here
      exact follows.flags id session here

theorem Follows.unregisterSession {c : Checking F} {m : DbSizeMonitor} (follows : Follows c m) (old : Nat) :
    Follows { c with monitor := c.monitor.unregisterSession old } (m.unregisterSession old) := by
  refine ⟨sound_unregisterSession follows.sound old, follows.limits, follows.counter, follows.sizes, ?_, ?_,
    follows.once⟩
  · intro id
    by_cases same : id = old
    · subst same
      simp [DbSizeMonitor.unregisterSession]
    · simp only [DbSizeMonitor.unregisterSession, AList.lookup_erase_ne same]
      exact follows.sessions id
  · intro id session here
    by_cases same : id = old
    · subst same
      simp [DbSizeMonitor.unregisterSession] at here
    · simp only [DbSizeMonitor.unregisterSession, AList.lookup_erase_ne same] at here
      exact follows.flags id session here

theorem takeRow_flags {c : Checking F} {m : DbSizeMonitor} (follows : Follows c m) {db : String} (row : Option Int)
    (fresh : db ∉ c.asked.map Prod.fst) (id : Nat) (session : SessionLimit)
    (here : (takeRow cfg asF64 c db row).monitor.sessions.lookup id = some session) :
    session.overLimit = verdict session.limitBytes
        ((takeRow cfg asF64 c db row).monitor.getDbSize session.database) ∨
      session.overLimit = verdict session.limitBytes (m.getDbSize session.database) := by
  rw [(takeRow_others cfg asF64 c db row).2.1] at here
  rw [takeRow_getDbSize]
  split
  · rename_i same
    exact .inr (follows.flag here (same ▸ fresh))
  · exact follows.flags id session here

theorem Follows.ask {c : Checking F} {m : DbSizeMonitor} (follows : Follows c m)
    {asked : List (String × Option Int)} {db : String} {rest : List String} (row : Option Int)
    (stage : c.stage = .querying asked (db :: rest)) (more : rest ≠ []) :
    Follows { takeRow cfg asF64 c db row with stage := .querying (asked ++ [(db, row)]) rest } m := by
  obtain ⟨limits, sessions, counter⟩ := takeRow_others cfg asF64 c db row
  have once := follows.once
  have here : c.asked = asked := by rw [Checking.asked, stage]
  rw [stage] at once
  obtain ⟨-, nodup, tracked⟩ := once
  have fresh : db ∉ asked.map Prod.fst := by
    intro member
    exact (List.nodup_append.mp nodup).2.2 db member db (List.mem_cons_self ..) rfl
  refine ⟨follows.sound, limits.trans follows.limits, counter.trans follows.counter, fun other => ?_, fun id => ?_,
    takeRow_flags cfg asF64 follows row (here ▸ fresh), more, ?_, ?_⟩
  · change (takeRow cfg asF64 c db row).monitor.getDbSize other =
      ((answersOf (asked ++ [(db, row)]) other).map asUsize).or (m.getDbSize other)
    rw [takeRow_getDbSize, answersOf_snoc row fresh]
    by_cases same : other = db
    · subst same
      rw [if_pos rfl, if_pos rfl, follows.unasked (here ▸ fresh)]
    · rw [if_neg same, if_neg same, follows.sizes, here]
  · change ((takeRow cfg asF64 c db row).monitor.sessions.lookup id).map _ = _
    rw [sessions]
    exact follows.sessions id
  · simpa using nodup
  · simpa using tracked

theorem Follows.finish {c : Checking F} {m : DbSizeMonitor} (follows : Follows c m)
    {asked : List (String × Option Int)} {db : String} (row : Option Int) (stage : c.stage = .querying asked [db]) :
    Follows { takeRow cfg asF64 c db row with
        monitor := updateFlags (takeRow cfg asF64 c db row).monitor
        stage := .waiting }
      (m.checkAllSizes true (answersOf (asked ++ [(db, row)]))) := by
  obtain ⟨limits, sessions, counter⟩ := takeRow_others cfg asF64 c db row
  have once := follows.once
  have here : c.asked = asked := by rw [Checking.asked, stage]
  rw [stage] at once
  obtain ⟨-, nodup, tracked⟩ := once
  have fresh : db ∉ asked.map Prod.fst := by
    intro member
    exact (List.nodup_append.mp nodup).2.2 db member db (List.mem_cons_self ..) rfl
  have some : m.dbLimits.keys ≠ [] := by
    intro none
    have member := AList.mem_keys.mp (tracked db (by simp))
    simp [none] at member
  have sound := sound_checkAllSizes follows.sound true (answersOf (asked ++ [(db, row)]))
  rw [checkAllSizes_eq m _ some] at sound ⊢
  have known (other : String) : (takeRow cfg asF64 c db row).monitor.getDbSize other =
      (refresh m.dbLimits.keys (answersOf (asked ++ [(db, row)])) m.dbSizes).lookup other := by
    rw [takeRow_getDbSize, lookup_refresh, answersOf_snoc row fresh]
    by_cases same : other = db
    · subst same
      rw [if_pos rfl, if_pos rfl, if_pos (AList.mem_keys.mp (tracked other (by simp))),
        follows.unasked (here ▸ fresh)]
      rfl
    · rw [if_neg same, if_neg same, follows.sizes, here]
      split
      · rfl
      · rename_i untracked
        have unasked : other ∉ asked.map Prod.fst := by
          intro member
          exact untracked (AList.mem_keys.mp (tracked other (List.mem_append_left _ member)))
        rw [answersOf_unasked unasked]
        rfl
  refine ⟨sound, limits.trans follows.limits, counter.trans follows.counter, known, fun id => ?_, ?_, trivial⟩
  · simp only [updateFlags, Tally.lookup_mapValues, sessions, Option.map_map]
    have same := follows.sessions id
    have kept (sizes : Tally.Table String Nat) :
        (fun session => (session.database, session.limitBytes)) ∘ updateFlag sizes =
          fun session => (session.database, session.limitBytes) := by
      funext session
      obtain ⟨database, limit⟩ := updateFlag_database sizes session
      rw [Function.comp_apply, database, limit]
    rw [kept, kept]
    exact same
  · intro id session there
    simp only [updateFlags, Tally.lookup_mapValues] at there
    obtain ⟨old, before, rfl⟩ := Option.map_eq_some_iff.mp there
    left
    obtain ⟨database, limit⟩ := updateFlag_database (takeRow cfg asF64 c db row).monitor.dbSizes old
    rw [database, limit]
    refine updateFlag_verdict (takeRow_flags cfg asF64 follows row (here ▸ fresh) id old before) fun unknown => ?_
    have none := known old.database
    rw [getDbSize, unknown, lookup_refresh] at none
    split at none
    · exact (Option.or_eq_none_iff.mp none.symm).2
    · exact none.symm

theorem step_follows (c : Checking F) (a : CheckingAction) (d : Checking F) (m : DbSizeMonitor) (follows : Follows c m)
    (stepped : step cfg asF64 c a = some d) :
    ∃ n, run DbSizeMonitor.step m (does c a d) = some n ∧ Follows d n := by
  cases a with
  | registerLimit database maxBytes =>
    obtain rfl := Option.some.inj stepped
    exact ⟨_, rfl, follows.registerLimit database maxBytes⟩
  | registerSession database limitBytes =>
    obtain rfl := Option.some.inj stepped
    exact ⟨_, rfl, follows.registerSession database limitBytes⟩
  | unregisterSession id =>
    obtain rfl := Option.some.inj stepped
    exact ⟨_, rfl, follows.unregisterSession id⟩
  | tick =>
    refine ⟨m, rfl, ?_⟩
    simp only [step] at stepped
    split at stepped
    · rename_i stage
      split at stepped
      · obtain rfl := Option.some.inj stepped
        exact follows
      · rename_i some
        obtain rfl := Option.some.inj stepped
        have none : c.asked = [] := by rw [Checking.asked, stage]
        refine ⟨follows.sound, follows.limits, follows.counter, ?_, follows.sessions, follows.flags, ?_, ?_, ?_⟩
        · have same := follows.sizes
          rw [none] at same
          exact same
        · simpa using some
        · exact c.monitor.dbLimits.nodupKeys
        · intro db member
          rw [← follows.limits]
          exact AList.mem_keys.mpr member
    · cases stepped
  | connected ok =>
    refine ⟨m, rfl, ?_⟩
    simp only [step] at stepped
    split at stepped
    · rename_i databases stage
      obtain rfl := Option.some.inj stepped
      have none : c.asked = [] := by rw [Checking.asked, stage]
      have same := follows.sizes
      have once := follows.once
      rw [none] at same
      rw [stage] at once
      cases ok with
      | false => exact ⟨follows.sound, follows.limits, follows.counter, same, follows.sessions, follows.flags, trivial⟩
      | true =>
        exact ⟨follows.sound, follows.limits, follows.counter, same, follows.sessions, follows.flags, once⟩
    · cases stepped
  | answered row =>
    simp only [step] at stepped
    split at stepped
    · rename_i asked db rest stage
      cases rest with
      | nil =>
        obtain rfl := Option.some.inj stepped
        refine ⟨m.checkAllSizes true (answersOf (asked ++ [(db, row)])), ?_, follows.finish cfg asF64 row stage⟩
        simp only [does, stage]
        rfl
      | cons next more =>
        obtain rfl := Option.some.inj stepped
        refine ⟨m, ?_, follows.ask cfg asF64 row stage (List.cons_ne_nil next more)⟩
        simp only [does, stage]
        rfl
    · cases stepped

structure SameAs (n m : DbSizeMonitor) : Prop where
  sizes : ∀ db, n.getDbSize db = m.getDbSize db
  limits : ∀ db, n.dbLimits.lookup db = m.dbLimits.lookup db
  sessions : ∀ id, n.sessions.lookup id = m.sessions.lookup id
  counter : n.sessionIdCounter = m.sessionIdCounter

theorem Follows.same {c : Checking F} {m : DbSizeMonitor} (follows : Follows c m) (none : c.asked = []) :
    SameAs c.monitor m := by
  have sizes (db : String) : c.monitor.getDbSize db = m.getDbSize db := follows.unasked (by simp [none])
  refine ⟨sizes, fun db => by rw [follows.limits], fun id => ?_, follows.counter⟩
  have keys := follows.sessions id
  cases here : c.monitor.sessions.lookup id with
  | none =>
    rw [here] at keys
    exact (Option.map_eq_none_iff.mp keys.symm).symm
  | some session =>
    rw [here] at keys
    obtain ⟨other, there, same⟩ := Option.map_eq_some_iff.mp keys.symm
    have flag := follows.flag here (by simp [none])
    have right := flagsRight_iff.mp follows.sound.right id other there
    rw [Prod.mk.injEq] at same
    rw [there, Option.some.injEq]
    cases session
    cases other
    simp_all

/-- A pass that sessions come and go through leaves the monitor as the same calls would, in the same order,
with the whole pass done at once at its end. -/
theorem passes_atomic (actions : List CheckingAction) :
    Always (recorded (step cfg asF64) does) (fun r => (∀ asked rest, r.state.stage ≠ .querying asked rest) →
      ∃ m, run DbSizeMonitor.step {} r.events = some m ∧ SameAs r.state.monitor m) ⟨{}, []⟩ actions := by
  have follows := recorded_simulates (fun c a d m before stepped => step_follows cfg asF64 c a d m before stepped)
    follows_initial actions
  refine follows.mono ?_
  rintro r ⟨m, ran, after⟩ between
  refine ⟨m, ran, after.same ?_⟩
  rw [Checking.asked]
  split
  · rename_i asked rest stage
    exact absurd stage (between asked rest)
  · rfl

theorem flags_in_pass (actions : List CheckingAction) :
    Always (step cfg asF64) (fun c => ∀ id session, c.monitor.sessions.lookup id = some session →
      session.overLimit = verdict session.limitBytes (c.monitor.getDbSize session.database) ∨
        session.database ∈ c.asked.map Prod.fst) {} actions := by
  have follows := recorded_simulates (fun c a d m before stepped => step_follows cfg asF64 c a d m before stepped)
    follows_initial actions
  refine Always.of_recorded (follows.mono ?_)
  rintro r ⟨m, -, after⟩ id session here
  by_cases asked : session.database ∈ r.state.asked.map Prod.fst
  · exact .inr asked
  · left
    rw [after.unasked asked]
    exact after.flag here asked

end Checking

end PgMux
