import PgMux.Shared.Transition
import PgMux.Monitor

set_option autoImplicit false

namespace PgMux

inductive MonitorAction where
  | registerLimit (database : String) (maxBytes : Nat)
  | registerSession (database : String) (limitBytes : Nat)
  | unregisterSession (id : Nat)
  | check (connects : Bool) (queryOne : String → Option Int)

namespace DbSizeMonitor

def perform (monitor : DbSizeMonitor) : MonitorAction → DbSizeMonitor
  | .registerLimit database maxBytes => monitor.registerLimit database maxBytes
  | .registerSession database limitBytes => (monitor.registerSession database limitBytes).1
  | .unregisterSession id => monitor.unregisterSession id
  | .check connects queryOne => monitor.checkAllSizes connects queryOne

def step (monitor : DbSizeMonitor) (action : MonitorAction) : Option DbSizeMonitor :=
  some (monitor.perform action)

def issued : DbSizeMonitor → List MonitorAction → List Nat
  | _, [] => []
  | monitor, .registerSession database limitBytes :: rest =>
    (monitor.registerSession database limitBytes).2 ::
      issued (monitor.registerSession database limitBytes).1 rest
  | monitor, action :: rest => issued (monitor.perform action) rest

def flag (monitor : DbSizeMonitor) (id : Nat) : Option Bool :=
  (monitor.sessions.lookup id).map SessionLimit.overLimit

def FlagsRight (monitor : DbSizeMonitor) : Prop :=
  ∀ id session, monitor.sessions.lookup id = some session →
    (session.overLimit = true ↔ 0 < session.limitBytes ∧
      ∃ size, monitor.getDbSize session.database = some size ∧ session.limitBytes < size)

-- A registration concerns the session it adds, which is not among the registered ones.
def Concerns (monitor : DbSizeMonitor) (id : Nat) : MonitorAction → Prop
  | .registerLimit _ _ => False
  | .registerSession _ _ => False
  | .unregisterSession old => id = old
  | .check connects queryOne => connects = true ∧
      ∃ session, monitor.sessions.lookup id = some session ∧ 0 < session.limitBytes ∧
        session.database ∈ monitor.dbLimits ∧ (queryOne session.database).isSome

def LeavesOthers (monitor : DbSizeMonitor) (action : MonitorAction) : Prop :=
  ∀ id, monitor.Registered id → ¬ monitor.Concerns id action →
    (monitor.perform action).flag id = monitor.flag id

def refresh (databases : List String) (queryOne : String → Option Int) (sizes : Tally.Table String Nat) :
    Tally.Table String Nat :=
  databases.foldl (fun sizes db =>
    match queryOne db with
    | some size => sizes.insert db (asUsize size)
    | none => sizes) sizes

theorem checkAllSizes_eq (monitor : DbSizeMonitor) (queryOne : String → Option Int)
    (tracked : monitor.dbLimits.keys ≠ []) :
    monitor.checkAllSizes true queryOne =
      let dbSizes := refresh monitor.dbLimits.keys queryOne monitor.dbSizes
      { monitor with
        dbSizes := dbSizes
        sessions := Tally.mapValues (updateFlag dbSizes) monitor.sessions } := by
  have runs : ¬ (monitor.dbLimits.keys.isEmpty || !true) = true := by simpa using tracked
  rw [checkAllSizes, if_neg runs]
  rfl

theorem lookup_refresh (databases : List String) (queryOne : String → Option Int)
    (sizes : Tally.Table String Nat) (db : String) :
    (refresh databases queryOne sizes).lookup db =
      if db ∈ databases then ((queryOne db).map asUsize).or (sizes.lookup db) else sizes.lookup db := by
  induction databases generalizing sizes with
  | nil => rfl
  | cons first rest ih =>
    rw [refresh, List.foldl_cons]
    change (refresh rest queryOne _).lookup db = _
    rw [ih]
    by_cases same : db = first
    · subst same
      cases queryOne db <;> simp
    · cases queryOne first with
      | none => simp [same]
      | some size => simp [same, AList.lookup_insert_ne same]

theorem updateFlag_database (sizes : Tally.Table String Nat) (session : SessionLimit) :
    (updateFlag sizes session).database = session.database ∧
      (updateFlag sizes session).limitBytes = session.limitBytes := by
  rw [updateFlag]
  split
  · exact ⟨rfl, rfl⟩
  · split <;> exact ⟨rfl, rfl⟩

theorem updateFlag_overLimit {sizes : Tally.Table String Nat} {session : SessionLimit}
    (unknown : sizes.lookup session.database = none → session.overLimit = false)
    (unlimited : session.limitBytes = 0 → session.overLimit = false) :
    (updateFlag sizes session).overLimit = true ↔ 0 < session.limitBytes ∧
      ∃ size, sizes.lookup session.database = some size ∧ session.limitBytes < size := by
  rw [updateFlag]
  split
  · rename_i zero
    simp [unlimited zero, zero]
  · rename_i limited
    cases known : sizes.lookup session.database with
    | none => simp [unknown known]
    | some size => simp [Nat.pos_of_ne_zero limited]

/-- What holds between two operations. Ids are issued once, and only tracked databases have a size. -/
structure Sound (monitor : DbSizeMonitor) : Prop where
  right : monitor.FlagsRight
  below : ∀ id, monitor.Registered id → id < monitor.sessionIdCounter
  tracked : ∀ db, (monitor.getDbSize db).isSome → db ∈ monitor.dbLimits

theorem Sound.unknown {monitor : DbSizeMonitor} (sound : monitor.Sound) {id : Nat} {session : SessionLimit}
    (here : monitor.sessions.lookup id = some session)
    (unknown : monitor.getDbSize session.database = none) : session.overLimit = false := by
  have right := sound.right id session here
  rw [unknown] at right
  simpa using right

theorem Sound.unlimited {monitor : DbSizeMonitor} (sound : monitor.Sound) {id : Nat}
    {session : SessionLimit} (here : monitor.sessions.lookup id = some session)
    (zero : session.limitBytes = 0) : session.overLimit = false := by
  have right := sound.right id session here
  rw [zero] at right
  simpa using right

theorem sound_registerLimit {monitor : DbSizeMonitor} (sound : monitor.Sound) (database : String)
    (maxBytes : Nat) : (monitor.registerLimit database maxBytes).Sound := by
  refine ⟨sound.right, sound.below, fun db known => ?_⟩
  rw [registerLimit, AList.mem_insert]
  exact .inr (sound.tracked db known)

theorem sound_registerSession {monitor : DbSizeMonitor} (sound : monitor.Sound) (database : String)
    (limitBytes : Nat) : (monitor.registerSession database limitBytes).1.Sound := by
  refine ⟨fun id session here => ?_, fun id registered => ?_, sound.tracked⟩
  · by_cases new : id = monitor.sessionIdCounter
    · subst new
      simp only [registerSession, AList.lookup_insert, Option.some.injEq] at here
      subst here
      change _ ↔ 0 < limitBytes ∧ ∃ size, monitor.getDbSize database = some size ∧ limitBytes < size
      cases monitor.getDbSize database with
      | none => simp
      | some size => simp
    · simp only [registerSession, AList.lookup_insert_ne new] at here
      exact sound.right id session here
  · obtain rfl | old := (registered_registerSession monitor database limitBytes id).mp registered
    · exact Nat.lt_succ_self _
    · exact Nat.lt_succ_of_lt (sound.below id old)

theorem sound_unregisterSession {monitor : DbSizeMonitor} (sound : monitor.Sound) (old : Nat) :
    (monitor.unregisterSession old).Sound := by
  refine ⟨fun id session here => ?_, fun id registered => ?_, sound.tracked⟩
  · by_cases same : id = old
    · subst same
      simp [unregisterSession] at here
    · simp only [unregisterSession, AList.lookup_erase_ne same] at here
      exact sound.right id session here
  · exact sound.below id ((registered_unregisterSession monitor old id).mp registered).2

theorem checkAllSizes_skipped (monitor : DbSizeMonitor) (connects : Bool) (queryOne : String → Option Int)
    (skipped : ¬ (connects = true ∧ monitor.dbLimits.keys ≠ [])) :
    monitor.checkAllSizes connects queryOne = monitor := by
  rw [checkAllSizes, if_pos]
  cases connects <;> simp_all

theorem checkAllSizes_sessions (monitor : DbSizeMonitor) (connects : Bool)
    (queryOne : String → Option Int) :
    ∃ change : SessionLimit → SessionLimit,
      (∀ session, (change session).database = session.database ∧
        (change session).limitBytes = session.limitBytes) ∧
      ∀ id, (monitor.checkAllSizes connects queryOne).sessions.lookup id =
        (monitor.sessions.lookup id).map change := by
  by_cases runs : connects = true ∧ monitor.dbLimits.keys ≠ []
  · obtain ⟨rfl, some⟩ := runs
    refine ⟨_, updateFlag_database (refresh monitor.dbLimits.keys queryOne monitor.dbSizes), fun id => ?_⟩
    rw [checkAllSizes_eq monitor queryOne some, Tally.lookup_mapValues]
  · refine ⟨id, fun _ => ⟨rfl, rfl⟩, fun _ => ?_⟩
    rw [checkAllSizes_skipped monitor connects queryOne runs, Option.map_id]
    rfl

theorem getDbSize_checkAllSizes {monitor : DbSizeMonitor} (sound : monitor.Sound) (reports : String → Int)
    (db : String) :
    (monitor.checkAllSizes true fun db => some (reports db)).getDbSize db =
      if db ∈ monitor.dbLimits then some (asUsize (reports db)) else none := by
  have unknown (untracked : db ∉ monitor.dbLimits) : monitor.dbSizes.lookup db = none := by
    by_contra known
    exact untracked (sound.tracked db (Option.isSome_iff_ne_none.mpr known))
  by_cases some : monitor.dbLimits.keys = []
  · have none : db ∉ monitor.dbLimits := by
      intro tracked
      simpa [some] using AList.mem_keys.mp tracked
    rw [checkAllSizes_skipped _ _ _ (by simp [some]), if_neg none]
    exact unknown none
  · rw [checkAllSizes_eq monitor _ some, getDbSize, lookup_refresh]
    by_cases tracked : db ∈ monitor.dbLimits
    · simp [tracked, AList.mem_keys.mp tracked]
    · rw [if_neg (mt AList.mem_keys.mpr tracked), if_neg tracked]
      exact unknown tracked

theorem sound_checkAllSizes {monitor : DbSizeMonitor} (sound : monitor.Sound) (connects : Bool)
    (queryOne : String → Option Int) : (monitor.checkAllSizes connects queryOne).Sound := by
  by_cases runs : connects = true ∧ monitor.dbLimits.keys ≠ []
  · obtain ⟨rfl, some⟩ := runs
    have registered := registered_checkAllSizes monitor true queryOne
    have known (db : String) := lookup_refresh monitor.dbLimits.keys queryOne monitor.dbSizes db
    rw [checkAllSizes_eq monitor queryOne some] at registered ⊢
    refine ⟨fun id session here => ?_, fun id there => sound.below id ((registered id).mp there),
      fun db sized => ?_⟩
    · dsimp only at here ⊢
      rw [Tally.lookup_mapValues] at here
      obtain ⟨old, before, rfl⟩ := Option.map_eq_some_iff.mp here
      obtain ⟨database, limit⟩ := updateFlag_database
        (refresh monitor.dbLimits.keys queryOne monitor.dbSizes) old
      rw [database, limit]
      refine updateFlag_overLimit (fun unknown => sound.unknown before ?_) (sound.unlimited before)
      rw [known] at unknown
      split at unknown
      · exact (Option.or_eq_none_iff.mp unknown).2
      · exact unknown
    · dsimp only [getDbSize] at sized ⊢
      rw [known] at sized
      split at sized
      · rename_i tracked
        exact AList.mem_keys.mpr tracked
      · exact sound.tracked db sized
  · rw [checkAllSizes_skipped monitor connects queryOne runs]
    exact sound

theorem step_sound (monitor : DbSizeMonitor) (action : MonitorAction) (after : DbSizeMonitor)
    (sound : monitor.Sound) (stepped : step monitor action = some after) : after.Sound := by
  obtain rfl := Option.some.inj stepped
  cases action with
  | registerLimit database maxBytes => exact sound_registerLimit sound database maxBytes
  | registerSession database limitBytes => exact sound_registerSession sound database limitBytes
  | unregisterSession id => exact sound_unregisterSession sound id
  | check connects queryOne => exact sound_checkAllSizes sound connects queryOne

theorem sound_initial : ({} : DbSizeMonitor).Sound := by
  refine ⟨?_, ?_, ?_⟩
  · intro id session here
    simp at here
  · intro id registered
    simp [Registered] at registered
  · intro db known
    simp [getDbSize] at known

theorem check_leavesOthers {monitor : DbSizeMonitor} (sound : monitor.Sound) (connects : Bool)
    (queryOne : String → Option Int) : monitor.LeavesOthers (.check connects queryOne) := by
  intro id _ unconcerned
  by_cases runs : connects = true ∧ monitor.dbLimits.keys ≠ []
  · obtain ⟨rfl, some⟩ := runs
    rw [perform, checkAllSizes_eq monitor queryOne some, flag, flag, Tally.lookup_mapValues, Option.map_map]
    cases here : monitor.sessions.lookup id with
    | none => rfl
    | some session =>
      rw [Option.map_some, Option.map_some, Function.comp_apply, Option.some.injEq, Bool.eq_iff_iff]
      -- The size of its database is the one the flag was set from, so the flag is set to what it was.
      have same : 0 < session.limitBytes →
          (refresh monitor.dbLimits.keys queryOne monitor.dbSizes).lookup session.database =
            monitor.getDbSize session.database := by
        intro limited
        rw [lookup_refresh]
        split
        · rename_i tracked
          have failed : queryOne session.database = none := by
            by_contra answered
            exact unconcerned ⟨rfl, session, here, limited, AList.mem_keys.mpr tracked,
              Option.isSome_iff_ne_none.mpr answered⟩
          rw [failed]
          rfl
        · rfl
      rw [sound.right id session here]
      by_cases limited : 0 < session.limitBytes
      · rw [updateFlag_overLimit, same limited]
        · rw [same limited]
          exact sound.unknown here
        · exact sound.unlimited here
      · have zero : session.limitBytes = 0 := by omega
        simp [updateFlag, zero, sound.unlimited here zero]
  · rw [perform, checkAllSizes_skipped monitor connects queryOne runs]

theorem sound_leavesOthers {monitor : DbSizeMonitor} (sound : monitor.Sound) (action : MonitorAction) :
    monitor.LeavesOthers action := by
  cases action with
  | registerLimit database maxBytes => exact fun _ _ _ => rfl
  | registerSession database limitBytes =>
    intro id registered _
    have old : id ≠ monitor.sessionIdCounter := Nat.ne_of_lt (sound.below id registered)
    simp [perform, registerSession, flag, AList.lookup_insert_ne old]
  | unregisterSession old =>
    intro id _ other
    simp [perform, unregisterSession, flag, AList.lookup_erase_ne other]
  | check connects queryOne => exact check_leavesOthers sound connects queryOne

theorem perform_counter (monitor : DbSizeMonitor) (action : MonitorAction) :
    monitor.sessionIdCounter ≤ (monitor.perform action).sessionIdCounter := by
  cases action with
  | registerSession database limitBytes => exact Nat.le_succ _
  | check connects queryOne =>
    rw [perform, checkAllSizes]
    split <;> exact Nat.le_refl _
  | _ => exact Nat.le_refl _

theorem issued_counter (monitor : DbSizeMonitor) (actions : List MonitorAction) :
    (∀ id ∈ monitor.issued actions, monitor.sessionIdCounter ≤ id) ∧ (monitor.issued actions).Nodup := by
  induction actions generalizing monitor with
  | nil => simp [issued]
  | cons action rest ih =>
    obtain ⟨later, once⟩ := ih (monitor.perform action)
    have grows := perform_counter monitor action
    cases action with
    | registerSession database limitBytes =>
      rw [issued]
      constructor
      · intro id member
        obtain rfl | member := List.mem_cons.mp member
        · exact Nat.le_refl _
        · exact grows.trans (later id member)
      · rw [List.nodup_cons]
        refine ⟨fun again => ?_, once⟩
        have bound := later _ again
        exact absurd bound (Nat.not_succ_le_self _)
    | _ => exact ⟨fun id member => grows.trans (later id member), once⟩

theorem session_flags (actions : List MonitorAction) :
    Transition.Always step FlagsRight {} actions ∧ (issued {} actions).Nodup ∧
      Transition.Along step LeavesOthers {} actions := by
  have sound := Transition.always step_sound actions sound_initial
  refine ⟨sound.mono fun _ holds => holds.right, (issued_counter {} actions).2, ?_⟩
  exact sound.along fun _ action holds => sound_leavesOthers holds action

end DbSizeMonitor

end PgMux
