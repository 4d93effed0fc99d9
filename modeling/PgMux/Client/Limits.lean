import PgMux.Monitor.Flags
import PgMux.Client.Views

set_option autoImplicit false

namespace PgMux

namespace World

open DbSizeMonitor

def Monitors (before after : DbSizeMonitor) : Prop :=
  after = before ∨ ∃ action, after = before.perform action

theorem afterAcquire_monitors (w : World) (i : Nat) : Monitors w.monitor (w.afterAcquire i).monitor := by
  rw [afterAcquire]
  split
  · rename_i client call stream here there
    dsimp only
    split
    · rename_i maxSize given
      exact .inr ⟨.registerLimit client.settings.poolKey.database maxSize, rfl⟩
    · exact .inl rfl
  · exact .inl rfl
  · exact .inl rfl
  · exact .inl rfl

theorem finish_monitors {cfg : PoolConfig} {w t : World} {i sessionId : Nat}
    (stepped : w.finish cfg i sessionId = some t) : Monitors w.monitor t.monitor := by
  obtain ⟨pools, -, rfl⟩ := Option.map_eq_some_iff.mp stepped
  refine .inr ⟨.unregisterSession sessionId, ?_⟩
  dsimp only
  split <;> rfl

theorem step_monitors {cfg : Config} {w t : World} {a : WorldAction} (stepped : step cfg w a = some t) :
    Monitors w.monitor t.monitor := by
  cases step_steps stepped with
  | poll i pools | expire i pools | connected i result pools =>
    exact afterAcquire_monitors { w with pools := pools } i
  | serve i client => exact .inr ⟨.registerSession client.settings.poolKey.database
      (effectiveLimit client.settings), rfl⟩
  | finish i client id proxy event t here phase fine finished => exact finish_monitors finished
  | check connects queryOne => exact .inr ⟨.check connects queryOne, rfl⟩
  | _ => exact .inl rfl

theorem reachable_sound {cfg : Config} {w : World} {actions : List WorldAction}
    (reached : Transition.run (step cfg) {} actions = some w) : w.monitor.Sound := by
  have preserved (w : World) (a : WorldAction) (t : World) (sound : w.monitor.Sound)
      (stepped : step cfg w a = some t) : t.monitor.Sound := by
    obtain same | ⟨action, performed⟩ := step_monitors stepped
    · rwa [same]
    · rw [performed]
      exact step_sound w.monitor action _ sound rfl
  exact Transition.invariant preserved DbSizeMonitor.sound_initial reached

/-- Every registered session with a limit has its flag set to whether the size the server reports for
its database exceeds the limit. -/
def Monitored (reports : String → Int) (monitor : DbSizeMonitor) : Prop :=
  ∀ id session, monitor.sessions.lookup id = some session → 0 < session.limitBytes →
    session.overLimit = decide (session.limitBytes < asUsize (reports session.database))

/-- A client has given a limit of its own for the database, or its size is within the limit. -/
def Tracked (reports : String → Int) (monitor : DbSizeMonitor) : Prop :=
  ∀ id session, monitor.sessions.lookup id = some session → 0 < session.limitBytes →
    session.database ∈ monitor.dbLimits ∨ asUsize (reports session.database) ≤ session.limitBytes

theorem monitored_iff_tracked {monitor : DbSizeMonitor} (sound : monitor.Sound) (reports : String → Int) :
    Monitored reports (monitor.checkAllSizes true fun db => some (reports db)) ↔
      Tracked reports monitor := by
  obtain ⟨change, same, sessions⟩ := checkAllSizes_sessions monitor true fun db => some (reports db)
  have after := sound_checkAllSizes sound true fun db => some (reports db)
  have sizes := getDbSize_checkAllSizes sound reports
  -- What one session needs is what the condition asks of it.
  have each (id : Nat) (session : SessionLimit) (here : monitor.sessions.lookup id = some session)
      (limited : 0 < session.limitBytes) :
      (change session).overLimit = decide (session.limitBytes < asUsize (reports session.database)) ↔
        session.database ∈ monitor.dbLimits ∨
          asUsize (reports session.database) ≤ session.limitBytes := by
    have right := after.right id (change session) (by rw [sessions, here]; rfl)
    rw [(same session).1, (same session).2, sizes] at right
    rw [Bool.eq_iff_iff, right, decide_eq_true_iff]
    by_cases tracked : session.database ∈ monitor.dbLimits
    · simp [tracked, limited]
    · simp [tracked]
  constructor
  · intro monitored id session here limited
    have flagged := monitored id (change session) (by rw [sessions, here]; rfl)
    rw [(same session).1, (same session).2] at flagged
    exact (each id session here limited).mp (flagged limited)
  · intro tracked id session there
    rw [sessions] at there
    obtain ⟨old, here, rfl⟩ := Option.map_eq_some_iff.mp there
    rw [(same old).1, (same old).2]
    intro limited
    exact (each id old here limited).mpr (tracked id old here limited)

theorem monitored_iff {cfg : Config} {w : World} {actions : List WorldAction}
    (reached : Transition.run (step cfg) {} actions = some w) (reports : String → Int) :
    (∃ t, step cfg w (.check true fun db => some (reports db)) = some t ∧ Monitored reports t.monitor) ↔
      Tracked reports w.monitor := by
  rw [← monitored_iff_tracked (reachable_sound reached)]
  simp [step]

-- A client arrives, gets a connection, and is greeted.
def admitted (i : Nat) (maxDbSize : Option Nat) : List WorldAction :=
  [.arrive ⟨"app", "testdb", "secret", maxDbSize, []⟩ (1, 1), .poll i, .connected i (.ok ())] ++
    List.replicate 10 (.greet i (.ok ()))

theorem monitored_admitted :
    ∃ w, Transition.run (step {}) {} (admitted 0 (some 1000)) = some w ∧
      ∃ t, step {} w (.check true fun _ => some 2000) = some t ∧ Monitored (fun _ => 2000) t.monitor := by
  obtain ⟨w, ran, entries, limits⟩ : ∃ w, Transition.run (step {}) {} (admitted 0 (some 1000)) = some w ∧
      w.monitor.sessions.entries = [⟨1, "testdb", 1000, false⟩] ∧ "testdb" ∈ w.monitor.dbLimits.keys :=
    Transition.exists_run (by decide)
  refine ⟨w, ran, (monitored_iff ran fun _ => 2000).mpr fun id session here _ => ?_⟩
  have member := AList.mem_lookup_iff.mp (Option.mem_def.mpr here)
  rw [entries] at member
  obtain ⟨rfl, rfl⟩ : id = 1 ∧ session = ⟨"testdb", 1000, false⟩ := by simpa using member
  exact .inl (AList.mem_keys.mpr limits)

-- The limit comes from the configuration, and nobody asks for the size of the database.
theorem not_monitored_defaultLimit :
    ∃ w t, Transition.run (step { monitor := { defaultMaxDbSizeBytes := 1000 } }) {} (admitted 0 none) = some w ∧
      step { monitor := { defaultMaxDbSizeBytes := 1000 } } w (.check true fun _ => some 2000) = some t ∧
      t.monitor.sessions.lookup 1 = some ⟨"testdb", 1000, false⟩ ∧ ¬ Monitored (fun _ => 2000) t.monitor := by
  obtain ⟨t, ran, here⟩ : ∃ t, Transition.run (step { monitor := { defaultMaxDbSizeBytes := 1000 } }) {}
      (admitted 0 none ++ [.check true fun _ => some 2000]) = some t ∧
        t.monitor.sessions.lookup 1 = some ⟨"testdb", 1000, false⟩ := Transition.exists_run (by decide)
  obtain ⟨w, before, last⟩ := Transition.run_append.mp ran
  obtain ⟨u, checked, done⟩ := Transition.run_cons.mp last
  obtain rfl := Option.some.inj done
  refine ⟨w, u, before, checked, here, fun monitored => ?_⟩
  exact absurd (monitored 1 _ here (by decide)) (by decide)

end World

end PgMux
