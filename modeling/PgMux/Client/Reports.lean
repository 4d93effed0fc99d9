import Mathlib.Order.Lattice.Nat
import Mathlib.Order.WithBot
import Mathlib.Data.List.Dedup
import Mathlib.Data.List.Sort
import PgMux.Client.GivingBack
import PgMux.Client.Limits

set_option autoImplicit false

namespace PgMux

structure DbSizeInfo where
  database : String
  sizeBytes : Option Nat
  limitBytes : Option Nat
  overLimit : Bool
deriving DecidableEq, Repr

namespace DbSizeMonitor

def getDbLimit (cfg : MonitorConfig) (monitor : DbSizeMonitor) (database : String) : Option Nat :=
  (monitor.dbLimits.lookup database).or
    (if 0 < cfg.defaultMaxDbSizeBytes then some cfg.defaultMaxDbSizeBytes else none)

def dbInfo (cfg : MonitorConfig) (monitor : DbSizeMonitor) (db : String) : DbSizeInfo :=
  let size := monitor.getDbSize db
  let limit := monitor.getDbLimit cfg db
  { database := db
    sizeBytes := size
    limitBytes := limit
    overLimit :=
      match size, limit with
      | some s, some l => decide (l < s)
      | _, _ => false }

def getAllDbInfo (cfg : MonitorConfig) (monitor : DbSizeMonitor) : List DbSizeInfo :=
  let databases := (monitor.dbSizes.keys ++ monitor.dbLimits.keys).dedup
  (databases.map (monitor.dbInfo cfg)).mergeSort fun a b => decide (a.database ≤ b.database)

def ReportsOver (cfg : MonitorConfig) (monitor : DbSizeMonitor) (db : String) : Prop :=
  ∃ info ∈ monitor.getAllDbInfo cfg, info.database = db ∧ info.overLimit = true

theorem reportsOver_iff (cfg : MonitorConfig) (monitor : DbSizeMonitor) (db : String) :
    monitor.ReportsOver cfg db ↔
      ∃ size limit, monitor.getDbSize db = some size ∧ monitor.getDbLimit cfg db = some limit ∧
        limit < size := by
  constructor
  · rintro ⟨info, listed, rfl, over_⟩
    rw [getAllDbInfo, List.mem_mergeSort, List.mem_map] at listed
    obtain ⟨db, -, rfl⟩ := listed
    simp only [dbInfo] at over_ ⊢
    split at over_
    · rename_i size limit known limited
      exact ⟨size, limit, known, limited, of_decide_eq_true over_⟩
    · cases over_
  · rintro ⟨size, limit, known, limited, exceeds⟩
    have sized : db ∈ monitor.dbSizes := AList.lookup_isSome.mp (by rw [← getDbSize, known]; rfl)
    refine ⟨monitor.dbInfo cfg db, ?_, rfl, ?_⟩
    · rw [getAllDbInfo, List.mem_mergeSort, List.mem_map]
      refine ⟨db, ?_, rfl⟩
      rw [List.mem_dedup, List.mem_append]
      exact .inl (AList.mem_keys.mp sized)
    · simp [dbInfo, known, limited, exceeds]

end DbSizeMonitor

namespace World

open DbSizeMonitor

def liveSessions (w : World) : List SessionLimit :=
  w.clients.filterMap fun client =>
    match client.phase with
    | .proxying id _ => w.monitor.sessions.lookup id
    | _ => none

def ReportMatches (cfg : Config) (w : World) : Prop :=
  ∀ db, (∃ session ∈ w.liveSessions, session.database = db) →
    (w.monitor.ReportsOver cfg.monitor db ↔
      ∃ session ∈ w.liveSessions, session.database = db ∧ session.overLimit = true)

-- No limit stands for a limit above all sizes.
def reportLimit (cfg : Config) (w : World) (db : String) : WithTop Nat :=
  match w.monitor.getDbLimit cfg.monitor db with
  | some limit => limit
  | none => ⊤

def leastLimit (w : World) (db : String) : WithTop Nat :=
  (w.liveSessions.filter fun session => session.database = db ∧ 0 < session.limitBytes).foldr
    (fun session least => min (session.limitBytes : WithTop Nat) least) ⊤

/-- No known size lies between the limit of the report and the smallest limit of a live session. -/
def NoneBetween (cfg : Config) (w : World) : Prop :=
  ∀ db, (∃ session ∈ w.liveSessions, session.database = db) →
    ∀ size, w.monitor.getDbSize db = some size →
      ¬ (min (w.reportLimit cfg db) (w.leastLimit db) < (size : WithTop Nat) ∧
        (size : WithTop Nat) ≤ max (w.reportLimit cfg db) (w.leastLimit db))

def Served (w : World) : Prop :=
  ∀ (i : Nat) (client : Client) (id : Nat) (proxy : Proxy), w.clients[i]? = some client →
    client.phase = .proxying id proxy → w.monitor.Registered id

theorem Served.setPhase {w : World} (served : Served w) (i : Nat) (phase : Phase)
    (entry : ∀ id proxy, phase = .proxying id proxy → w.monitor.Registered id) :
    Served (w.setPhase i phase) := by
  intro j client id proxy here at_phase
  simp only [World.setPhase, List.getElem?_modify] at here
  obtain ⟨old, there, rfl⟩ := Option.map_eq_some_iff.mp here
  split at at_phase
  · exact entry id proxy at_phase
  · exact served j old id proxy there at_phase

theorem Served.monitor {w : World} (served : Served w) (monitor : DbSizeMonitor)
    (kept : ∀ id, w.monitor.Registered id → monitor.Registered id) :
    Served { w with monitor := monitor } :=
  fun i client id proxy here phase => kept id (served i client id proxy here phase)

theorem served_afterAcquire {w : World} (served : Served w) (i : Nat) : Served (w.afterAcquire i) := by
  rw [afterAcquire]
  split
  · rename_i client call stream here there
    have greeted := served.setPhase i (.greeting (greetingFor client.backendKey)) (by simp)
    dsimp only
    split
    · exact greeted.monitor _ fun _ registered => registered
    · exact greeted
  · exact served.setPhase i _ (by simp)
  · exact served.setPhase i _ (by simp)
  · exact served

theorem served_startProxy {w : World} (served : Served w) (i : Nat) (client : Client) :
    Served (w.startProxy i client) := by
  intro j other id proxy here phase
  have registered := registered_registerSession w.monitor client.settings.poolKey.database
    (effectiveLimit client.settings) id
  simp only [startProxy, List.getElem?_modify] at here
  obtain ⟨old, there, rfl⟩ := Option.map_eq_some_iff.mp here
  split at phase
  · obtain ⟨rfl, -⟩ : w.monitor.sessionIdCounter = id ∧ {} = proxy := by
      simpa [registerSession] using phase
    exact registered.mpr (.inl rfl)
  · exact registered.mpr (.inr (served j old id proxy there phase))

theorem served_finish {cfg : PoolConfig} {w t : World} (linked : Linked w) (served : Served w) {i id : Nat}
    {client : Client} {proxy : Proxy} (here : w.clients[i]? = some client)
    (phase : client.phase = .proxying id proxy) (finished : w.finish cfg i id = some t) : Served t := by
  obtain ⟨pools, -, rfl⟩ := Option.map_eq_some_iff.mp finished
  obtain ⟨v, seen, -, -, named⟩ := linked.proxying here phase
  -- The client leaves the proxy loops, and the others have ids of their own.
  have left (last : Phase) (ends : ∀ id proxy, last ≠ .proxying id proxy) :
      Served (setPhase { w with pools := pools, monitor := w.monitor.unregisterSession id } i last) := by
    intro j other id' proxy' there at_phase
    simp only [World.setPhase, List.getElem?_modify] at there
    obtain ⟨old, before, rfl⟩ := Option.map_eq_some_iff.mp there
    split at at_phase
    · exact absurd at_phase (ends id' proxy')
    · rename_i differs
      refine (registered_unregisterSession w.monitor id id').mpr ⟨?_, served j old id' proxy' before at_phase⟩
      rintro rfl
      obtain ⟨u, seen', -, -, named'⟩ := linked.proxying before at_phase
      exact linked.apart i j v u id' differs seen seen' named named'
  dsimp only
  split
  · exact left .releasing (by simp)
  · exact left (.returned none) (by simp)

theorem step_served {cfg : Config} {w t : World} {a : WorldAction} (linked : Linked w) (served : Served w)
    (stepped : step cfg w a = some t) : Served t := by
  have other (pools : System) : Served { w with pools := pools } := served
  cases step_steps stepped with
  | arrive startupInfo backendKey =>
    intro i client id proxy here phase
    simp only [List.getElem?_append] at here
    split at here
    · exact served i client id proxy here phase
    · rw [List.getElem?_singleton] at here
      split at here
      · obtain rfl := Option.some.inj here
        cases phase
      · cases here
  | tick elapsed => exact served
  | poll i pools | expire i pools | connected i result pools => exact served_afterAcquire (other pools) i
  | serve i client => exact served_startProxy served i client
  | turn i client id proxy q event here phase =>
    refine served.setPhase i _ fun id' proxy' same => ?_
    obtain ⟨rfl, -⟩ := Phase.proxying.inj same
    exact served i client id proxy here phase
  | finish i client id proxy event t here phase fine finished =>
    exact served_finish linked served here phase finished
  | reset i result pools => exact (other pools).setPhase i _ (by simp)
  | check connects queryOne =>
    refine served.monitor _ fun id registered => ?_
    exact (registered_checkAllSizes w.monitor connects queryOne id).mpr registered
  -- What is left to write, and every other end of `handle_client`.
  | refuse i | refuseLost i | greet i | greetLost i | fail i | breaks i => exact served.setPhase i _ (by simp)

theorem reachable_served {cfg : Config} {w : World} {actions : List WorldAction}
    (reached : Transition.run (step cfg) {} actions = some w) : Served w := by
  have preserved (w : World) (a : WorldAction) (t : World) (both : Sound w ∧ Served w)
      (stepped : step cfg w a = some t) : Sound t ∧ Served t :=
    ⟨sound_step w a t both.1 stepped, step_served both.1.linked both.2 stepped⟩
  have initial : Served {} := by
    intro i client id proxy here
    simp at here
  exact (Transition.invariant preserved ⟨sound_initial, initial⟩ reached).2

theorem reportsOver_iff_reportLimit (cfg : Config) (w : World) (db : String) :
    w.monitor.ReportsOver cfg.monitor db ↔
      ∃ size : Nat, w.monitor.getDbSize db = some size ∧ w.reportLimit cfg db < (size : WithTop Nat) := by
  rw [reportsOver_iff, reportLimit]
  cases w.monitor.getDbLimit cfg.monitor db with
  | none => simp
  | some limit => simp

theorem leastLimit_lt_iff (w : World) (db : String) (size : Nat) :
    w.leastLimit db < (size : WithTop Nat) ↔ ∃ session ∈ w.liveSessions, session.database = db ∧
      0 < session.limitBytes ∧ session.limitBytes < size := by
  rw [leastLimit]
  induction w.liveSessions with
  | nil => simp
  | cons session rest ih =>
    simp only [List.exists_mem_cons_iff, ← ih, List.filter_cons]
    split
    · rename_i counts
      obtain ⟨same, positive⟩ : session.database = db ∧ 0 < session.limitBytes := by simpa using counts
      simp [same, positive]
    · rename_i other
      have not : ¬ (session.database = db ∧ 0 < session.limitBytes ∧ session.limitBytes < size) :=
        fun here => other (by simp [here.1, here.2.1])
      simp only [not, false_or]

theorem liveSessions_registered {w : World} {session : SessionLimit} (live : session ∈ w.liveSessions) :
    ∃ id, w.monitor.sessions.lookup id = some session := by
  obtain ⟨client, -, found⟩ := List.mem_filterMap.mp live
  split at found
  · rename_i id proxy phase
    exact ⟨id, found⟩
  · cases found

theorem flagged_iff_leastLimit {w : World} (sound : w.monitor.Sound) (db : String) :
    (∃ session ∈ w.liveSessions, session.database = db ∧ session.overLimit = true) ↔
      ∃ size : Nat, w.monitor.getDbSize db = some size ∧ w.leastLimit db < (size : WithTop Nat) := by
  constructor
  · rintro ⟨session, live, rfl, flagged⟩
    obtain ⟨id, here⟩ := liveSessions_registered live
    obtain ⟨limited, size, known, exceeds⟩ := (sound.right id session here).mp flagged
    exact ⟨size, known, (leastLimit_lt_iff w _ size).mpr ⟨session, live, rfl, limited, exceeds⟩⟩
  · rintro ⟨size, known, exceeds⟩
    obtain ⟨session, live, rfl, limited, exceeds⟩ := (leastLimit_lt_iff w db size).mp exceeds
    obtain ⟨id, here⟩ := liveSessions_registered live
    exact ⟨session, live, rfl, (sound.right id session here).mpr ⟨limited, size, known, exceeds⟩⟩

theorem same_side_iff {A : Type} [LinearOrder A] (first second a : A) :
    (first < a ↔ second < a) ↔ ¬ (min first second < a ∧ a ≤ max first second) := by
  rw [min_lt_iff, le_max_iff, ← not_lt, ← not_lt]
  tauto

theorem reportMatches_iff {cfg : Config} {w : World} {actions : List WorldAction}
    (reached : Transition.run (step cfg) {} actions = some w) :
    Served w ∧ (ReportMatches cfg w ↔ NoneBetween cfg w) := by
  have sound := reachable_sound reached
  refine ⟨reachable_served reached, ?_⟩
  refine forall_congr' fun db => forall_congr' fun _ => ?_
  rw [reportsOver_iff_reportLimit, flagged_iff_leastLimit sound]
  cases known : w.monitor.getDbSize db with
  | none => simp
  | some size => simpa using same_side_iff (w.reportLimit cfg db) (w.leastLimit db) (size : WithTop Nat)

theorem reportMatches_admitted :
    ∃ w, Transition.run (step {}) {} (admitted 0 (some 1000) ++ [.check true fun _ => some 2000]) = some w ∧
      ReportMatches {} w := by
  obtain ⟨w, ran, live, limit⟩ : ∃ w,
      Transition.run (step {}) {} (admitted 0 (some 1000) ++ [.check true fun _ => some 2000]) = some w ∧
        w.liveSessions = [⟨"testdb", 1000, true⟩] ∧ w.monitor.getDbLimit {} "testdb" = some 1000 :=
    Transition.exists_run (by decide)
  refine ⟨w, ran, (reportMatches_iff ran).2.mpr ?_⟩
  rintro db ⟨session, here, rfl⟩ size -
  obtain rfl : session = ⟨"testdb", 1000, true⟩ := by simpa [live] using here
  rintro ⟨above, below⟩
  have same : w.reportLimit {} "testdb" = w.leastLimit "testdb" := by
    simp [reportLimit, leastLimit, limit, live]
  simp only [same, min_self, max_self] at above below
  exact absurd below (not_le.mpr above)

-- Two clients of one database; the limit of the second one is the limit of the report.
def twoLimits : List WorldAction :=
  admitted 0 (some 1000) ++ admitted 1 (some 5000) ++ [.check true fun _ => some 2000]

theorem not_reportMatches_twoLimits :
    ∃ w, Transition.run (step {}) {} twoLimits = some w ∧ ¬ ReportMatches {} w := by
  obtain ⟨w, ran, live, limit⟩ : ∃ w, Transition.run (step {}) {} twoLimits = some w ∧
      w.liveSessions = [⟨"testdb", 1000, true⟩, ⟨"testdb", 5000, false⟩] ∧
      (w.monitor.getDbLimit {} "testdb" = some 5000 ∧ w.monitor.getDbSize "testdb" = some 2000) :=
    Transition.exists_run (by decide)
  refine ⟨w, ran, fun agrees => ?_⟩
  have flagged := (agrees "testdb" ⟨⟨"testdb", 1000, true⟩, by simp [live]⟩).mpr
    ⟨⟨"testdb", 1000, true⟩, by simp [live]⟩
  rw [reportsOver_iff] at flagged
  simp [limit] at flagged

end World

end PgMux
