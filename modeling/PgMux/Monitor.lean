import PgMux.Shared.Tally
import PgMux.Config
import PgMux.Messages

set_option autoImplicit false

namespace PgMux

structure SessionLimit where
  database : String
  limitBytes : Nat
  overLimit : Bool
deriving DecidableEq, Repr

structure DbSizeMonitor where
  dbSizes : Tally.Table String Nat := ∅
  dbLimits : Tally.Table String Nat := ∅
  sessions : Tally.Table Nat SessionLimit := ∅
  -- The static `SESSION_ID_COUNTER`.
  sessionIdCounter : Nat := 1
deriving DecidableEq

namespace DbSizeMonitor

def registerLimit (monitor : DbSizeMonitor) (database : String) (maxBytes : Nat) : DbSizeMonitor :=
  { monitor with dbLimits := monitor.dbLimits.insert database maxBytes }

def getDbSize (monitor : DbSizeMonitor) (database : String) : Option Nat :=
  monitor.dbSizes.lookup database

def registerSession (monitor : DbSizeMonitor) (database : String) (limitBytes : Nat) :
    DbSizeMonitor × Nat :=
  let id := monitor.sessionIdCounter
  let flag :=
    if 0 < limitBytes then
      match monitor.getDbSize database with
      | some currentSize => decide (limitBytes < currentSize)
      | none => false
    else false
  ({ monitor with
      sessions := monitor.sessions.insert id ⟨database, limitBytes, flag⟩
      sessionIdCounter := id + 1 },
    id)

def unregisterSession (monitor : DbSizeMonitor) (id : Nat) : DbSizeMonitor :=
  { monitor with sessions := monitor.sessions.erase id }

def updateFlag (dbSizes : Tally.Table String Nat) (session : SessionLimit) : SessionLimit :=
  if session.limitBytes = 0 then session
  else
    match dbSizes.lookup session.database with
    | some size => { session with overLimit := decide (session.limitBytes < size) }
    | none => session

/-- One pass over the tracked databases: whether the connection is made, and what each query answers. -/
def checkAllSizes (monitor : DbSizeMonitor) (connects : Bool) (queryOne : String → Option Int) :
    DbSizeMonitor :=
  let databases := monitor.dbLimits.keys
  if databases.isEmpty || !connects then monitor
  else
    let dbSizes := databases.foldl (fun sizes db =>
      match queryOne db with
      | some size => sizes.insert db (asUsize size)
      | none => sizes) monitor.dbSizes
    { monitor with
      dbSizes := dbSizes
      sessions := Tally.mapValues (updateFlag dbSizes) monitor.sessions }

def Registered (monitor : DbSizeMonitor) (id : Nat) : Prop := (monitor.sessions.lookup id).isSome

instance (monitor : DbSizeMonitor) (id : Nat) : Decidable (monitor.Registered id) :=
  inferInstanceAs (Decidable (_ = _))

theorem registered_checkAllSizes (monitor : DbSizeMonitor) (connects : Bool)
    (queryOne : String → Option Int) (id : Nat) :
    (monitor.checkAllSizes connects queryOne).Registered id ↔ monitor.Registered id := by
  simp only [checkAllSizes]
  split
  · rfl
  · rw [Registered, Tally.lookup_mapValues, Option.isSome_map]
    rfl

theorem registered_registerSession (monitor : DbSizeMonitor) (database : String) (limitBytes id : Nat) :
    (monitor.registerSession database limitBytes).1.Registered id ↔
      id = monitor.sessionIdCounter ∨ monitor.Registered id := by
  by_cases new : id = monitor.sessionIdCounter
  · subst new
    simp [Registered, registerSession]
  · simp [Registered, registerSession, new, AList.lookup_insert_ne new]

theorem registered_unregisterSession (monitor : DbSizeMonitor) (old id : Nat) :
    (monitor.unregisterSession old).Registered id ↔ id ≠ old ∧ monitor.Registered id := by
  by_cases same : id = old
  · subst same
    simp [Registered, unregisterSession]
  · simp [Registered, unregisterSession, same, AList.lookup_erase_ne same]

end DbSizeMonitor

end PgMux
