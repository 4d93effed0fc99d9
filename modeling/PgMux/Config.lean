import PgMux.Text

set_option autoImplicit false

namespace PgMux

structure PoolConfig where
  maxConnectionsPerPool : Nat := 20
  maxTotalConnections : Nat := 500
  acquireTimeoutMs : Nat := 5000
  idleTimeoutSecs : Nat := 300
  maxConnectionLifetimeSecs : Nat := 3600
deriving DecidableEq, Repr

structure MonitorConfig where
  -- Zero stands for no limit.
  defaultMaxDbSizeBytes : Nat := 0
  allowShrinkOperationsWhenOverlimit : Bool := true
deriving DecidableEq, Repr

structure Config where
  upstreamHost : String := "localhost"
  upstreamPort : UInt16 := 5432
  pool : PoolConfig := {}
  monitor : MonitorConfig := {}
deriving DecidableEq, Repr

def sizeUnits : List (String × Nat) :=
  [("TB", 1024 * 1024 * 1024 * 1024), ("GB", 1024 * 1024 * 1024), ("MB", 1024 * 1024), ("KB", 1024)]

-- The digits of a size and what they are multiplied by.
def sizeParts (text : List Char) : Except Panic (List Char × Nat) :=
  match sizeUnits.find? (fun unit => unit.1.toList.isSuffixOf (toUppercase text)) with
  | some unit => (dropLastBytes 2 text).map fun numStr => (numStr, unit.2)
  | none => .ok (text, 1)

-- In a release build the product wraps around.
def parseSizeLimit (s : String) : Except Panic (Option Nat) :=
  let text := trim s.toList
  if text = [] ∨ text = ['0'] then .ok none
  else (sizeParts text).map fun parts => (parseU64 (trim parts.1)).map fun n => n * parts.2 % 2 ^ 64

end PgMux
