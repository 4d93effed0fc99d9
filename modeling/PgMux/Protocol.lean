import Mathlib.Init

set_option autoImplicit false

namespace PgMux

structure PoolKey where
  host : String
  port : UInt16
  database : String
  user : String
deriving DecidableEq, Repr

def PoolKey.display (key : PoolKey) : String :=
  key.host ++ ":" ++ toString key.port.toNat ++ "/" ++ key.database ++ "@" ++ key.user

structure ClientStartupInfo where
  user : String
  database : String
  password : String
  maxDbSize : Option Nat
  extraParams : List (String × String)
deriving DecidableEq, Repr

end PgMux
