import PgMux.Pool.System
import PgMux.Monitor
import PgMux.Proxy.Loops

set_option autoImplicit false

namespace PgMux

inductive HandlerError where
  | io (cause : String)
  | proxy (error : ProxyError)
  | backend (error : AcquireError)
  | panic
deriving DecidableEq, Repr

-- Where `handle_client` stands from the call of `acquire` on. The phases before it hold nothing.
inductive Phase where
  | acquiring
  -- The error message for the client is still to be written.
  | refusing (error : AcquireError) (message : Bytes)
  -- The messages between `acquire` and the proxy loops that are still to be written.
  | greeting (left : List Bytes)
  | proxying (sessionId : Nat) (proxy : Proxy)
  -- In the await of `release`.
  | releasing
  | returned (error : Option HandlerError)
deriving DecidableEq, Repr

structure Client where
  settings : Settings
  -- The arguments of `build_backend_key_data`: the process and a random number.
  backendKey : Int × Int
  phase : Phase := .acquiring
  sessionId : Option Nat := none
deriving DecidableEq, Repr

/-- All clients with what they share. The client of a number makes the `acquire` call of that number. -/
structure World where
  pools : System := {}
  monitor : DbSizeMonitor := {}
  clients : List Client := []
deriving DecidableEq

inductive WorldAction where
  | arrive (startupInfo : ClientStartupInfo) (backendKey : Int × Int)
  | tick (elapsed : Nat)
  | poll (i : Nat)
  | expire (i : Nat)
  | connected (i : Nat) (result : Except ConnectError Unit)
  | refuse (i : Nat) (written : Except String Unit)
  | greet (i : Nat) (written : Except String Unit)
  -- A pass of the proxy loops in which every write succeeds.
  | turn (i : Nat) (event : Event)
  -- A pass in which the write with this number fails.
  | breaks (i : Nat) (event : Event) (k : Nat) (cause : String)
  | reset (i : Nat) (result : Except String Unit)
  | check (connects : Bool) (queryOne : String → Option Int)

def settingsFor (cfg : Config) (startupInfo : ClientStartupInfo) : Settings where
  poolKey :=
    { host := cfg.upstreamHost
      port := cfg.upstreamPort
      database := startupInfo.database
      user := startupInfo.user }
  cfg := cfg
  startupInfo := startupInfo

def paramsToSend : List (String × String) :=
  [("server_version", "16.0"), ("server_encoding", "UTF8"), ("client_encoding", "UTF8"),
    ("DateStyle", "ISO, MDY"), ("TimeZone", "UTC"), ("integer_datetimes", "on"),
    ("standard_conforming_strings", "on")]

def greetingFor (backendKey : Int × Int) : List Bytes :=
  [buildAuthOk] ++ paramsToSend.map (fun param => buildParameterStatus param.1 param.2) ++
    [buildBackendKeyData backendKey.1 backendKey.2, buildReadyForQuery 'I'.toUInt8]

def refusalFor (error : AcquireError) : Bytes :=
  buildErrorResponse "FATAL" "28000" ("Backend auth failed: " ++ error.text)

def effectiveLimit (ctx : Settings) : Nat := (maxSize ctx).getD 0

namespace World

def setPhase (w : World) (i : Nat) (phase : Phase) : World :=
  { w with clients := w.clients.modify i fun client => { client with phase := phase } }

-- What `handle_client` does in the same poll in which its `acquire` returns.
def afterAcquire (w : World) (i : Nat) : World :=
  match w.clients[i]?, w.pools.tasks[i]? with
  | some client, some (.holding _ _) =>
    let w := w.setPhase i (.greeting (greetingFor client.backendKey))
    match client.settings.startupInfo.maxDbSize with
    | some maxSize =>
      { w with monitor := w.monitor.registerLimit client.settings.poolKey.database maxSize }
    | none => w
  | some _, some (.failed _ error) => w.setPhase i (.refusing error (refusalFor error))
  | some _, some (.panicked _) => w.setPhase i (.returned (some .panic))
  | _, _ => w

def startProxy (w : World) (i : Nat) (client : Client) : World :=
  let (monitor, id) := w.monitor.registerSession client.settings.poolKey.database
    (effectiveLimit client.settings)
  { w with
    monitor := monitor
    clients := w.clients.modify i fun client =>
      { client with phase := .proxying id {}, sessionId := some id } }

def finish (cfg : PoolConfig) (w : World) (i : Nat) (sessionId : Nat) : Option World :=
  (w.pools.step cfg (.release i)).map fun pools =>
    let w := { w with pools := pools, monitor := w.monitor.unregisterSession sessionId }
    match pools.tasks[i]? with
    | some (.resetting _ _) => w.setPhase i .releasing
    | _ => w.setPhase i (.returned none)

def step (cfg : Config) (w : World) : WorldAction → Option World
  | .arrive startupInfo backendKey =>
    let settings := settingsFor cfg startupInfo
    let call := { key := settings.poolKey, password := startupInfo.password,
                  extraParams := startupInfo.extraParams }
    (w.pools.step cfg.pool (.call call)).map fun pools =>
      { w with pools := pools, clients := w.clients ++ [{ settings := settings, backendKey := backendKey }] }
  | .tick elapsed => (w.pools.step cfg.pool (.tick elapsed)).map fun pools => { w with pools := pools }
  | .poll i =>
    (w.pools.step cfg.pool (.poll i)).map fun pools => { w with pools := pools }.afterAcquire i
  | .expire i =>
    (w.pools.step cfg.pool (.expire i)).map fun pools => { w with pools := pools }.afterAcquire i
  | .connected i result =>
    (w.pools.step cfg.pool (.connected i result)).map fun pools => { w with pools := pools }.afterAcquire i
  | .refuse i written =>
    match w.clients[i]?.map Client.phase with
    | some (.refusing error _) =>
      match written with
      | .ok () => some (w.setPhase i (.returned (some (.backend error))))
      | .error cause => some (w.setPhase i (.returned (some (.io cause))))
    | _ => none
  | .greet i written =>
    match w.clients[i]? with
    | some client =>
      match client.phase, written with
      | .greeting _, .error cause => some (w.setPhase i (.returned (some (.io cause))))
      | .greeting (_ :: next :: left), .ok () => some (w.setPhase i (.greeting (next :: left)))
      | .greeting _, .ok () => some (w.startProxy i client)
      | _, _ => none
    | none => none
  | .turn i event =>
    match w.clients[i]? with
    | some client =>
      match client.phase with
      | .proxying id proxy =>
        let (proxy, _, outcome) := selectPass client.settings proxy event
        match next proxy outcome with
        | .proxying proxy => some (w.setPhase i (.proxying id proxy))
        | .disconnected => w.finish cfg.pool i id
        | .failed error => some (w.setPhase i (.returned (some (.proxy error))))
        | .panicked => some (w.setPhase i (.returned (some .panic)))
      | _ => none
    | none => none
  | .breaks i event k cause =>
    match w.clients[i]? with
    | some client =>
      match client.phase with
      | .proxying _ proxy =>
        if k < (selectPass client.settings proxy event).2.1.length then
          some (w.setPhase i (.returned (some (.io cause))))
        else none
      | _ => none
    | none => none
  | .reset i result =>
    (w.pools.step cfg.pool (.reset i result)).map fun pools =>
      { w with pools := pools }.setPhase i (.returned none)
  | .check connects queryOne =>
    some { w with monitor := w.monitor.checkAllSizes connects queryOne }

end World

end PgMux
