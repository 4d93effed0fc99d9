import PgMux.Config
import PgMux.Protocol
import PgMux.Scanner

set_option autoImplicit false

namespace PgMux

structure ProxyBuffers where
  clientBuf : Bytes := []
  serverBuf : Bytes := []
deriving DecidableEq, Repr

inductive ProxyLoopExit where
  | clientDisconnected
  | switchToSlow
  | switchToFast
deriving DecidableEq, Repr

structure Settings where
  poolKey : PoolKey
  cfg : Config
  startupInfo : ClientStartupInfo
deriving DecidableEq, Repr

def testSettings : Settings where
  poolKey := ⟨"localhost", 5432, "testdb", "app"⟩
  cfg := {}
  startupInfo := ⟨"app", "testdb", "secret", some 1000, []⟩

/-- What one pass through a loop sees of the monitor: the values of the flag and of the size, each in
the order in which the pass loads them. Other tasks run while a pass awaits its writes. -/
structure Loads where
  overLimit : Nat → Bool
  dbSize : Nat → Option Nat

inductive Write where
  | toServer (bytes : Bytes)
  | toClient (bytes : Bytes)
  | notice (bytes : Bytes)
deriving DecidableEq, Repr

inductive ProxyError where
  | io (cause : String)
  | message (error : MessageError)
deriving DecidableEq, Repr

inductive Outcome where
  | again
  | exit (reason : ProxyLoopExit)
  | fail (error : ProxyError)
deriving DecidableEq, Repr

inductive Mode where
  | fast (transitionPending : Bool)
  | slow (transactionReadOnlyInjected : Bool)
deriving DecidableEq, Repr

structure Proxy where
  mode : Mode := .fast false
  scanner : MessageBoundaryScanner := .new
  bufs : ProxyBuffers := {}
deriving DecidableEq, Repr

def fastClient (loads : Loads) (p : Proxy) (transitionPending : Bool) (chunk : Bytes) :
    Proxy × List Write × Outcome :=
  let pending := if !transitionPending && loads.overLimit 0 then true else transitionPending
  ({ p with mode := .fast pending, bufs := { p.bufs with clientBuf := [] } },
    [.toServer (p.bufs.clientBuf ++ chunk)], .again)

def fastServer (p : Proxy) (transitionPending : Bool) (chunk : Bytes) : Proxy × List Write × Outcome :=
  let serverBuf := p.bufs.serverBuf ++ chunk
  let (scanner, sawIdle) := p.scanner.scan serverBuf
  ({ p with scanner := scanner, bufs := { p.bufs with serverBuf := [] } }, [.toClient serverBuf],
    if transitionPending && sawIdle then .exit .switchToSlow else .again)

def maxSize (ctx : Settings) : Option Nat :=
  ctx.startupInfo.maxDbSize.or
    (if 0 < ctx.cfg.monitor.defaultMaxDbSizeBytes then some ctx.cfg.monitor.defaultMaxDbSizeBytes
      else none)

def overLimitNotice (ctx : Settings) : Bytes :=
  buildNoticeResponse "WARNING" "53400" ("Database '" ++ ctx.poolKey.database ++
    "' has exceeded its size limit. Write operations are restricted. DELETE/TRUNCATE are still allowed.")

def readOnlyQuery (queryText : String) : Bytes :=
  PgMessage.encode ⟨'Q'.toUInt8, asBytes ("SET TRANSACTION READ ONLY; " ++ queryText) ++ [0]⟩

structure ClientPass where
  injected : Bool
  writes : List Write := []
  sizeLoads : Nat := 0
deriving DecidableEq, Repr

def shouldInject (ctx : Settings) (loads : Loads) (pass : ClientPass) : Bool × ClientPass :=
  match maxSize ctx with
  | some limit =>
    (match loads.dbSize pass.sizeLoads with
      | some size => limit < size
      | none => false,
      { pass with sizeLoads := pass.sizeLoads + 1 })
  | none => (false, pass)

def enforce (ctx : Settings) (pass : ClientPass) (msg : PgMessage) (raw : Bytes) : ClientPass :=
  let isShrink := ((extractQueryText msg).map isShrinkOperation).getD false
  if isShrink && ctx.cfg.monitor.allowShrinkOperationsWhenOverlimit then
    { pass with writes := pass.writes ++ [.toServer raw] }
  else if msg.msgType = 'Q'.toUInt8 then
    match extractQueryText msg with
    | some queryText =>
      let pass := if pass.injected then pass
        else { pass with injected := true, writes := pass.writes ++ [.notice (overLimitNotice ctx)] }
      { pass with writes := pass.writes ++ [.toServer (readOnlyQuery queryText)] }
    | none => pass
  else { pass with writes := pass.writes ++ [.toServer raw] }

def slowClientMessage (ctx : Settings) (loads : Loads) (pass : ClientPass) (taken : PgMessage × Bytes) :
    ClientPass × Option ProxyLoopExit :=
  let (msg, raw) := taken
  let forward (pass : ClientPass) : ClientPass :=
    { pass with injected := false, writes := pass.writes ++ [.toServer raw] }
  if msg.msgType ≠ 'Q'.toUInt8 ∧ msg.msgType ≠ 'P'.toUInt8 then (forward pass, none)
  else
    let (inject, pass) := shouldInject ctx loads pass
    if inject then (enforce ctx pass msg raw, none) else (forward pass, none)

structure ServerPass where
  scanner : MessageBoundaryScanner
  writes : List Write := []
  flagLoads : Nat := 0
deriving DecidableEq, Repr

def slowServerMessage (loads : Loads) (pass : ServerPass) (taken : PgMessage × Bytes) :
    ServerPass × Option ProxyLoopExit :=
  let raw := taken.2
  let written := { pass with writes := pass.writes ++ [.toClient raw] }
  if raw.headD 0 = 'Z'.toUInt8 ∧ raw.length = 6 then
    let status := raw.getD 5 0
    let tracked := { written with scanner := { pass.scanner with transactionStatus := status } }
    if status = 'I'.toUInt8 then
      let loaded := { tracked with flagLoads := pass.flagLoads + 1 }
      if !loads.overLimit pass.flagLoads then (loaded, some .switchToFast) else (loaded, none)
    else (tracked, none)
  else (written, none)

def Outcome.ofEnded : Reader.Ended MessageError ProxyLoopExit → Outcome
  | .drained => .again
  | .failed error => .fail (.message error)
  | .stopped reason => .exit reason

def slowClient (ctx : Settings) (loads : Loads) (p : Proxy) (injected : Bool) (chunk : Bytes) :
    Proxy × List Write × Outcome :=
  let (pass, rest, ended) := messageReader.drain (slowClientMessage ctx loads) { injected := injected }
    (p.bufs.clientBuf ++ chunk)
  ({ p with mode := .slow pass.injected, bufs := { p.bufs with clientBuf := rest } }, pass.writes,
    .ofEnded ended)

def slowServer (loads : Loads) (p : Proxy) (chunk : Bytes) : Proxy × List Write × Outcome :=
  let (pass, rest, ended) := messageReader.drain (slowServerMessage loads) { scanner := p.scanner }
    (p.bufs.serverBuf ++ chunk)
  ({ p with scanner := pass.scanner, bufs := { p.bufs with serverBuf := rest } }, pass.writes,
    .ofEnded ended)

inductive Peer where
  | client
  | server
deriving DecidableEq, Repr

structure Event where
  peer : Peer
  read : Except String Bytes
  loads : Loads

def selectPass (ctx : Settings) (p : Proxy) (event : Event) : Proxy × List Write × Outcome :=
  match event.read with
  | .error cause => (p, [], .fail (.io cause))
  | .ok [] => (p, [], .exit .clientDisconnected)
  | .ok chunk =>
    match p.mode, event.peer with
    | .fast pending, .client => fastClient event.loads p pending chunk
    | .fast pending, .server => fastServer p pending chunk
    | .slow injected, .client => slowClient ctx event.loads p injected chunk
    | .slow _, .server => slowServer event.loads p chunk

inductive Next where
  | proxying (p : Proxy)
  | disconnected
  | failed (error : ProxyError)
  -- `unreachable!`
  | panicked
deriving DecidableEq, Repr

def next (p : Proxy) : Outcome → Next
  | .again => .proxying p
  | .fail error => .failed error
  | .exit .clientDisconnected => .disconnected
  | .exit .switchToSlow =>
    match p.mode with
    | .fast _ => .proxying { p with mode := .slow false }
    | .slow _ => .panicked
  | .exit .switchToFast =>
    match p.mode with
    | .slow _ => .proxying { p with mode := .fast false }
    | .fast _ => .panicked

end PgMux
