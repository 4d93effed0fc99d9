import PgMux.Client.World
import PgMux.Backend.Link

set_option autoImplicit false

namespace PgMux

def sslRequestCode : Int := 80877103

def cancelRequestCode : Int := 80877102

def buildAuthCleartextRequest : Bytes := ['R'.toUInt8] ++ putI32 8 ++ putI32 3

-- The cast `as i32`.
def asI32 (n : Nat) : Int :=
  let low : Nat := n % 2 ^ 32
  if low < 2 ^ 31 then (low : Int) else (low : Int) - 2 ^ 32

inductive StartupError where
  | tooShort
  | utf8 (bytes : Bytes)
  | panic (cause : Panic)
deriving DecidableEq, Repr

abbrev Params := List (String × String)

def Params.insert (params : Params) (key value : String) : Params :=
  if params.any (·.1 = key) then params.map fun param => if param.1 = key then (key, value) else param
  else params ++ [(key, value)]

def Params.get (params : Params) (key : String) : Option String := params.lookup key

-- The fuel bounds the number of pairs, each of which takes at least two bytes of the payload.
def startupPairs : Nat → Bytes → Params → Except StartupError Params
  | 0, _, params => .ok params
  | _ + 1, [], params => .ok params
  | fuel + 1, first :: rest, params =>
    if first = 0 then .ok params
    else
      let key := (first :: rest).takeWhile (· ≠ 0)
      match fromUtf8 key with
      | none => .error (.utf8 key)
      | some name =>
        match (first :: rest).dropWhile (· ≠ 0) with
        -- `val_start` is one past the end of the payload.
        | [] => .error (.panic .outOfRange)
        | _ :: rest =>
          let val := rest.takeWhile (· ≠ 0)
          match fromUtf8 val with
          | none => .error (.utf8 val)
          | some value => startupPairs fuel ((rest.dropWhile (· ≠ 0)).drop 1) (params.insert name value)

def parseStartupParams (payload : Bytes) : Except StartupError (Int × Params) :=
  if payload.length < 4 then .error .tooShort
  else (startupPairs payload.length (payload.drop 4) []).map fun params => (getI32 payload, params)

inductive ClientError where
  | io (cause : String)
  | message (error : MessageError)
  | startup (error : StartupError)
  | disconnectedBeforeStartup
  | disconnectedDuringAuth
  | unsupportedVersion (version : Int)
  | utf8 (bytes : Bytes)
  | invalidPassword
  | expectedPassword (msgType : UInt8)
  | panic (cause : Panic)
deriving DecidableEq, Repr

def versionText (version : Int) : String := "Unsupported protocol version: " ++ toString version

-- The texts that the code itself writes; a UTF-8 error and a panic have those of the standard library.
def ClientError.text : ClientError → Option String
  | .io cause => some cause
  | .message error => some error.text
  | .startup .tooShort => some "Startup payload too short"
  | .startup _ | .utf8 _ | .panic _ => none
  | .disconnectedBeforeStartup => some "Client disconnected before startup"
  | .disconnectedDuringAuth => some "Client disconnected during auth"
  | .unsupportedVersion version => some (versionText version)
  | .invalidPassword => some "Invalid password message"
  | .expectedPassword msgType =>
    some ("Expected password message, got '" ++ String.singleton (Char.ofNat msgType.toNat) ++ "'")

def optionsLimit : List (List Char) → Except Panic (Option Nat)
  | [] => .ok none
  | part :: parts =>
    match stripPrefix "--max_db_size=".toList part with
    | some val => parseSizeLimit (String.ofList val)
    | none =>
      match stripPrefix "-c max_db_size=".toList part with
      | some val => parseSizeLimit (String.ofList val)
      | none => optionsLimit parts

def maxDbSizeOf (params : Params) : Except Panic (Option Nat) := do
  let given ← match params.get "max_db_size" with
    | some v => parseSizeLimit v
    | none => .ok none
  match given, params.get "options" with
  | some limit, _ => .ok (some limit)
  | none, some opts => optionsLimit (splitWhitespace opts.toList)
  | none, none => .ok none

-- The order of the extra parameters stands for the order of a `HashMap`, which has none.
def startupInfoOf (params : Params) : Except Panic ClientStartupInfo := do
  let user := (params.get "user").getD ""
  let maxDbSize ← maxDbSizeOf params
  return {
    user := user
    database := (params.get "database").getD user
    password := ""
    maxDbSize := maxDbSize
    extraParams := params.filter fun param => param.1 ∉ ["user", "database", "max_db_size", "options"] }

inductive ClientStage where
  | startup
  | password (startupInfo : ClientStartupInfo)
  | proxying (startupInfo : ClientStartupInfo)
  | returned (result : Except ClientError Unit)
deriving DecidableEq, Repr

-- What phase 1 makes of the payload of a startup message: what it writes, and where it gets to.
def handleStartup (payload : Bytes) : List Bytes × ClientStage :=
  match parseStartupParams payload with
  | .error error => ([], .returned (.error (.startup error)))
  | .ok (version, params) =>
    if version ≠ 196608 then
      ([buildErrorResponse "FATAL" "08004" (versionText version)],
        .returned (.error (.unsupportedVersion version)))
    else
      match startupInfoOf params with
      | .error cause => ([], .returned (.error (.panic cause)))
      | .ok startupInfo => ([buildAuthCleartextRequest], .password startupInfo)

def passwordOf (msg : PgMessage) : Except ClientError String :=
  if msg.msgType = 'p'.toUInt8 then
    match msg.payload.findIdx? (· = 0) with
    | some nullPos =>
      match fromUtf8 (msg.payload.take nullPos) with
      | some password => .ok password
      | none => .error (.utf8 (msg.payload.take nullPos))
    | none => .error .invalidPassword
  else .error (.expectedPassword msg.msgType)

def handlePassword (startupInfo : ClientStartupInfo) (msg : PgMessage) : ClientStage :=
  match passwordOf msg with
  | .ok password => .proxying { startupInfo with password := password }
  | .error error => .returned (.error error)

-- One round of the loop of phase 1, behind its read.
def readInitial (tls : Bool) (buf : Bytes) : List Bytes × ClientStage × Bytes :=
  if buf.length < 4 then ([], .startup, buf)
  else if asI32 buf.length < getI32 buf then ([], .startup, buf)
  else if 8 ≤ buf.length ∧ getI32 (buf.drop 4) = sslRequestCode then
    if tls then ([asBytes "S"], .startup, buf.drop 8) else ([asBytes "N"], .startup, [])
  else if 8 ≤ buf.length ∧ getI32 (buf.drop 4) = cancelRequestCode then ([], .returned (.ok ()), buf)
  else
    let msgLen := asUsize (getI32 buf)
    if buf.length < msgLen then ([], .startup, buf)
    -- `msg_len - 4` wraps around, and `split_to` panics.
    else if msgLen < 4 then ([], .returned (.error (.panic .outOfRange)), buf)
    else
      let payload := (buf.drop 4).take (msgLen - 4)
      ((handleStartup payload).1, (handleStartup payload).2, buf.drop msgLen)

/-- `handle_client`, with a backend that is acquired as soon as the client has given its password. -/
structure Arrival where
  stage : ClientStage := .startup
  buf : Bytes := []
  -- What phases 1 and 2 have written to the client.
  replies : List Bytes := []
  -- Phase 4 starts with buffers of its own.
  proxy : Proxy := {}
  forwarded : Bytes := []
deriving DecidableEq, Repr

namespace Arrival

def fail (s : Arrival) (error : ClientError) : Arrival := { s with stage := .returned (.error error) }

def readStartup (tls : Bool) (s : Arrival) : Except String Bytes → Arrival
  | .error cause => s.fail (.io cause)
  | .ok [] => s.fail .disconnectedBeforeStartup
  | .ok chunk =>
    let (replies, stage, buf) := readInitial tls (s.buf ++ chunk)
    { s with stage := stage, buf := buf, replies := s.replies ++ replies }

def readPassword (startupInfo : ClientStartupInfo) (s : Arrival) : Except String Bytes → Arrival
  | .error cause => s.fail (.io cause)
  | .ok [] => s.fail .disconnectedDuringAuth
  | .ok chunk =>
    match tryReadMessage (s.buf ++ chunk) false with
    | .error error => s.fail (.message error)
    | .ok none => { s with buf := s.buf ++ chunk }
    | .ok (some (msg, rest)) => { s with stage := handlePassword startupInfo msg, buf := rest }

def proxied (ctx : Settings) (s : Arrival) (event : Event) : Arrival :=
  let (p, writes, outcome) := selectPass ctx s.proxy event
  let forwarded := s.forwarded ++ forwardedBy writes
  match next p outcome with
  | .proxying p => { s with proxy := p, forwarded := forwarded }
  | .disconnected => { s with stage := .returned (.ok ()), forwarded := forwarded }
  | .failed (.io cause) => { s with stage := .returned (.error (.io cause)), forwarded := forwarded }
  | .failed (.message error) => { s with stage := .returned (.error (.message error)), forwarded := forwarded }
  | .panicked => { s with stage := .returned (.error (.panic .unreachable)), forwarded := forwarded }

-- A read of the client's socket, with what the proxy phase loads when it is the one that reads.
def pass (cfg : Config) (tls : Bool) (s : Arrival) (read : Except String Bytes) (loads : Loads) : Arrival :=
  match s.stage with
  | .startup => s.readStartup tls read
  | .password startupInfo => s.readPassword startupInfo read
  | .proxying startupInfo => s.proxied (settingsFor cfg startupInfo) ⟨.client, read, loads⟩
  | .returned _ => s

end Arrival

end PgMux
