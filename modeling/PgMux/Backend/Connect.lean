import PgMux.Protocol
import PgMux.Shared.Transition
import PgMux.Backend.Reset

set_option autoImplicit false

namespace PgMux

/-- What `connect_backend` uses of the crate `postgres_protocol`. -/
structure PgProtocol where
  ScramSha256 : Type
  new : Bytes → ScramSha256
  message : ScramSha256 → Bytes
  update : ScramSha256 → Bytes → Except String ScramSha256
  finish : ScramSha256 → Bytes → Except String Unit
  md5Hash : Bytes → Bytes → Bytes → String
  passwordMessage : Bytes → Except String Bytes
  saslInitialResponse : String → Bytes → Except String Bytes
  saslResponse : Bytes → Except String Bytes

def buildStartupMessage (user database : String) (extraParams : List (String × String)) : Bytes :=
  let payload := putI32 196608 ++ asBytes "user" ++ [0] ++ asBytes user ++ [0] ++
    asBytes "database" ++ [0] ++ asBytes database ++ [0] ++
    extraParams.flatMap (fun param => asBytes param.1 ++ [0] ++ asBytes param.2 ++ [0]) ++ [0]
  putI32 (payload.length + 4) ++ payload

-- The point of `connect_backend` at which a read may fail or end.
inductive Moment where
  | auth
  | saslContinue
  | saslFinal
  | ready
deriving DecidableEq, Repr

inductive ConnectError where
  | io (cause : String)
  | message (error : MessageError)
  | disconnected (moment : Moment)
  | invalidAuth
  | invalidMd5
  | noScram
  | unsupportedAuth (authType : Int)
  | unexpectedAuth (moment : Moment) (authType : Int)
  | backend (moment : Moment) (fields : String)
  -- A slice out of range.
  | panic
deriving DecidableEq, Repr

def ConnectError.text : ConnectError → String
  | .io cause => cause
  | .message error => error.text
  | .disconnected .auth => "Backend disconnected during auth"
  | .disconnected .saslContinue => "Backend disconnected during SCRAM"
  | .disconnected .saslFinal => "Backend disconnected during SCRAM final"
  | .disconnected .ready => "Backend disconnected after auth"
  | .invalidAuth => "Invalid auth message"
  | .invalidMd5 => "Invalid MD5 auth message"
  | .noScram => "Server requires SASL but doesn't support SCRAM-SHA-256"
  | .unsupportedAuth authType => "Unsupported auth type: " ++ toString authType
  | .unexpectedAuth .saslFinal authType => "Unexpected auth type in SCRAM final: " ++ toString authType
  | .unexpectedAuth _ authType => "Unexpected auth type during SCRAM: " ++ toString authType
  | .backend .auth fields => "Backend error: " ++ fields
  | .backend .ready fields => "Backend error after auth: " ++ fields
  | .backend _ fields => "Backend error during SCRAM: " ++ fields
  | .panic => "range end index 4 out of range"

inductive ConnectStage (S : Type) where
  -- The loop over `authenticated`.
  | auth
  -- The two loops inside it, which take one message a read.
  | saslContinue (scram : S)
  | saslFinal (scram : S)
  -- The loop behind it.
  | ready
  | returned (result : Except ConnectError Unit)
deriving DecidableEq, Repr

structure Handshake (S : Type) where
  stage : ConnectStage S := .auth
  authenticated : Bool := false
  -- What has been written to the backend behind the startup message.
  sent : List Bytes := []
  -- The SCRAM exchanges that were begun, and those for which `finish` has succeeded.
  begun : Nat := 0
  finished : Nat := 0
deriving DecidableEq, Repr

def mechanisms (payload : Bytes) : List String :=
  (payload.splitOn 0).filterMap fun name => if name.isEmpty then none else fromUtf8 name

namespace Handshake

variable {S : Type}

def moment (h : Handshake S) : Moment :=
  match h.stage with
  | .auth => .auth
  | .saslContinue _ => .saslContinue
  | .saslFinal _ => .saslFinal
  | .ready | .returned _ => .ready

def fail (h : Handshake S) (error : ConnectError) : Handshake S :=
  { h with stage := .returned (.error error) }

def write (h : Handshake S) : Except String Bytes → Handshake S
  | .ok bytes => { h with sent := h.sent ++ [bytes] }
  | .error cause => h.fail (.io cause)

end Handshake

section Handle

variable (lib : PgProtocol) (user password : String)

def handleAuthentication (h : Handshake lib.ScramSha256) (payload : Bytes) : Handshake lib.ScramSha256 :=
  if payload.length < 4 then h.fail .invalidAuth
  else
    let authType := getI32 payload
    if authType = 0 then { h with authenticated := true }
    else if authType = 3 then h.write (lib.passwordMessage (asBytes password))
    else if authType = 5 then
      if payload.length < 8 then h.fail .invalidMd5
      else
        let salt := (payload.drop 4).take 4
        h.write (lib.passwordMessage (asBytes (lib.md5Hash (asBytes user) (asBytes password) salt)))
    else if authType = 10 then
      if "SCRAM-SHA-256" ∉ mechanisms (payload.drop 4) then h.fail .noScram
      else
        let scram := lib.new (asBytes password)
        match lib.saslInitialResponse "SCRAM-SHA-256" (lib.message scram) with
        | .ok bytes =>
          { h with stage := .saslContinue scram, sent := h.sent ++ [bytes], begun := h.begun + 1 }
        | .error cause => h.fail (.io cause)
    else h.fail (.unsupportedAuth authType)

def handleAuth (h : Handshake lib.ScramSha256) (msg : PgMessage) : Handshake lib.ScramSha256 :=
  if msg.msgType = 'R'.toUInt8 then handleAuthentication lib user password h msg.payload
  else if msg.msgType = 'E'.toUInt8 then h.fail (.backend .auth (parseErrorFields msg.payload))
  else if msg.msgType = 'Z'.toUInt8 then { h with stage := .returned (.ok ()) }
  else h

def handleContinue (h : Handshake lib.ScramSha256) (scram : lib.ScramSha256) (msg : PgMessage) :
    Handshake lib.ScramSha256 :=
  if msg.msgType = 'R'.toUInt8 then
    if msg.payload.length < 4 then h.fail .panic
    else
      let authType := getI32 msg.payload
      if authType = 11 then
        match lib.update scram (msg.payload.drop 4) with
        | .ok scram =>
          match lib.saslResponse (lib.message scram) with
          | .ok bytes => { h with stage := .saslFinal scram, sent := h.sent ++ [bytes] }
          | .error cause => h.fail (.io cause)
        | .error cause => h.fail (.io cause)
      else h.fail (.unexpectedAuth .saslContinue authType)
  else if msg.msgType = 'E'.toUInt8 then h.fail (.backend .saslContinue (parseErrorFields msg.payload))
  else h

-- Both ways out of the loop lead back into the loop over `authenticated`.
def handleFinal (h : Handshake lib.ScramSha256) (scram : lib.ScramSha256) (msg : PgMessage) :
    Handshake lib.ScramSha256 :=
  if msg.msgType = 'R'.toUInt8 then
    if msg.payload.length < 4 then h.fail .panic
    else
      let authType := getI32 msg.payload
      if authType = 12 then
        match lib.finish scram (msg.payload.drop 4) with
        | .ok () => { h with stage := .auth, finished := h.finished + 1 }
        | .error cause => h.fail (.io cause)
      else if authType = 0 then { h with stage := .auth }
      else h.fail (.unexpectedAuth .saslFinal authType)
  else if msg.msgType = 'E'.toUInt8 then h.fail (.backend .saslFinal (parseErrorFields msg.payload))
  else h

def handleReady {S : Type} (h : Handshake S) (msg : PgMessage) : Handshake S :=
  if msg.msgType = 'Z'.toUInt8 then { h with stage := .returned (.ok ()) }
  else if msg.msgType = 'E'.toUInt8 then h.fail (.backend .ready (parseErrorFields msg.payload))
  else h

def handle (h : Handshake lib.ScramSha256) (msg : PgMessage) : Handshake lib.ScramSha256 :=
  match h.stage with
  | .auth => handleAuth lib user password h msg
  | .saslContinue scram => handleContinue lib h scram msg
  | .saslFinal scram => handleFinal lib h scram msg
  | .ready => handleReady h msg
  | .returned _ => h

end Handle

namespace Handshake

variable {S : Type}

-- `while let` goes on in these loops; from everywhere else the next thing is a read or the return.
def loops (h : Handshake S) : Bool :=
  match h.stage with
  | .auth | .ready => true
  | _ => false

-- The check of `while !authenticated`, made when the inner loop has no message left.
def settle (h : Handshake S) : Handshake S :=
  match h.stage with
  | .auth => if h.authenticated then { h with stage := .ready } else h
  | _ => h

def Returned (h : Handshake S) : Prop :=
  match h.stage with
  | .returned _ => True
  | _ => False

instance (h : Handshake S) : Decidable h.Returned :=
  match same : h.stage with
  | .auth | .saslContinue _ | .saslFinal _ | .ready => isFalse (by simp [Returned, same])
  | .returned _ => isTrue (by simp [Returned, same])

end Handshake

structure Connect (S : Type) where
  core : Handshake S := {}
  buf : Bytes := []
  log : List (Handshake S × PgMessage) := []
  -- What the reads have brought.
  heard : Bytes := []
deriving DecidableEq, Repr

namespace Connect

variable (lib : PgProtocol) (user password : String)

abbrev Log (S : Type) := List (Handshake S × PgMessage)

def takeMessage (s : Handshake lib.ScramSha256 × Log lib.ScramSha256) (msg : PgMessage) :
    (Handshake lib.ScramSha256 × Log lib.ScramSha256) × Option Unit :=
  let h := handle lib user password s.1 msg
  ((h, s.2 ++ [(s.1, msg)]), if h.loops then none else some ())

def pass (s : Connect lib.ScramSha256) (read : Except String Bytes) : Connect lib.ScramSha256 :=
  match read with
  | .error cause => { s with core := s.core.fail (.io cause) }
  | .ok [] => { s with core := s.core.fail (.disconnected s.core.moment) }
  | .ok chunk =>
    let (taken, rest, ended) := plainReader.drain (takeMessage lib user password) (s.core, s.log)
      (s.buf ++ chunk)
    { core :=
        match ended with
        | .drained => taken.1.settle
        | .failed error => taken.1.fail (.message error)
        | .stopped () => taken.1
      buf := rest
      log := taken.2
      heard := s.heard ++ chunk }

-- Once it has returned it reads no more.
def step (s : Connect lib.ScramSha256) (read : Except String Bytes) : Option (Connect lib.ScramSha256) :=
  if s.core.Returned then none else some (pass lib user password s read)

end Connect

end PgMux
