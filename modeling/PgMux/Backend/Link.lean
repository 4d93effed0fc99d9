import PgMux.Shared.Transition
import PgMux.Backend.Reset
import PgMux.Proxy.Drains

set_option autoImplicit false

namespace PgMux

-- The requests that Postgres answers with a ReadyForQuery: Query and Sync.
def awaitsReady (raw : Bytes) : Bool := raw.headD 0 = 'Q'.toUInt8 || raw.headD 0 = 'S'.toUInt8

def NoReady (msgs : List PgMessage) : Prop := ∀ msg ∈ msgs, msg.isReady = false

def EndsInReady (msgs : List PgMessage) : Prop :=
  NoReady msgs.dropLast ∧ msgs.getLast?.map PgMessage.isReady = some true

/-- A Query or a Sync is answered by messages of which the last, and only that, is a ReadyForQuery;
the answer to any other request has none. -/
def Answers (raw : Bytes) (answer : List PgMessage) : Prop :=
  (∀ msg ∈ answer, msg.WellFormed) ∧ if awaitsReady raw then EndsInReady answer else NoReady answer

instance (msgs : List PgMessage) : Decidable (NoReady msgs) :=
  inferInstanceAs (Decidable (∀ msg ∈ msgs, msg.isReady = false))

instance (msgs : List PgMessage) : Decidable (EndsInReady msgs) := inferInstanceAs (Decidable (_ ∧ _))

instance (raw : Bytes) (answer : List PgMessage) : Decidable (Answers raw answer) :=
  inferInstanceAs (Decidable ((∀ msg ∈ answer, msg.WellFormed) ∧
    if awaitsReady raw then EndsInReady answer else NoReady answer))

def takeRequest (inbox : Bytes) : Option (Bytes × Bytes) :=
  let raw := inbox.take (1 + lengthField inbox)
  if 5 ≤ inbox.length ∧ IsMessage raw then some (raw, inbox.drop (1 + lengthField inbox)) else none

inductive Stage where
  | proxying (ctx : Settings) (proxy : Proxy)
  -- In `reset_connection`, with its buffer.
  | resetting (buf : Bytes)
  -- In the idle queue.
  | idle
  | dropped
deriving DecidableEq, Repr

structure Link where
  stage : Stage
  -- Written to the backend, and not yet taken by it.
  inbox : Bytes := []
  -- Written by the backend, and not yet read.
  outbox : Bytes := []
  -- The backend has closed its end.
  closed : Bool := false
  -- What the session has written and read since it acquired the connection, the reset included.
  asked : Bytes := []
  heard : Bytes := []
  answered : List (Bytes × List PgMessage) := []
deriving DecidableEq, Repr

inductive LinkAction where
  | client (read : Except String Bytes) (loads : Loads)
  -- A read of the backend's socket takes at most this number of bytes and one more.
  | server (n : Nat) (loads : Loads)
  | answer (answer : List PgMessage)
  | close
  | reset (n : Nat)
  -- An I/O error in the session or in the reset, or an eviction.
  | lose
  | acquire (ctx : Settings)

def forwardedBy (writes : List Write) : Bytes :=
  writes.flatMap fun
    | .toServer bytes => bytes
    | _ => []

namespace Link

def opened (ctx : Settings) : Link := { stage := .proxying ctx {} }

def write (l : Link) (bytes : Bytes) : Link :=
  { l with inbox := l.inbox ++ bytes, asked := l.asked ++ bytes }

-- A read of the backend's socket. It is not ready while an open backend has sent nothing.
def receive (l : Link) (n : Nat) : Option (Bytes × Link) :=
  if l.outbox = [] then if l.closed then some ([], l) else none
  else
    let chunk := l.outbox.take (n + 1)
    some (chunk, { l with outbox := l.outbox.drop (n + 1), heard := l.heard ++ chunk })

def pass (l : Link) (ctx : Settings) (proxy : Proxy) (event : Event) : Link :=
  let (proxy, writes, outcome) := selectPass ctx proxy event
  let l := l.write (forwardedBy writes)
  match next proxy outcome with
  | .proxying proxy => { l with stage := .proxying ctx proxy }
  -- `release` begins with the write of `reset_connection`.
  | .disconnected => { l.write discardAll with stage := .resetting [] }
  | .failed _ | .panicked => { l with stage := .dropped }

def step (l : Link) : LinkAction → Option Link
  | .client read loads =>
    match l.stage with
    | .proxying ctx proxy => some (l.pass ctx proxy ⟨.client, read, loads⟩)
    | _ => none
  | .server n loads =>
    match l.stage, l.receive n with
    | .proxying ctx proxy, some (chunk, l) => some (l.pass ctx proxy ⟨.server, .ok chunk, loads⟩)
    | _, _ => none
  | .answer answer =>
    match takeRequest l.inbox with
    | some (raw, rest) =>
      if l.closed = false ∧ Answers raw answer then
        some { l with
          inbox := rest
          outbox := l.outbox ++ wire answer
          answered := l.answered ++ [(raw, answer)] }
      else none
    | none => none
  | .close => some { l with closed := true }
  | .reset n =>
    match l.stage, l.receive n with
    | .resetting buf, some (chunk, l) =>
      match resetPass buf (.ok chunk) with
      | .again rest => some { l with stage := .resetting rest }
      | .returned (.ok ()) => some { l with stage := .idle }
      | .returned (.error _) => some { l with stage := .dropped }
    | _, _ => none
  | .lose => some { l with stage := .dropped }
  | .acquire ctx =>
    match l.stage with
    | .idle => some { l with stage := .proxying ctx {}, asked := [], heard := [], answered := [] }
    | _ => none

end Link

end PgMux
