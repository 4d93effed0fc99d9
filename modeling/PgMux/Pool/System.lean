import Mathlib.Logic.Relation
import PgMux.Shared.Transition
import PgMux.Backend.Connect
import PgMux.Pool.Manager

set_option autoImplicit false

namespace PgMux

structure AcquireCall where
  key : PoolKey
  password : String
  extraParams : List (String × String)
deriving DecidableEq, Repr

/-- Where a caller of `acquire` and then `release` stands; every constructor but the first and the
last three is an await point. -/
inductive Task where
  -- The future exists, but nothing of it has run.
  | called (call : AcquireCall)
  -- In `select!`, parked on `notified()` and `sleep`.
  | waiting (call : AcquireCall) (deadline : Instant) (notified : Bool)
  | connecting (call : AcquireCall)
  -- `acquire` has returned the stream and `release` has not been called.
  | holding (call : AcquireCall) (stream : TcpStream)
  | resetting (call : AcquireCall) (stream : TcpStream)
  | failed (call : AcquireCall) (error : AcquireError)
  | released (call : AcquireCall)
  -- `connect_backend` has panicked inside `acquire`, and the caller's task has unwound with it.
  | panicked (call : AcquireCall)
deriving DecidableEq, Repr

def Task.notify : Task → Task
  | .waiting call deadline _ => .waiting call deadline true
  | task => task

/-- The shared pools, the clock, all callers, and every stream that `connect_backend` has opened. -/
structure System where
  manager : PoolManager := {}
  now : Instant := 0
  tasks : List Task := []
  opened : List TcpStream := []
deriving DecidableEq

inductive Action where
  | tick (elapsed : Nat)
  | call (call : AcquireCall)
  | poll (i : Nat)
  -- The sleep of a parked task is over.
  | expire (i : Nat)
  | connected (i : Nat) (result : Except ConnectError Unit)
  | release (i : Nat)
  | reset (i : Nat) (result : Except String Unit)

namespace System

open PoolManager

def park (m : PoolManager) (i : Nat) (call : AcquireCall) (deadline : Instant) : PoolManager × Task :=
  let pool := m.pool call.key
  (m.setPool call.key { pool with waiters := { pool.waiters with queue := pool.waiters.queue ++ [i] } },
    .waiting call deadline false)

-- A stored permit makes `notified()` ready at once. There is at most one, so two passes are enough.
def acquireLoop (cfg : PoolConfig) (now : Instant) (i : Nat) (call : AcquireCall)
    (deadline : Instant) : Nat → PoolManager → PoolManager × Task
  | 0, m => park m i call deadline
  | fuel + 1, m =>
    match attempt cfg now call.key deadline m with
    | (m, .reuse stream) => (m, .holding call stream)
    | (m, .connect) => (m, .connecting call)
    | (m, .bail error) => (m, .failed call error)
    | (m, .wait) =>
      let pool := m.pool call.key
      if pool.waiters.permit then
        acquireLoop cfg now i call deadline fuel
          (m.setPool call.key { pool with waiters := { pool.waiters with permit := false } })
      else park m i call deadline

def resume (cfg : PoolConfig) (s : System) (i : Nat) (call : AcquireCall) (deadline : Instant)
    (m : PoolManager) : System :=
  let (m, task) := acquireLoop cfg s.now i call deadline 2 m
  { s with manager := m, tasks := s.tasks.set i task }

def notifyOne (s : System) (key : PoolKey) : System :=
  let pool := s.manager.pool key
  match pool.waiters.queue with
  | i :: rest =>
    { s with
      manager := s.manager.setPool key { pool with waiters := { pool.waiters with queue := rest } }
      tasks := s.tasks.modify i Task.notify }
  | [] =>
    { s with
      manager := s.manager.setPool key { pool with waiters := { pool.waiters with permit := true } } }

-- The `sleep` branch of `select!`. Dropping a `notified()` that was already woken passes the
-- notification on; one that was not leaves the queue.
def timeOut (s : System) (i : Nat) (call : AcquireCall) (notified : Bool) : System :=
  let m := (s.manager.bail call.key .timeout).1
  let pool := m.pool call.key
  let s := { s with
    manager := m.setPool call.key
      { pool with waiters := { pool.waiters with queue := pool.waiters.queue.erase i } }
    tasks := s.tasks.set i (.failed call .timeout) }
  if notified then s.notifyOne call.key else s

def step (cfg : PoolConfig) (s : System) : Action → Option System
  | .tick elapsed => some { s with now := s.now + elapsed }
  | .call call => some { s with tasks := s.tasks ++ [.called call] }
  | .poll i =>
    match s.tasks[i]? with
    | some (.called call) =>
      some (s.resume cfg i call (s.now + fromMillis cfg.acquireTimeoutMs) (s.manager.entry call.key))
    | some (.waiting call deadline true) => some (s.resume cfg i call deadline s.manager)
    | _ => none
  | .expire i =>
    match s.tasks[i]? with
    | some (.waiting call deadline notified) =>
      if deadline ≤ s.now then some (s.timeOut i call notified) else none
    | _ => none
  | .connected i result =>
    match s.tasks[i]? with
    | some (.connecting call) =>
      match result with
      | .ok () =>
        let stream : TcpStream := ⟨s.opened.length, call.key, call.password, call.extraParams⟩
        some { s with
          manager := s.manager.connected call.key
          tasks := s.tasks.set i (.holding call stream)
          opened := s.opened ++ [stream] }
      -- Of `acquire` nothing runs behind the panic.
      | .error .panic => some { s with tasks := s.tasks.set i (.panicked call) }
      | .error error =>
        some { s with
          manager := s.manager.refused call.key
          tasks := s.tasks.set i (.failed call (.connect call.key error.text)) }
    | _ => none
  | .release i =>
    match s.tasks[i]? with
    | some (.holding call stream) =>
      match s.manager.beginRelease call.key with
      | (m, true) => some { s with manager := m, tasks := s.tasks.set i (.resetting call stream) }
      | (m, false) => some { s with manager := m, tasks := s.tasks.set i (.released call) }
    | _ => none
  | .reset i result =>
    match s.tasks[i]? with
    | some (.resetting call stream) =>
      match result with
      | .ok () =>
        some ({ s with
          manager := s.manager.pushIdle call.key stream s.now
          tasks := s.tasks.set i (.released call) }.notifyOne call.key)
      | .error _ =>
        some { s with manager := s.manager.forget, tasks := s.tasks.set i (.released call) }
    | _ => none

def Reachable (cfg : PoolConfig) (s : System) : Prop :=
  ∃ actions, Transition.run (step cfg) {} actions = some s

end System

end PgMux
