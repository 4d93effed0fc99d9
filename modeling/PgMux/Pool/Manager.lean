import Mathlib.Logic.Function.Iterate
import PgMux.Shared.Tally
import PgMux.Config
import PgMux.Protocol

set_option autoImplicit false

namespace PgMux

/-- A backend socket, with the arguments of the `connect_backend` call that opened it. -/
structure TcpStream where
  id : Nat
  key : PoolKey
  password : String
  extraParams : List (String × String)
deriving DecidableEq, Repr

-- Instants and durations count nanoseconds.
abbrev Instant := Nat

def fromSecs (secs : Nat) : Nat := secs * 1000000000
def fromMillis (millis : Nat) : Nat := millis * 1000000

structure PooledConnection where
  stream : TcpStream
  createdAt : Instant
  lastUsed : Instant
deriving DecidableEq, Repr

/-- `fetch_sub` on zero wraps around; `wrapped` remembers that it happened. -/
structure AtomicU64 where
  value : Nat := 0
  wrapped : Bool := false
deriving DecidableEq, Repr

def AtomicU64.fetchAdd (counter : AtomicU64) : AtomicU64 :=
  { counter with value := counter.value + 1 }

def AtomicU64.fetchSub (counter : AtomicU64) : AtomicU64 :=
  if counter.value = 0 then { value := 2 ^ 64 - 1, wrapped := true }
  else { counter with value := counter.value - 1 }

-- A stored permit, and the parked tasks in the order in which they came.
structure Notify where
  permit : Bool := false
  queue : List Nat := []
deriving DecidableEq, Repr

structure Pool where
  idle : List PooledConnection := []
  activeCount : AtomicU64 := {}
  waiters : Notify := {}
  totalAcquired : Nat := 0
  totalErrors : Nat := 0
deriving DecidableEq, Repr

structure Metrics where
  serverConnectionsTotal : Nat := 0
  serverConnectionsActive : Int := 0
  serverConnectionErrorsTotal : Nat := 0
  poolHitsTotal : Nat := 0
  poolMissesTotal : Nat := 0
  poolTimeoutsTotal : Nat := 0
deriving DecidableEq, Repr

structure PoolManager where
  pools : Tally.Table PoolKey Pool := ∅
  totalServerConnections : AtomicU64 := {}
  metrics : Metrics := {}
deriving DecidableEq

inductive AcquireError where
  | globalLimit
  | perPoolLimit
  | timeout
  | connect (key : PoolKey) (cause : String)
deriving DecidableEq, Repr

def AcquireError.text : AcquireError → String
  | .globalLimit => "Connection pool timeout: global limit reached"
  | .perPoolLimit => "Connection pool timeout: per-pool limit reached"
  | .timeout => "Connection pool timeout"
  | .connect key cause => "Failed to connect to backend " ++ key.display ++ ": " ++ cause

namespace PoolManager

-- The pool a caller holds an `Arc` of. Pools are never removed, so it is the one under the key.
def pool (m : PoolManager) (key : PoolKey) : Pool := (m.pools.lookup key).getD {}

def setPool (m : PoolManager) (key : PoolKey) (pool : Pool) : PoolManager :=
  { m with pools := m.pools.insert key pool }

-- `entry(key).or_insert_with(Pool::new)`.
def entry (m : PoolManager) (key : PoolKey) : PoolManager :=
  match m.pools.lookup key with
  | some _ => m
  | none => m.setPool key {}

def forget (m : PoolManager) : PoolManager :=
  { m with
    totalServerConnections := m.totalServerConnections.fetchSub
    metrics := { m.metrics with
      serverConnectionsActive := m.metrics.serverConnectionsActive - 1 } }

-- The `while let` over the idle queue: evict from the front until a connection is fit for use.
def popIdle (cfg : PoolConfig) (now : Instant) :
    PoolManager → List PooledConnection → PoolManager × Option PooledConnection × List PooledConnection
  | m, [] => (m, none, [])
  | m, conn :: rest =>
    if fromSecs cfg.maxConnectionLifetimeSecs < now - conn.createdAt then popIdle cfg now m.forget rest
    else if fromSecs cfg.idleTimeoutSecs < now - conn.lastUsed then popIdle cfg now m.forget rest
    else (m, some conn, rest)

inductive Attempt where
  | reuse (stream : TcpStream)
  | connect
  | wait
  | bail (error : AcquireError)
deriving DecidableEq, Repr

def bail (m : PoolManager) (key : PoolKey) (error : AcquireError) : PoolManager × Attempt :=
  let pool := m.pool key
  ({ m.setPool key { pool with totalErrors := pool.totalErrors + 1 } with
      metrics := { m.metrics with poolTimeoutsTotal := m.metrics.poolTimeoutsTotal + 1 } },
    .bail error)

def checkCapacity (cfg : PoolConfig) (now : Instant) (key : PoolKey) (deadline : Instant)
    (m : PoolManager) : PoolManager × Attempt :=
  let total := m.totalServerConnections.value
  let perPool := (m.pool key).activeCount.value + (m.pool key).idle.length
  if cfg.maxTotalConnections ≤ total then
    if deadline ≤ now then m.bail key .globalLimit else (m, .wait)
  else if cfg.maxConnectionsPerPool ≤ perPool then
    if deadline ≤ now then m.bail key .perPoolLimit else (m, .wait)
  else
    ({ m with metrics := { m.metrics with poolMissesTotal := m.metrics.poolMissesTotal + 1 } },
      .connect)

/-- One pass of the loop of `acquire`, up to its next await or its return. -/
def attempt (cfg : PoolConfig) (now : Instant) (key : PoolKey) (deadline : Instant)
    (m : PoolManager) : PoolManager × Attempt :=
  match popIdle cfg now m (m.pool key).idle with
  | (m, some conn, rest) =>
    let pool := m.pool key
    ({ m.setPool key { pool with
          idle := rest
          activeCount := pool.activeCount.fetchAdd
          totalAcquired := pool.totalAcquired + 1 } with
        metrics := { m.metrics with poolHitsTotal := m.metrics.poolHitsTotal + 1 } },
      .reuse conn.stream)
  | (m, none, rest) => checkCapacity cfg now key deadline (m.setPool key { m.pool key with idle := rest })

-- `connect_backend` has returned a stream.
def connected (m : PoolManager) (key : PoolKey) : PoolManager :=
  let pool := m.pool key
  { m.setPool key { pool with
      activeCount := pool.activeCount.fetchAdd
      totalAcquired := pool.totalAcquired + 1 } with
    totalServerConnections := m.totalServerConnections.fetchAdd
    metrics := { m.metrics with
      serverConnectionsActive := m.metrics.serverConnectionsActive + 1
      serverConnectionsTotal := m.metrics.serverConnectionsTotal + 1 } }

def refused (m : PoolManager) (key : PoolKey) : PoolManager :=
  let pool := m.pool key
  { m.setPool key { pool with totalErrors := pool.totalErrors + 1 } with
    metrics := { m.metrics with
      serverConnectionErrorsTotal := m.metrics.serverConnectionErrorsTotal + 1 } }

-- `release` up to `reset_connection`; `false` when the pool is gone and `release` is over.
def beginRelease (m : PoolManager) (key : PoolKey) : PoolManager × Bool :=
  match m.pools.lookup key with
  | some pool => (m.setPool key { pool with activeCount := pool.activeCount.fetchSub }, true)
  | none => (m.forget, false)

def pushIdle (m : PoolManager) (key : PoolKey) (stream : TcpStream) (now : Instant) : PoolManager :=
  let pool := m.pool key
  m.setPool key { pool with
    idle := pool.idle ++ [{ stream := stream, createdAt := now, lastUsed := now }] }

def expired (cfg : PoolConfig) (now : Instant) (conn : PooledConnection) : Bool :=
  decide (fromSecs cfg.maxConnectionLifetimeSecs < now - conn.createdAt) ||
    decide (fromSecs cfg.idleTimeoutSecs < now - conn.lastUsed)

def evict (m : PoolManager) (key : PoolKey) (n : Nat) : PoolManager :=
  (forget^[n] m).setPool key { m.pool key with idle := (m.pool key).idle.drop n }

def takeFirst (m : PoolManager) (key : PoolKey) : PoolManager :=
  let pool := m.pool key
  { m.setPool key { pool with
      idle := pool.idle.tail
      activeCount := pool.activeCount.fetchAdd
      totalAcquired := pool.totalAcquired + 1 } with
    metrics := { m.metrics with poolHitsTotal := m.metrics.poolHitsTotal + 1 } }

@[simp] theorem forget_pools (m : PoolManager) (n : Nat) : (forget^[n] m).pools = m.pools := by
  induction n generalizing m with
  | zero => rfl
  | succ n ih => exact ih m.forget

@[simp] theorem pool_setPool (m : PoolManager) (key : PoolKey) (pool : Pool) :
    (m.setPool key pool).pool key = pool := by
  simp [PoolManager.pool, setPool]

@[simp] theorem setPool_setPool (m : PoolManager) (key : PoolKey) (first second : Pool) :
    (m.setPool key first).setPool key second = m.setPool key second := by
  simp [setPool]

theorem pool_of_lookup {m : PoolManager} {key : PoolKey} {pool : Pool}
    (present : m.pools.lookup key = some pool) : m.pool key = pool := by
  simp [PoolManager.pool, present]

theorem pool_setPool_ne (m : PoolManager) {key other : PoolKey} (pool : Pool) (ne : other ≠ key) :
    (m.setPool key pool).pool other = m.pool other := by
  simp [PoolManager.pool, setPool, AList.lookup_insert_ne ne]

theorem pool_setPool_apply (m : PoolManager) (key other : PoolKey) (pool : Pool) :
    (m.setPool key pool).pool other = if other = key then pool else m.pool other := by
  split
  · rename_i same
    rw [same, pool_setPool]
  · rename_i differs
    exact pool_setPool_ne m pool differs

theorem connected_pool (m : PoolManager) (key other : PoolKey) :
    (m.connected key).pool other =
      if other = key then { m.pool key with
        activeCount := (m.pool key).activeCount.fetchAdd
        totalAcquired := (m.pool key).totalAcquired + 1 }
      else m.pool other :=
  pool_setPool_apply m key other _

theorem overTable_setPool (weight : PoolKey → Pool → Nat) (empty : ∀ key, weight key {} = 0)
    (m : PoolManager) (key : PoolKey) (pool : Pool) :
    Tally.overTable weight (m.setPool key pool).pools + weight key (m.pool key) =
      Tally.overTable weight m.pools + weight key pool := by
  cases present : m.pools.lookup key with
  | none =>
    have fresh : m.pool key = {} := by simp [PoolManager.pool, present]
    rw [fresh, empty, setPool, Tally.overTable_insert_new weight pool present]
    omega
  | some old =>
    rw [pool_of_lookup present]
    exact Tally.overTable_insert weight pool present

theorem le_overTable_pool (weight : PoolKey → Pool → Nat) (empty : ∀ key, weight key {} = 0)
    (m : PoolManager) (key : PoolKey) : weight key (m.pool key) ≤ Tally.overTable weight m.pools := by
  cases present : m.pools.lookup key with
  | none => simp [PoolManager.pool, present, empty]
  | some pool =>
    rw [pool_of_lookup present]
    exact Tally.le_overTable weight present

theorem lookup_setPool_isSome {m : PoolManager} {key other : PoolKey} (pool : Pool)
    (present : (m.pools.lookup other).isSome) :
    ((m.setPool key pool).pools.lookup other).isSome := by
  by_cases same : other = key
  · subst same
    simp [setPool]
  · simpa [setPool, AList.lookup_insert_ne same] using present

theorem forget_iterate (m : PoolManager) (n v : Nat) (counter : m.totalServerConnections = ⟨v, false⟩)
    (within : n ≤ v) :
    (forget^[n] m).totalServerConnections = ⟨v - n, false⟩ ∧
      (forget^[n] m).metrics.serverConnectionsActive = m.metrics.serverConnectionsActive - n := by
  induction n generalizing m v with
  | zero => simpa using counter
  | succ n ih =>
    have once : m.forget.totalServerConnections = ⟨v - 1, false⟩ := by
      simp only [forget, AtomicU64.fetchSub, counter]
      rw [if_neg (by omega)]
    obtain ⟨total, gauge⟩ := ih m.forget (v - 1) once (by omega)
    rw [Function.iterate_succ_apply, total, gauge]
    constructor
    · congr 1
      omega
    · simp only [forget]
      push_cast
      omega

theorem popIdle_eq (cfg : PoolConfig) (now : Instant) (m : PoolManager)
    (idle : List PooledConnection) :
    popIdle cfg now m idle =
      (forget^[(idle.takeWhile (expired cfg now)).length] m,
        (idle.dropWhile (expired cfg now)).head?, (idle.dropWhile (expired cfg now)).tail) := by
  induction idle generalizing m with
  | nil => rfl
  | cons conn rest ih =>
    by_cases lifetime : fromSecs cfg.maxConnectionLifetimeSecs < now - conn.createdAt
    · simp [popIdle, expired, lifetime, ih]
    · by_cases idleTime : fromSecs cfg.idleTimeoutSecs < now - conn.lastUsed
      · simp [popIdle, expired, lifetime, idleTime, ih]
      · simp [popIdle, expired, lifetime, idleTime]

theorem drop_takeWhile_length {A : Type} (p : A → Bool) (list : List A) :
    list.drop (list.takeWhile p).length = list.dropWhile p := by
  induction list with
  | nil => rfl
  | cons a rest ih => by_cases h : p a <;> simp [h, ih]

theorem length_takeWhile_of_dropWhile {A : Type} {p : A → Bool} {list : List A} (none : list.dropWhile p = []) :
    (list.takeWhile p).length = list.length := by
  have parts := congrArg List.length (List.takeWhile_append_dropWhile (p := p) (l := list))
  rwa [none, List.append_nil] at parts

theorem attempt_eq (cfg : PoolConfig) (now : Instant) (key : PoolKey) (deadline : Instant)
    (m : PoolManager) :
    attempt cfg now key deadline m =
      let evicted := m.evict key ((m.pool key).idle.takeWhile (expired cfg now)).length
      match (m.pool key).idle.dropWhile (expired cfg now) with
      | conn :: _ => (evicted.takeFirst key, .reuse conn.stream)
      | [] => checkCapacity cfg now key deadline evicted := by
  have kept := drop_takeWhile_length (expired cfg now) (m.pool key).idle
  have same : (forget^[((m.pool key).idle.takeWhile (expired cfg now)).length] m).pool key =
      m.pool key := by simp [PoolManager.pool]
  simp only [attempt, popIdle_eq]
  cases fresh : (m.pool key).idle.dropWhile (expired cfg now) with
  | nil => simp [evict, kept, fresh, same]
  | cons conn rest =>
    simp only [List.head?_cons, List.tail_cons, takeFirst, evict, kept, fresh, pool_setPool,
      setPool_setPool, same]
    simp [setPool]

end PoolManager

end PgMux
