import PgMux.Pool.Starvation
import PgMux.Pool.Ownership
import PgMux.Shared.History

set_option autoImplicit false

namespace PgMux

inductive Exchange where
  -- A connection was put into the idle queue of its key.
  | given (key : PoolKey) (stream : TcpStream)
  -- `acquire` returned a connection that it took from the idle queue.
  | reused (key : PoolKey) (stream : TcpStream)

namespace Exchange

def givenTo (key : PoolKey) : Exchange → Option TcpStream
  | .given other stream => if other = key then some stream else none
  | .reused _ _ => none

def reusedFrom (key : PoolKey) : Exchange → Option TcpStream
  | .given _ _ => none
  | .reused other stream => if other = key then some stream else none

end Exchange

namespace System

open PoolManager Transition

def exchanges (s : System) (a : Action) (t : System) : List Exchange :=
  match a with
  | .reset i (.ok ()) =>
    match s.tasks[i]? with
    | some (.resetting call stream) => [.given call.key stream]
    | _ => []
  | .poll i =>
    match t.tasks[i]? with
    | some (.holding call stream) => [.reused call.key stream]
    | _ => []
  | _ => []

def givenTo (key : PoolKey) (events : List Exchange) : List TcpStream := events.filterMap (Exchange.givenTo key)

def reusedFrom (key : PoolKey) (events : List Exchange) : List TcpStream :=
  events.filterMap (Exchange.reusedFrom key)

/-- The connections of the key's idle queue, the one that was given back first in front. -/
def waitingStreams (s : System) (key : PoolKey) : List TcpStream :=
  (s.manager.pool key).idle.map PooledConnection.stream

def pushed (s : System) (key : PoolKey) : Action → List PooledConnection
  | .reset i (.ok ()) =>
    match s.tasks[i]? with
    | some (.resetting call stream) => if key = call.key then [⟨stream, s.now, s.now⟩] else []
    | _ => []
  | _ => []

theorem notifyOne_idle (s : System) (woken key : PoolKey) :
    ((s.notifyOne woken).manager.pool key).idle = (s.manager.pool key).idle :=
  (alike_notifyOne s woken).idle key

theorem pushIdle_idle (m : PoolManager) (key other : PoolKey) (stream : TcpStream) (now : Instant) :
    ((m.pushIdle key stream now).pool other).idle =
      (m.pool other).idle ++ if other = key then [⟨stream, now, now⟩] else [] := by
  rw [pushIdle, pool_setPool_apply]
  split
  · rename_i same
    rw [same]
  · rw [List.append_nil]

theorem leaving_idle (s : System) (i : Nat) (call : AcquireCall) (key : PoolKey) :
    ((s.leaving i call).manager.pool key).idle = (s.manager.pool key).idle := by
  have failed := alike_bail s.manager call.key .timeout
  have left : Alike s.manager (s.leaving i call).manager := failed.trans (alike_setPool _ call.key _ rfl rfl)
  exact left.idle key

theorem timeOut_idle (s : System) (i : Nat) (call : AcquireCall) (notified : Bool) (key : PoolKey) :
    ((s.timeOut i call notified).manager.pool key).idle = (s.manager.pool key).idle := by
  rw [timeOut_eq]
  split
  · rw [notifyOne_idle, leaving_idle]
  · exact leaving_idle s i call key

-- A poll that reuses a connection leaves what stands behind it, and one that reuses none leaves the queue
-- of its key empty.
theorem poll_queue {cfg : PoolConfig} {s t : System} {i : Nat} {call : AcquireCall} (asks : s.asking i = some call)
    (stepped : step cfg s (.poll i) = some t) :
    (∀ key, key ≠ call.key → (t.manager.pool key).idle = (s.manager.pool key).idle) ∧
      match (s.manager.pool call.key).idle.dropWhile (expired cfg s.now) with
      | conn :: rest => (t.manager.pool call.key).idle = rest ∧ t.tasks[i]? = some (.holding call conn.stream)
      | [] => (t.manager.pool call.key).idle = [] ∧
          ∀ other stream, t.tasks[i]? ≠ some (.holding other stream) := by
  obtain ⟨old, other, before, new, here, asked, -, alike, polled, -, tasks⟩ := poll_polled stepped
  obtain rfl := Option.some.inj (asks.symm.trans asked)
  have placed : t.tasks[i]? = some new := by
    rw [tasks, List.getElem?_set_self (List.getElem?_eq_some_iff.mp here).1]
  have same := alike.idle
  generalize t.manager = after at polled
  cases polled with
  | reuse conn rest n fresh dropped =>
    rw [same] at fresh
    simp only [fresh]
    refine ⟨fun key differs => ?_, ?_, placed⟩
    · rw [takeFirst_idle, if_neg differs, evict_idle, if_neg differs, same]
    · rw [takeFirst_idle, if_pos rfl, evict_idle, if_pos rfl, dropped, List.tail_cons]
  | start _ empty room ends =>
    rw [same] at empty
    simp only [empty]
    refine ⟨fun key differs => ?_, ?_, by simp [placed]⟩
    · rw [ends.idle, evict_idle, if_neg differs, same]
    · rw [ends.idle, evict_idle, if_pos rfl, List.drop_length]
  | wait _ _ empty full ends away =>
    rw [same] at empty
    simp only [empty]
    refine ⟨fun key differs => ?_, ?_, fun other stream holds => ?_⟩
    · rw [ends.idle, evict_idle, if_neg differs, same]
    · rw [ends.idle, evict_idle, if_pos rfl, List.drop_length]
    · obtain rfl := Option.some.inj (placed.symm.trans holds)
      exact away

theorem pushed_streams (s : System) (a : Action) (t : System) (key : PoolKey) :
    (s.pushed key a).map PooledConnection.stream = givenTo key (s.exchanges a t) := by
  cases a with
  | reset i result =>
    cases result with
    | ok =>
      simp only [pushed, exchanges]
      split
      · split
        · rename_i same
          simp [givenTo, Exchange.givenTo, same]
        · rename_i differs
          simp [givenTo, Exchange.givenTo, Ne.symm differs]
      · rfl
    | error cause => rfl
  | poll i =>
    simp only [pushed, exchanges]
    split <;> rfl
  | _ => rfl

theorem idle_step {cfg : PoolConfig} {s t : System} {a : Action} (stepped : step cfg s a = some t) (key : PoolKey) :
    ∃ n, (t.manager.pool key).idle = (s.manager.pool key).idle.drop n ++ s.pushed key a ∧
      (reusedFrom key (s.exchanges a t)).Sublist (((s.manager.pool key).idle.take n).map PooledConnection.stream) := by
  by_cases polls : ∃ i, a = .poll i
  · rcases polls with ⟨i, rfl⟩
    obtain ⟨_, call, -, -, -, asks, -⟩ := poll_polled stepped
    obtain ⟨others, own⟩ := poll_queue asks stepped
    have kept := drop_takeWhile_length (expired cfg s.now) (s.manager.pool call.key).idle
    cases fresh : (s.manager.pool call.key).idle.dropWhile (expired cfg s.now) with
    | nil =>
      simp only [fresh] at own
      have none : s.exchanges (.poll i) t = [] := by
        rw [exchanges]
        split
        · rename_i other stream holds
          exact absurd holds (own.2 other stream)
        · rfl
      rw [none]
      by_cases same : key = call.key
      · subst same
        exact ⟨_, by rw [own.1, List.drop_length]; rfl, List.nil_sublist _⟩
      · exact ⟨0, by simp [others key same, pushed], List.nil_sublist _⟩
    | cons conn rest =>
      simp only [fresh] at own
      have event : s.exchanges (.poll i) t = [.reused call.key conn.stream] := by
        simp only [exchanges, own.2]
      rw [event]
      by_cases same : key = call.key
      · subst same
        rw [fresh] at kept
        refine ⟨((s.manager.pool call.key).idle.takeWhile (expired cfg s.now)).length + 1, ?_, ?_⟩
        · rw [own.1, ← List.tail_drop, kept, List.tail_cons]
          exact (List.append_nil rest).symm
        · have front : (s.manager.pool call.key).idle[((s.manager.pool call.key).idle.takeWhile
              (expired cfg s.now)).length]? = some conn := by
            rw [← List.head?_drop, kept, List.head?_cons]
          simp [reusedFrom, Exchange.reusedFrom, List.take_add_one, front]
      · refine ⟨0, by simp [others key same, pushed], ?_⟩
        simp [reusedFrom, Exchange.reusedFrom, Ne.symm same]
  · refine ⟨0, ?_, ?_⟩
    · rw [List.drop_zero]
      cases step_steps stepped with
      | begin i | wake i => exact absurd ⟨i, rfl⟩ polls
      | tick elapsed | call call => simp [pushed]
      | expire i call deadline notified here late => simp [timeOut_idle, pushed]
      | connected i call here =>
        simp only [connected_pool, pushed, List.append_nil]
        split <;> simp_all
      | panicked i call here => simp [pushed]
      | refused i call error here =>
        have same := alike_setPool s.manager call.key { s.manager.pool call.key with
          totalErrors := (s.manager.pool call.key).totalErrors + 1 } rfl rfl
        exact (same.idle key).trans (List.append_nil _).symm
      | release i call stream pool here present =>
        simp only [pushed, List.append_nil, pool_setPool_apply]
        split
        · rename_i same
          rw [same, pool_of_lookup present]
        · rfl
      | lost i call stream here gone => simp [pushed, PoolManager.forget, PoolManager.pool]
      | push i call stream here => simp [notifyOne_idle, pushIdle_idle, pushed, here]
      | drop i call stream cause here => simp [pushed, PoolManager.forget, PoolManager.pool]
    · have none : reusedFrom key (s.exchanges a t) = [] := by
        cases a with
        | poll i => exact absurd ⟨i, rfl⟩ polls
        | reset i result =>
          cases result with
          | ok =>
            simp only [exchanges]
            split <;> rfl
          | error cause => rfl
        | _ => rfl
      rw [none]
      exact List.nil_sublist _

/-- What has been given back to the key's pool is what has left the queue, part of it to be reused, and
behind it what is still in the queue. -/
def InTurn (s : System) (events : List Exchange) : Prop :=
  ∀ key, ∃ gone, givenTo key events = gone ++ s.waitingStreams key ∧ (reusedFrom key events).Sublist gone

theorem step_inTurn {cfg : PoolConfig} (s : System) (a : Action) (t : System) (events : List Exchange)
    (before : s.InTurn events) (stepped : step cfg s a = some t) : t.InTurn (events ++ s.exchanges a t) := by
  intro key
  obtain ⟨gone, given, reused⟩ := before key
  obtain ⟨n, idle, taken⟩ := idle_step stepped key
  refine ⟨gone ++ ((s.manager.pool key).idle.take n).map PooledConnection.stream, ?_, ?_⟩
  · have split : s.waitingStreams key = ((s.manager.pool key).idle.take n).map PooledConnection.stream ++
        ((s.manager.pool key).idle.drop n).map PooledConnection.stream := by
      rw [← List.map_append, List.take_append_drop, waitingStreams]
    have added := pushed_streams s a t key
    simp only [givenTo] at given added
    rw [split] at given
    simp only [givenTo, List.filterMap_append, given, ← added, waitingStreams, idle, List.map_append,
      List.append_assoc]
  · rw [reusedFrom, List.filterMap_append]
    exact reused.append taken

theorem reused_in_turn (cfg : PoolConfig) (actions : List Action) :
    Always (recorded (step cfg) exchanges)
      (fun r => ∀ key, (reusedFrom key r.events).Sublist (givenTo key r.events)) ⟨{}, []⟩ actions := by
  have kept : Always (recorded (step cfg) exchanges) (fun r => r.state.InTurn r.events) ⟨{}, []⟩ actions :=
    always_history_self step_inTurn (fun key => ⟨[], rfl, List.Sublist.refl _⟩) actions
  refine kept.mono fun r inTurn key => ?_
  obtain ⟨gone, given, reused⟩ := inTurn key
  rw [given]
  exact reused.trans (List.sublist_append_left _ _)

theorem dropWhile_eq_filter {A : Type} {R : A → A → Prop} {p : A → Bool} {list : List A} (sorted : list.Pairwise R)
    (closed : ∀ a b, R a b → p b = true → p a = true) : list.dropWhile p = list.filter fun a => !p a := by
  induction list with
  | nil => rfl
  | cons a rest ih =>
    obtain ⟨before, sorted⟩ := List.pairwise_cons.mp sorted
    by_cases here : p a
    · simp [here, ih sorted]
    · have none (b : A) (inside : b ∈ rest) : p b = false := by
        by_contra there
        exact here (closed a b (before b inside) (by simpa using there))
      have kept : (rest.filter fun b => !p b) = rest := by
        rw [List.filter_eq_self]
        intro b inside
        rw [none b inside, Bool.not_false]
      simp [here, kept]

structure Aged (s : System) : Prop where
  sorted : ∀ key, (s.manager.pool key).idle.Pairwise
    fun a b => a.createdAt ≤ b.createdAt ∧ a.lastUsed ≤ b.lastUsed
  past : ∀ key, ∀ conn ∈ (s.manager.pool key).idle, conn.createdAt ≤ s.now ∧ conn.lastUsed ≤ s.now

theorem pushed_cases {s : System} {key : PoolKey} {a : Action} {conn : PooledConnection}
    (member : conn ∈ s.pushed key a) :
    ∃ i call stream, a = .reset i (.ok ()) ∧ s.tasks[i]? = some (.resetting call stream) ∧ key = call.key ∧
      conn = ⟨stream, s.now, s.now⟩ := by
  simp only [pushed] at member
  split at member
  · rename_i i
    split at member
    · rename_i call stream here
      split at member
      · rename_i same
        exact ⟨i, call, stream, rfl, here, same, List.mem_singleton.mp member⟩
      · simp at member
    · simp at member
  · simp at member

theorem mem_pushed {s : System} {key : PoolKey} {a : Action} {conn : PooledConnection}
    (member : conn ∈ s.pushed key a) : conn.createdAt = s.now ∧ conn.lastUsed = s.now := by
  obtain ⟨i, call, stream, -, -, -, rfl⟩ := pushed_cases member
  exact ⟨rfl, rfl⟩

theorem pushed_sorted (R : PooledConnection → PooledConnection → Prop) (s : System) (key : PoolKey) (a : Action) :
    (s.pushed key a).Pairwise R := by
  simp only [pushed]
  split
  · split
    · split
      · exact List.pairwise_singleton R _
      · exact .nil
    · exact .nil
  · exact .nil

theorem now_of_step {cfg : PoolConfig} {s t : System} {a : Action} (stepped : step cfg s a = some t)
    (ticks : ∀ elapsed, a ≠ .tick elapsed) : t.now = s.now := by
  cases step_steps stepped with
  | tick elapsed => exact absurd rfl (ticks elapsed)
  | push i call stream here => exact notifyOne_now _ _
  | expire i call deadline notified here late =>
    rw [timeOut_eq]
    split
    · exact notifyOne_now _ _
    · rfl
  | _ => rfl

theorem step_now {cfg : PoolConfig} {s t : System} {a : Action} (stepped : step cfg s a = some t) : s.now ≤ t.now := by
  cases a with
  | tick elapsed => exact Option.some.inj stepped ▸ Nat.le_add_right _ _
  | _ => exact (now_of_step stepped (by simp)).ge

theorem step_aged {cfg : PoolConfig} (s : System) (a : Action) (t : System) (aged : Aged s)
    (stepped : step cfg s a = some t) : Aged t := by
  have later := step_now stepped
  constructor
  · intro key
    obtain ⟨n, idle, -⟩ := idle_step stepped key
    rw [idle, List.pairwise_append]
    refine ⟨(aged.sorted key).sublist (List.drop_sublist n _), pushed_sorted _ s key a, ?_⟩
    intro old waits new comes
    obtain ⟨created, used⟩ := mem_pushed comes
    rw [created, used]
    exact aged.past key old (List.mem_of_mem_drop waits)
  · intro key conn member
    obtain ⟨n, idle, -⟩ := idle_step stepped key
    rw [idle] at member
    rcases List.mem_append.mp member with old | new
    · obtain ⟨created, used⟩ := aged.past key conn (List.mem_of_mem_drop old)
      exact ⟨created.trans later, used.trans later⟩
    · obtain ⟨created, used⟩ := mem_pushed new
      exact ⟨created ▸ later, used ▸ later⟩

theorem aged_initial : Aged {} := ⟨fun _ => .nil, nofun⟩

theorem reachable_aged {cfg : PoolConfig} {s : System} (reached : Reachable cfg s) : Aged s := by
  obtain ⟨actions, ran⟩ := reached
  exact invariant step_aged aged_initial ran

def fit (cfg : PoolConfig) (s : System) (key : PoolKey) : List PooledConnection :=
  (s.manager.pool key).idle.filter fun conn => !expired cfg s.now conn

theorem expired_before {cfg : PoolConfig} {now : Instant} {a b : PooledConnection}
    (order : a.createdAt ≤ b.createdAt ∧ a.lastUsed ≤ b.lastUsed) (old : expired cfg now b = true) :
    expired cfg now a = true := by
  simp only [expired, Bool.or_eq_true, decide_eq_true_eq] at old ⊢
  have created := Nat.sub_le_sub_left order.1 now
  have used := Nat.sub_le_sub_left order.2 now
  exact old.imp (fun long => long.trans_le created) (fun long => long.trans_le used)

theorem Aged.fit_eq {s : System} (aged : Aged s) (cfg : PoolConfig) (key : PoolKey) :
    s.fit cfg key = (s.manager.pool key).idle.dropWhile (expired cfg s.now) :=
  (dropWhile_eq_filter (aged.sorted key) fun _ _ => expired_before).symm

theorem poll_total {cfg : PoolConfig} {s t : System} {i : Nat} {call : AcquireCall} (balanced : Balanced s)
    (asks : s.asking i = some call) (stepped : step cfg s (.poll i) = some t) :
    t.manager.totalServerConnections.value +
        ((s.manager.pool call.key).idle.takeWhile (expired cfg s.now)).length =
      s.manager.totalServerConnections.value := by
  obtain ⟨_, other, before, _, -, asked, -, alike, polled, -, -⟩ := poll_polled stepped
  obtain rfl := Option.some.inj (asks.symm.trans asked)
  have within := balanced.idle_le call.key
  have counter : before.totalServerConnections = ⟨s.manager.totalServerConnections.value, false⟩ := by
    rw [alike.total, balanced.total]
  have whole := congrArg List.length (List.takeWhile_append_dropWhile
    (p := expired cfg s.now) (l := (s.manager.pool call.key).idle))
  rw [List.length_append] at whole
  have evicted (n : Nat) (few : n ≤ s.manager.totalServerConnections.value) := evict_total call.key n counter few
  generalize t.manager = after at polled ⊢
  cases polled with
  | reuse conn rest n fresh dropped =>
    have length := congrArg List.length dropped
    rw [alike.idle] at fresh length
    rw [fresh] at whole
    rw [List.length_drop] at length
    rw [takeFirst_total, evicted n (by simp only [List.length_cons] at *; omega)]
    simp only [List.length_cons] at *
    omega
  | start _ empty room ends =>
    rw [alike.idle] at empty ends
    rw [empty] at whole
    simp only [List.length_nil] at whole
    simp only [ends.total, evicted _ within]
    omega
  | wait _ _ empty full ends away =>
    rw [alike.idle] at empty ends
    rw [empty] at whole
    simp only [List.length_nil] at whole
    simp only [ends.total, evicted _ within]
    omega

theorem Aged.head_least {s : System} (aged : Aged s) {cfg : PoolConfig} {key : PoolKey} {conn : PooledConnection}
    (front : (s.fit cfg key).head? = some conn) (other : PooledConnection) (member : other ∈ s.fit cfg key) :
    conn.lastUsed ≤ other.lastUsed := by
  have sorted := (aged.sorted key).sublist (List.filter_sublist (p := fun conn => !expired cfg s.now conn))
  obtain ⟨rest, all⟩ := List.head?_eq_some_iff.mp front
  rw [fit] at all member
  rw [all, List.pairwise_cons] at sorted
  rw [all] at member
  rcases List.mem_cons.mp member with same | behind
  · rw [same]
  · exact (sorted.1 other behind).2

theorem poll_takes_longest_idle {cfg : PoolConfig} {s t : System} {i : Nat} {call : AcquireCall}
    (reached : Reachable cfg s) (asks : s.asking i = some call) (stepped : step cfg s (.poll i) = some t) :
    (t.manager.pool call.key).idle = (s.fit cfg call.key).tail ∧
      t.manager.totalServerConnections.value + (s.manager.pool call.key).idle.countP (expired cfg s.now) =
        s.manager.totalServerConnections.value ∧
      (∀ stream, t.tasks[i]? = some (.holding call stream) ↔
        (s.fit cfg call.key).head?.map PooledConnection.stream = some stream) ∧
      ∀ conn ∈ (s.fit cfg call.key).head?, ∀ other ∈ s.fit cfg call.key, conn.lastUsed ≤ other.lastUsed := by
  have aged := reachable_aged reached
  have total := poll_total (reachable_balanced reached) asks stepped
  obtain ⟨-, own⟩ := poll_queue asks stepped
  have evicted : (s.manager.pool call.key).idle.countP (expired cfg s.now) =
      ((s.manager.pool call.key).idle.takeWhile (expired cfg s.now)).length := by
    have parts := List.length_eq_countP_add_countP (expired cfg s.now) (l := (s.manager.pool call.key).idle)
    have split := congrArg List.length (List.takeWhile_append_dropWhile
      (p := expired cfg s.now) (l := (s.manager.pool call.key).idle))
    have fit := congrArg List.length (aged.fit_eq cfg call.key)
    rw [System.fit, ← List.countP_eq_length_filter] at fit
    simp only [List.length_append, Bool.not_eq_true, Bool.decide_eq_false] at split parts fit
    omega
  rw [evicted]
  refine ⟨?_, total, fun stream => ?_, fun conn front => aged.head_least front⟩
  · rw [aged.fit_eq]
    cases fresh : (s.manager.pool call.key).idle.dropWhile (expired cfg s.now) with
    | nil =>
      simp only [fresh] at own
      exact own.1
    | cons conn rest =>
      simp only [fresh] at own
      exact own.1
  · rw [aged.fit_eq]
    cases fresh : (s.manager.pool call.key).idle.dropWhile (expired cfg s.now) with
    | nil =>
      simp only [fresh] at own
      simp [own.2]
    | cons conn rest =>
      simp only [fresh] at own
      simp [own.2]

-- Two connections of one database are given back, a second apart, and the older one has expired.
def givenBackApart : List Action :=
  [.call (tenant "testdb"), .call (tenant "testdb"), .poll 0, .poll 1, succeeds 0, succeeds 1, .release 0,
    .reset 0 (.ok ()), .tick 1000000000, .release 1, .reset 1 (.ok ()), .tick 299500000000,
    .call (tenant "testdb")]

theorem poll_takes_longest_idle_givenBackApart : ∃ s t,
    run (step {}) {} givenBackApart = some s ∧ step {} s (.poll 2) = some t ∧
      (t.manager.pool (tenant "testdb").key).idle = (s.fit {} (tenant "testdb").key).tail := by
  obtain ⟨s, ran, asks, enabled⟩ : ∃ s, run (step {}) {} givenBackApart = some s ∧
      s.asking 2 = some (tenant "testdb") ∧ (step {} s (.poll 2)).isSome = true := exists_run (by decide)
  obtain ⟨t, stepped⟩ := Option.isSome_iff_exists.mp enabled
  exact ⟨s, t, ran, stepped, (poll_takes_longest_idle ⟨_, ran⟩ asks stepped).1⟩

end System

end PgMux
