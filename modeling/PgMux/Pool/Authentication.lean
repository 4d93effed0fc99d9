import PgMux.Pool.Callers

set_option autoImplicit false

namespace PgMux

namespace System

/-- Every caller that got a connection got one that the backend accepted its own password for. -/
def Authenticated (s : System) : Prop :=
  ∀ (i : Nat) (call : AcquireCall) (stream : TcpStream), s.tasks[i]? = some (.holding call stream) →
    stream ∈ s.opened ∧ stream.key = call.key ∧ stream.password = call.password

def OnePassword (calls : List AcquireCall) : Prop :=
  ∀ call ∈ calls, ∀ other ∈ calls, other.key = call.key → other.password = call.password

theorem authenticated_iff_onePassword (cfg : PoolConfig) (calls : List AcquireCall) :
    (∀ actions, callsOf actions = calls → Transition.Always (step cfg) Authenticated {} actions) ↔
      OnePassword calls ∨ cfg.maxTotalConnections = 0 ∨ cfg.maxConnectionsPerPool = 0 := by
  have agree : OnePassword calls ↔ Agree (fun call stream => stream.password = call.password) calls :=
    ⟨fun one call member other inside same _ => one call member other inside same,
      fun agree call member other inside same => agree call member other inside same 0⟩
  rw [agree]
  exact matched_iff (fun _ _ => rfl) (fun _ _ _ => id) cfg calls

-- The second caller knows the database and the user, but not the password.
def passwordIgnored : List Action :=
  [.call (tenant "testdb"), .poll 0, .connected 0 (.ok ()), .release 0, .reset 0 (.ok ()),
    .call { tenant "testdb" with password := "guess" }, .poll 1]

theorem not_authenticated_passwordIgnored :
    ¬ Transition.Always (step {}) Authenticated {} passwordIgnored := by
  intro always
  obtain ⟨s, ran, held⟩ : ∃ s, Transition.run (step {}) {} passwordIgnored = some s ∧
      s.tasks[1]? = some (.holding { tenant "testdb" with password := "guess" }
        ⟨0, (tenant "testdb").key, "secret", []⟩) := Transition.exists_run (by decide)
  exact absurd (always.last ran 1 _ _ held).2.2 (by decide)

end System

end PgMux
