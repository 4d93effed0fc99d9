import PgMux.Pool.Callers

set_option autoImplicit false

namespace PgMux

/-- The startup message that opened the stream carries exactly the parameters of the call, in any
order. `DISCARD ALL` resets the settings of the connection to these. -/
def TcpStream.SettingsOf (stream : TcpStream) (call : AcquireCall) : Prop :=
  ∀ pair, pair ∈ stream.extraParams ↔ pair ∈ call.extraParams

namespace System

def OwnSettings (s : System) : Prop :=
  ∀ (i : Nat) (call : AcquireCall) (stream : TcpStream), s.tasks[i]? = some (.holding call stream) →
    stream ∈ s.opened ∧ stream.key = call.key ∧ stream.SettingsOf call

def OneSettings (calls : List AcquireCall) : Prop :=
  ∀ call ∈ calls, ∀ other ∈ calls, other.key = call.key →
    ∀ pair, pair ∈ other.extraParams ↔ pair ∈ call.extraParams

theorem ownSettings_iff_oneSettings (cfg : PoolConfig) (calls : List AcquireCall) :
    (∀ actions, callsOf actions = calls → Transition.Always (step cfg) OwnSettings {} actions) ↔
      OneSettings calls ∨ cfg.maxTotalConnections = 0 ∨ cfg.maxConnectionsPerPool = 0 := by
  have agree : OneSettings calls ↔ Agree (fun call stream => stream.SettingsOf call) calls :=
    ⟨fun one call member other inside same _ => one call member other inside same,
      fun agree call member other inside same => agree call member other inside same 0⟩
  rw [agree]
  exact matched_iff (fun _ _ _ => Iff.rfl) (fun _ _ _ => id) cfg calls

-- The first caller asks for a time zone of its own, the second one for none.
def settingsKept : List Action :=
  [.call { tenant "testdb" with extraParams := [("TimeZone", "Asia/Tokyo")] }, .poll 0,
    .connected 0 (.ok ()), .release 0, .reset 0 (.ok ()), .call (tenant "testdb"), .poll 1]

theorem not_ownSettings_settingsKept :
    ¬ Transition.Always (step {}) OwnSettings {} settingsKept := by
  intro always
  obtain ⟨s, ran, held⟩ : ∃ s, Transition.run (step {}) {} settingsKept = some s ∧
      s.tasks[1]? = some (.holding (tenant "testdb")
        ⟨0, (tenant "testdb").key, "secret", [("TimeZone", "Asia/Tokyo")]⟩) :=
    Transition.exists_run (by decide)
  have settings := (always.last ran 1 _ _ held).2.2
  exact absurd ((settings ("TimeZone", "Asia/Tokyo")).mp (by simp)) (by simp [tenant])

end System

end PgMux
