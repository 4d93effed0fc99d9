import PgMux.Client.Parameters
import PgMux.Backend.Connect

set_option autoImplicit false

namespace PgMux

def relayUser (p : Params) : String := (p.get "user").getD ""

def relayDatabase (p : Params) : String := (p.get "database").getD (relayUser p)

def relayExtra (p : Params) : Params :=
  p.filter fun param => param.1 ∉ ["user", "database", "max_db_size", "options"]

theorem startupInfoOf_relay {p : Params} {startupInfo : ClientStartupInfo}
    (info : startupInfoOf p = .ok startupInfo) :
    startupInfo.user = relayUser p ∧ startupInfo.database = relayDatabase p ∧
      startupInfo.extraParams = relayExtra p := by
  cases limit : maxDbSizeOf p with
  | error cause =>
    rw [startupInfoOf, limit] at info
    cases info
  | ok maxDbSize =>
    rw [startupInfoOf, limit] at info
    obtain rfl := Except.ok.inj info
    exact ⟨rfl, rfl, rfl⟩

-- The pairs in the order in which the message has them.
def relayed (p extra : Params) : Params :=
  ("user", relayUser p) :: ("database", relayDatabase p) :: extra

theorem buildStartupMessage_eq (user database : String) (extra : Params) :
    buildStartupMessage user database extra = PgMessage.encode
      ⟨0, putI32 196608 ++ ((("user", user) :: ("database", database) :: extra).flatMap pairBytes ++ [0])⟩ := by
  have payload : putI32 196608 ++ asBytes "user" ++ [0] ++ asBytes user ++ [0] ++ asBytes "database" ++ [0] ++
        asBytes database ++ [0] ++ extra.flatMap pairBytes ++ [0] =
      putI32 196608 ++ ((("user", user) :: ("database", database) :: extra).flatMap pairBytes ++ [0]) := by
    simp [pairBytes]
  rw [PgMessage.encode_startup rfl, ← payload]
  rfl

theorem Params.Valid.get {p : Params} (valid : p.Valid) {key value : String} (found : p.get key = some value) :
    0 ∉ asBytes value := by
  obtain ⟨front, back, rfl, -⟩ := List.lookup_eq_some_iff.mp found
  exact (valid.sendable (key, value) (by simp)).value

theorem relayed_valid {p extra : Params} (valid : p.Valid) (order : extra.Perm (relayExtra p)) :
    (relayed p extra).Valid := by
  have user : 0 ∉ asBytes (relayUser p) := by
    cases found : p.get "user" with
    | none => simp [relayUser, found, asBytes]
    | some value => simpa [relayUser, found] using valid.get found
  have database : 0 ∉ asBytes (relayDatabase p) := by
    cases found : p.get "database" with
    | none => simpa [relayDatabase, found] using user
    | some value => simpa [relayDatabase, found] using valid.get found
  have kept : ∀ param ∈ extra, param ∈ p ∧ param.1 ∉ ["user", "database", "max_db_size", "options"] := by
    intro param member
    simpa [relayExtra] using order.mem_iff.mp member
  constructor
  · intro param member
    simp only [relayed, List.mem_cons] at member
    obtain rfl | rfl | member := member
    · exact ⟨show "user" ≠ "" by decide, show 0 ∉ asBytes "user" by decide, user⟩
    · exact ⟨show "database" ≠ "" by decide, show 0 ∉ asBytes "database" by decide, database⟩
    · exact valid.sendable param (kept param member).1
  · have extras : (extra.map Prod.fst).Nodup := by
      rw [(order.map Prod.fst).nodup_iff]
      exact valid.distinct.sublist (List.filter_sublist.map Prod.fst)
    simp only [relayed, List.map_cons, List.nodup_cons, List.mem_cons, List.mem_map, not_or, not_exists, not_and]
    refine ⟨⟨by decide, fun param member same => ?_⟩, fun param member same => ?_, extras⟩
    · exact (kept param member).2 (by simp [same])
    · exact (kept param member).2 (by simp [same])

theorem parseStartupParams_pairs {pairs : Params} (valid : pairs.Valid) :
    parseStartupParams (putI32 196608 ++ (pairs.flatMap pairBytes ++ [0])) = .ok (196608, pairs) := by
  have shorter := length_le_flatMap_pairBytes pairs
  have version : getI32 (putI32 196608 ++ (pairs.flatMap pairBytes ++ [0])) = 196608 :=
    getI32_putI32 196608 _ (by omega)
  rw [parseStartupParams, if_neg (by simp), List.drop_left' (putI32_length _), version]
  obtain ⟨more, enough⟩ : ∃ more, (putI32 196608 ++ (pairs.flatMap pairBytes ++ [0])).length =
      more + 1 + pairs.length := by
    refine ⟨(pairs.flatMap pairBytes).length + 4 - pairs.length, ?_⟩
    simp only [List.length_append, putI32_length, List.length_singleton]
    omega
  have inserted := Params.foldl_insert (show (([] ++ pairs).map Prod.fst).Nodup from valid.distinct)
  rw [enough, startupPairs_pairs valid.sendable, inserted]
  rfl

theorem startup_parameters_survive {payload : Bytes} {p extra : Params}
    (accepted : parseStartupParams payload = .ok (196608, p)) (order : extra.Perm (relayExtra p))
    (small : (buildStartupMessage (relayUser p) (relayDatabase p) extra).length ≤ maxMessageSize) :
    ∃ sent, tryReadMessage (buildStartupMessage (relayUser p) (relayDatabase p) extra) true =
        .ok (some (⟨0, sent⟩, [])) ∧
      parseStartupParams sent =
        .ok (196608, ("user", relayUser p) :: ("database", relayDatabase p) :: extra) ∧
      ((("user", relayUser p) :: ("database", relayDatabase p) :: extra).map Prod.fst).Nodup := by
  have valid := relayed_valid (parseStartupParams_valid accepted) order
  refine ⟨_, ?_, parseStartupParams_pairs valid, valid.distinct⟩
  rw [buildStartupMessage_eq] at small ⊢
  rw [PgMessage.encode_startup rfl, List.length_append, putI32_length, Nat.add_comm] at small
  have read := tryReadMessage_startup rfl small []
  rwa [List.append_nil] at read

-- `user`, an empty `application_name`, `options`, and `user` once more, without the terminator.
def startupOfAlice : Bytes :=
  putI32 196608 ++ pairBytes ("user", "bob") ++ pairBytes ("application_name", "") ++
    pairBytes ("options", "-c") ++ pairBytes ("user", "alice")

theorem startup_parameters_survive_alice :
    ∃ sent, tryReadMessage (buildStartupMessage "alice" "alice" [("application_name", "")]) true =
        .ok (some (⟨0, sent⟩, [])) ∧
      parseStartupParams sent =
        .ok (196608, [("user", "alice"), ("database", "alice"), ("application_name", "")]) ∧
      ["user", "database", "application_name"].Nodup :=
  @startup_parameters_survive startupOfAlice
    [("user", "alice"), ("application_name", ""), ("options", "-c")] [("application_name", "")]
    (by decide +kernel) (by decide +kernel) (by decide +kernel)

end PgMux
