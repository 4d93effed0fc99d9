import PgMux.Client.Startup
import PgMux.Codec
import PgMux.Fields

set_option autoImplicit false

namespace PgMux

def checkedPairs (payload : Bytes) : Nat → Nat → Params → Except Fault (Except StartupError Params)
  | 0, _, _ => .error .stuck
  | fuel + 1, pos, params =>
    if pos < payload.length then do
      if (← index payload pos) = 0 then return .ok params
      else
        let keyStart := pos
        let pos ← scanZero payload (payload.length + 1) pos
        let key ← slice payload keyStart pos
        match fromUtf8 key with
        | none => return .error (.utf8 key)
        | some name =>
          let pos := pos + 1
          let valStart := pos
          let pos ← scanZero payload (payload.length + 1) pos
          let val ← slice payload valStart pos
          match fromUtf8 val with
          | none => return .error (.utf8 val)
          | some value => checkedPairs payload fuel (pos + 1) (params.insert name value)
    else return .ok params

def checkedParseStartupParams (payload : Bytes) : Except Fault (Except StartupError (Int × Params)) := do
  if payload.length < 4 then return .error .tooShort
  else
    let a ← index payload 0
    let b ← index payload 1
    let c ← index payload 2
    let d ← index payload 3
    let params ← checkedPairs payload (payload.length + 1) 4 []
    return params.map fun params => (getI32 [a, b, c, d], params)

-- The one panic of the parser is a slice out of range.
def withPanic {α : Type} : Except StartupError α → Except Fault (Except StartupError α)
  | .error (.panic _) => .error .slice
  | result => .ok result

theorem checkedPairs_eq {payload : Bytes} {fuel bound pos : Nat} (enough : payload.length - pos < fuel)
    (bounded : payload.length - pos ≤ bound) (params : Params) :
    checkedPairs payload fuel pos params = withPanic (startupPairs bound (payload.drop pos) params) := by
  induction fuel generalizing bound pos params with
  | zero => omega
  | succ fuel ih =>
    obtain ⟨beyond, nothing⟩ | ⟨first, rest, inside, here, behind⟩ := @drop_pos payload pos
    · rw [checkedPairs, if_neg (by omega), nothing]
      cases bound <;> rfl
    · obtain ⟨bound, rfl⟩ : ∃ more, bound = more + 1 := ⟨bound - 1, by omega⟩
      rw [checkedPairs, if_pos inside, index_ok here, here, startupPairs]
      simp only [bind, Except.bind]
      by_cases zero : first = 0
      · rw [if_pos zero, if_pos zero]
        rfl
      · rw [if_neg zero, if_neg zero, scanZero_ok (by omega), ← here]
        simp only
        rw [slice_field (by omega)]
        simp only
        cases fromUtf8 ((payload.drop pos).takeWhile (· ≠ 0)) with
        | none => rfl
        | some name =>
          simp only
          rw [scanZero_ok (by omega)]
          simp only
          have keyEnd := drop_scanned payload pos
          obtain ⟨cut, whole⟩ | ⟨behind, tail, whole⟩ := Delimited.dropWhile_cases 0 (payload.drop pos)
          · have size := congrArg List.length whole
            rw [List.length_drop] at size
            rw [cut, slice, if_neg (by omega)]
            rfl
          · rw [tail] at keyEnd
            have valStart : payload.drop (pos + ((payload.drop pos).takeWhile (· ≠ 0)).length + 1) = behind := by
              rw [← List.drop_drop, keyEnd, List.drop_one, List.tail_cons]
            have within := congrArg List.length keyEnd
            rw [List.length_drop, List.length_cons] at within
            have valEnd := drop_scanned payload (pos + ((payload.drop pos).takeWhile (· ≠ 0)).length + 1)
            rw [slice_field (by omega), tail, valStart]
            simp only
            cases fromUtf8 (behind.takeWhile (· ≠ 0)) with
            | none => rfl
            | some value =>
              simp only
              rw [valStart] at valEnd
              rw [ih (by omega) (show _ ≤ bound by omega), ← List.drop_drop, valEnd]

theorem checkedParseStartupParams_eq (payload : Bytes) :
    checkedParseStartupParams payload = withPanic (parseStartupParams payload) := by
  rw [checkedParseStartupParams, parseStartupParams]
  by_cases short : payload.length < 4
  · rw [if_pos short, if_pos short]
    rfl
  · rw [if_neg short, if_neg short, @checkedPairs_eq payload (payload.length + 1) payload.length 4 (by omega) (by omega)]
    match payload, short with
    | a :: b :: c :: d :: rest, _ =>
      cases startupPairs _ _ [] with
      | error error => cases error <;> rfl
      | ok params => rfl
    | [], short | [_], short | [_, _], short | [_, _, _], short => simp at short

structure Sendable (param : String × String) : Prop where
  named : param.1 ≠ ""
  key : 0 ∉ asBytes param.1
  value : 0 ∉ asBytes param.2

def pairBytes (param : String × String) : Bytes := asBytes param.1 ++ [0] ++ asBytes param.2 ++ [0]

theorem asBytes_eq_nil {text : String} : asBytes text = [] ↔ text = "" := by
  constructor
  · intro nothing
    have decoded := fromUtf8_asBytes text
    rw [nothing] at decoded
    exact (Option.some.inj decoded).symm
  · rintro rfl
    rfl

theorem asBytes_cons {text : String} (named : text ≠ "") (clean : 0 ∉ asBytes text) :
    ∃ first rest, asBytes text = first :: rest ∧ first ≠ 0 := by
  cases bytes : asBytes text with
  | nil => exact absurd (asBytes_eq_nil.mp bytes) named
  | cons first rest =>
    refine ⟨first, rest, rfl, fun zero => clean ?_⟩
    rw [bytes, zero]
    exact List.mem_cons_self

theorem startupPairs_pair {param : String × String} (sendable : Sendable param) (fuel : Nat) (tail : Bytes)
    (params : Params) :
    startupPairs (fuel + 1) (pairBytes param ++ tail) params =
      startupPairs fuel tail (params.insert param.1 param.2) := by
  obtain ⟨first, rest, bytes, nonzero⟩ := asBytes_cons sendable.named sendable.key
  have stream : pairBytes param ++ tail = asBytes param.1 ++ 0 :: (asBytes param.2 ++ 0 :: tail) := by
    simp [pairBytes]
  have front : asBytes param.1 ++ 0 :: (asBytes param.2 ++ 0 :: tail) =
      first :: (rest ++ 0 :: (asBytes param.2 ++ 0 :: tail)) := by rw [bytes, List.cons_append]
  rw [stream, front, startupPairs, if_neg nonzero, ← front]
  simp only [Delimited.takeWhile_field sendable.key, Delimited.dropWhile_field sendable.key,
    Delimited.takeWhile_field sendable.value, Delimited.dropWhile_field sendable.value, fromUtf8_asBytes,
    List.drop_one, List.tail_cons]

theorem startupPairs_pairs {pairs : List (String × String)} (sendable : ∀ param ∈ pairs, Sendable param)
    (fuel : Nat) (tail : Bytes) (params : Params) :
    startupPairs (fuel + pairs.length) (pairs.flatMap pairBytes ++ tail) params =
      startupPairs fuel tail (pairs.foldl (fun params param => params.insert param.1 param.2) params) := by
  induction pairs generalizing params with
  | nil => rfl
  | cons param pairs ih =>
    rw [List.flatMap_cons, List.append_assoc, List.length_cons, ← Nat.add_assoc,
      startupPairs_pair (sendable param (by simp)), ih fun other member => sendable other (by simp [member])]
    rfl

theorem length_le_flatMap_pairBytes (pairs : List (String × String)) :
    pairs.length ≤ (pairs.flatMap pairBytes).length := by
  induction pairs with
  | nil => simp
  | cons param pairs ih =>
    simp only [List.flatMap_cons, List.length_append, List.length_cons, pairBytes]
    omega

-- How one pass of the loop ends that does not find the terminator.
inductive Pass (fuel : Nat) (bytes : Bytes) (params : Params) : Except StartupError Params → Prop
  | utf8 (text : Bytes) : Pass fuel bytes params (.error (.utf8 text))
  | cut (key : String) (named : key ≠ "") (clean : 0 ∉ asBytes key) (whole : bytes = asBytes key) :
    Pass fuel bytes params (.error (.panic .outOfRange))
  | pair (param : String × String) (tail : Bytes) (sendable : Sendable param)
    (whole : bytes = pairBytes param ++ tail ∨ tail = []) :
    Pass fuel bytes params (startupPairs fuel tail (params.insert param.1 param.2))

theorem startupPairs_pass {first : UInt8} (nonzero : first ≠ 0) (fuel : Nat) (rest : Bytes) (params : Params) :
    Pass fuel (first :: rest) params (startupPairs (fuel + 1) (first :: rest) params) := by
  rw [startupPairs, if_neg nonzero]
  have clean := Delimited.notMem_takeWhile 0 (first :: rest)
  have long : (first :: rest).takeWhile (· ≠ 0) ≠ [] := by
    rw [List.takeWhile_cons_of_pos (by simpa using nonzero)]
    exact List.cons_ne_nil _ _
  cases decoded : fromUtf8 ((first :: rest).takeWhile (· ≠ 0)) with
  | none =>
    simp only [decoded]
    exact .utf8 _
  | some key =>
    simp only [decoded]
    have bytes := asBytes_of_fromUtf8 decoded
    rw [← bytes] at clean long
    have named : key ≠ "" := fun empty => long (asBytes_eq_nil.mpr empty)
    obtain ⟨cut, whole⟩ | ⟨behind, cut, whole⟩ := Delimited.dropWhile_cases 0 (first :: rest)
    · rw [cut]
      exact .cut key named clean (whole.trans bytes.symm)
    · rw [cut]
      have valueClean := Delimited.notMem_takeWhile 0 behind
      cases valid : fromUtf8 (behind.takeWhile (· ≠ 0)) with
      | none =>
        simp only [valid]
        exact .utf8 _
      | some value =>
        simp only [valid]
        have valueBytes := asBytes_of_fromUtf8 valid
        rw [← valueBytes] at valueClean
        refine .pair (key, value) _ ⟨named, clean, valueClean⟩ ?_
        obtain ⟨ends, -⟩ | ⟨tail, ends, rests⟩ := Delimited.dropWhile_cases 0 behind
        · exact .inr (by rw [ends, List.drop_nil])
        · refine .inl ?_
          rw [ends, whole, ← bytes]
          conv_lhs => rw [rests, ← valueBytes]
          simp [pairBytes]

/-- Whole pairs, and behind them a key that runs to the end without its zero byte. -/
def CutKey (bytes : Bytes) : Prop :=
  ∃ (pairs : List (String × String)) (key : String), (∀ param ∈ pairs, Sendable param) ∧ key ≠ "" ∧
    0 ∉ asBytes key ∧ bytes = pairs.flatMap pairBytes ++ asBytes key

theorem CutKey.cons {param : String × String} (sendable : Sendable param) {tail : Bytes} (cut : CutKey tail) :
    CutKey (pairBytes param ++ tail) := by
  obtain ⟨pairs, key, each, named, clean, rfl⟩ := cut
  refine ⟨param :: pairs, key, ?_, named, clean, by simp⟩
  intro other member
  obtain rfl | member := List.mem_cons.mp member
  · exact sendable
  · exact each other member

theorem cutKey_of_panic {fuel : Nat} {bytes : Bytes} {params : Params} {cause : Panic}
    (panics : startupPairs fuel bytes params = .error (.panic cause)) : CutKey bytes := by
  induction fuel generalizing bytes params with
  | zero => cases panics
  | succ fuel ih =>
    cases bytes with
    | nil => cases panics
    | cons first rest =>
      by_cases zero : first = 0
      · rw [startupPairs, if_pos zero] at panics
        cases panics
      · have passed := startupPairs_pass zero fuel rest params
        rw [panics] at passed
        generalize result : Except.error (StartupError.panic cause) = outcome at passed
        cases passed with
        | utf8 text => cases result
        | cut key named clean whole => exact ⟨[], key, by simp, named, clean, by simpa using whole⟩
        | pair param tail sendable whole =>
          have later := ih result.symm
          obtain whole | rfl := whole
          · rw [whole]
            exact later.cons sendable
          · cases fuel <;> cases result

theorem panic_of_cutKey {bytes : Bytes} (cut : CutKey bytes) {fuel : Nat} (enough : bytes.length ≤ fuel)
    (params : Params) : startupPairs fuel bytes params = .error (.panic .outOfRange) := by
  obtain ⟨pairs, key, sendable, named, clean, rfl⟩ := cut
  obtain ⟨first, rest, bytes, nonzero⟩ := asBytes_cons named clean
  have shorter := length_le_flatMap_pairBytes pairs
  rw [List.length_append, bytes, List.length_cons] at enough
  obtain ⟨more, rfl⟩ : ∃ more, fuel = more + 1 + pairs.length := ⟨fuel - 1 - pairs.length, by omega⟩
  rw [startupPairs_pairs sendable, bytes, startupPairs, if_neg nonzero, ← bytes]
  simp only [Delimited.takeWhile_clean clean, Delimited.dropWhile_clean clean, fromUtf8_asBytes]

theorem parse_startup_params_safe (payload : Bytes) :
    (∃ result, checkedParseStartupParams payload = .ok result) ↔ ¬ CutKey (payload.drop 4) := by
  rw [checkedParseStartupParams_eq, parseStartupParams]
  by_cases short : payload.length < 4
  · rw [if_pos short, List.drop_eq_nil_of_le (by omega)]
    refine iff_of_true ⟨_, rfl⟩ ?_
    rintro ⟨pairs, key, -, named, -, whole⟩
    exact named (asBytes_eq_nil.mp (List.append_eq_nil_iff.mp whole.symm).2)
  · rw [if_neg short]
    by_cases cut : CutKey (payload.drop 4)
    · rw [panic_of_cutKey cut (by simp)]
      simp [withPanic, Except.map, cut]
    · refine iff_of_true ?_ cut
      cases parsed : startupPairs payload.length (payload.drop 4) [] with
      | ok params => exact ⟨_, rfl⟩
      | error error =>
        cases error with
        | panic cause => exact absurd (cutKey_of_panic parsed) cut
        | tooShort => exact ⟨_, rfl⟩
        | utf8 bytes => exact ⟨_, rfl⟩

-- `user` with nothing behind it, under version 3.0.
def cutStartup : Bytes := [0, 3, 0, 0, 117, 115, 101, 114]

theorem parse_startup_params_panics :
    ¬ ∀ payload, ∃ result, checkedParseStartupParams payload = .ok result := by
  intro safe
  obtain ⟨result, parsed⟩ := safe cutStartup
  have panics : checkedParseStartupParams cutStartup = .error .slice := by decide
  rw [panics] at parsed
  cases parsed

structure Params.Valid (params : Params) : Prop where
  sendable : ∀ param ∈ params, Sendable param
  distinct : (params.map Prod.fst).Nodup

namespace Params

variable {params : Params} {key value : String}

theorem insert_of_notMem (fresh : key ∉ params.map Prod.fst) :
    params.insert key value = params ++ [(key, value)] := by
  rw [Params.insert, if_neg]
  rw [List.any_eq_true]
  rintro ⟨param, member, same⟩
  exact fresh (List.mem_map.mpr ⟨param, member, of_decide_eq_true same⟩)

theorem keys_insert_of_mem (known : key ∈ params.map Prod.fst) :
    (params.insert key value).map Prod.fst = params.map Prod.fst := by
  obtain ⟨param, member, same⟩ := List.mem_map.mp known
  rw [Params.insert, if_pos (List.any_eq_true.mpr ⟨param, member, decide_eq_true same⟩), List.map_map]
  apply List.map_congr_left
  intro other _
  simp only [Function.comp]
  split
  · rename_i is
    exact is.symm
  · rfl

theorem mem_insert {param : String × String} (member : param ∈ params.insert key value) :
    param = (key, value) ∨ param ∈ params := by
  rw [Params.insert] at member
  split at member
  · obtain ⟨other, among, rfl⟩ := List.mem_map.mp member
    split
    · exact .inl rfl
    · exact .inr among
  · obtain among | last := List.mem_append.mp member
    · exact .inr among
    · exact .inl (List.mem_singleton.mp last)

theorem Valid.insert (valid : params.Valid) (sendable : Sendable (key, value)) :
    (params.insert key value).Valid where
  sendable param member := by
    obtain rfl | among := mem_insert member
    · exact sendable
    · exact valid.sendable param among
  distinct := by
    by_cases known : key ∈ params.map Prod.fst
    · rw [keys_insert_of_mem known]
      exact valid.distinct
    · rw [insert_of_notMem known, List.map_append]
      exact valid.distinct.append (List.nodup_singleton key) (by simpa using known)

theorem foldl_insert {first pairs : Params} (distinct : ((first ++ pairs).map Prod.fst).Nodup) :
    pairs.foldl (fun params param => params.insert param.1 param.2) first = first ++ pairs := by
  induction pairs generalizing first with
  | nil => simp
  | cons param pairs ih =>
    have fresh : param.1 ∉ first.map Prod.fst := by
      intro member
      rw [List.map_append, List.map_cons] at distinct
      exact (List.disjoint_of_nodup_append distinct) member List.mem_cons_self
    rw [List.foldl_cons, insert_of_notMem fresh, ih (by simpa using distinct)]
    simp

end Params

theorem startupPairs_valid {fuel : Nat} {bytes : Bytes} {params p : Params} (valid : params.Valid)
    (parsed : startupPairs fuel bytes params = .ok p) : p.Valid := by
  induction fuel generalizing bytes params with
  | zero =>
    obtain rfl := Except.ok.inj parsed
    exact valid
  | succ fuel ih =>
    cases bytes with
    | nil =>
      obtain rfl := Except.ok.inj parsed
      exact valid
    | cons first rest =>
      by_cases zero : first = 0
      · rw [startupPairs, if_pos zero] at parsed
        obtain rfl := Except.ok.inj parsed
        exact valid
      · have passed := startupPairs_pass zero fuel rest params
        rw [parsed] at passed
        generalize result : Except.ok p = outcome at passed
        cases passed with
        | utf8 text => cases result
        | cut key named clean whole => cases result
        | pair param tail sendable whole => exact ih (valid.insert sendable) result.symm

theorem parseStartupParams_valid {payload : Bytes} {version : Int} {p : Params}
    (parsed : parseStartupParams payload = .ok (version, p)) : p.Valid := by
  rw [parseStartupParams] at parsed
  split at parsed
  · cases parsed
  · cases pairs : startupPairs payload.length (payload.drop 4) [] with
    | error error =>
      rw [pairs] at parsed
      cases parsed
    | ok params =>
      rw [pairs] at parsed
      obtain ⟨-, rfl⟩ := Prod.mk.inj (Except.ok.inj parsed)
      exact startupPairs_valid ⟨by simp, by simp⟩ pairs

end PgMux
