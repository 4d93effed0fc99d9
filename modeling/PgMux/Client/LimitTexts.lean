import PgMux.Client.Startup
import PgMux.Monitor.Flags

set_option autoImplicit false

namespace PgMux

/-- A text that `parse_size_limit` reads as a number, with the size that it stands for. The text `0` alone
stands for no limit. -/
def Denotes (s : String) (size : Nat) : Prop :=
  trim s.toList ≠ [] ∧ trim s.toList ≠ ['0'] ∧ ∃ numStr multiplier n,
    sizeParts (trim s.toList) = .ok (numStr, multiplier) ∧ parseU64 (trim numStr) = some n ∧
      size = n * multiplier

theorem Denotes.unique {s : String} {size other : Nat} (first : Denotes s size) (second : Denotes s other) :
    size = other := by
  obtain ⟨-, -, numStr, multiplier, n, parts, digits, rfl⟩ := first
  obtain ⟨-, -, numStr', multiplier', n', parts', digits', rfl⟩ := second
  obtain ⟨rfl, rfl⟩ := Prod.mk.inj (Except.ok.inj (parts.symm.trans parts'))
  obtain rfl := Option.some.inj (digits.symm.trans digits')
  rfl

theorem parseSizeLimit_cases {s : String} {limit : Option Nat} (parsed : parseSizeLimit s = .ok limit) :
    (limit = none ∧ ∀ size, ¬ Denotes s size) ∨ ∃ size, Denotes s size ∧ limit = some (size % 2 ^ 64) := by
  rw [parseSizeLimit] at parsed
  by_cases nothing : trim s.toList = [] ∨ trim s.toList = ['0']
  · rw [if_pos nothing] at parsed
    refine .inl ⟨(Except.ok.inj parsed).symm, fun size denotes => ?_⟩
    exact nothing.elim denotes.1 denotes.2.1
  · rw [if_neg nothing] at parsed
    obtain ⟨some_, nonzero⟩ := not_or.mp nothing
    cases parts : sizeParts (trim s.toList) with
    | error cause =>
      rw [parts] at parsed
      cases parsed
    | ok both =>
      obtain ⟨numStr, multiplier⟩ := both
      rw [parts] at parsed
      obtain rfl := Except.ok.inj parsed
      cases digits : parseU64 (trim numStr) with
      | none =>
        refine .inl ⟨by simp [digits], ?_⟩
        rintro size ⟨-, -, other, unit, n, same, number, -⟩
        obtain ⟨rfl, rfl⟩ := Prod.mk.inj (Except.ok.inj (parts.symm.trans same))
        rw [digits] at number
        cases number
      | some n =>
        exact .inr ⟨n * multiplier, ⟨some_, nonzero, numStr, multiplier, n, parts, digits, rfl⟩, by simp [digits]⟩

-- The value of the first option that names the limit.
def optionText : List (List Char) → Option String
  | [] => none
  | part :: parts =>
    match stripPrefix "--max_db_size=".toList part with
    | some val => some (String.ofList val)
    | none =>
      match stripPrefix "-c max_db_size=".toList part with
      | some val => some (String.ofList val)
      | none => optionText parts

theorem optionsLimit_eq (parts : List (List Char)) :
    optionsLimit parts = match optionText parts with
      | some val => parseSizeLimit val
      | none => .ok none := by
  induction parts with
  | nil => rfl
  | cons part parts ih =>
    rw [optionsLimit, optionText]
    cases stripPrefix "--max_db_size=".toList part with
    | some val => rfl
    | none =>
      cases stripPrefix "-c max_db_size=".toList part with
      | some val => rfl
      | none => exact ih

/-- The size that a startup packet asks for: that of its parameter or, where the parameter is no number, that
of its options. -/
def Requests (p : Params) (size : Nat) : Prop :=
  (∃ s, p.get "max_db_size" = some s ∧ Denotes s size) ∨
    (∀ s, p.get "max_db_size" = some s → ∀ other, ¬ Denotes s other) ∧
      ∃ opts s, p.get "options" = some opts ∧ optionText (splitWhitespace opts.toList) = some s ∧
        Denotes s size

theorem Requests.unique {p : Params} {size other : Nat} (first : Requests p size) (second : Requests p other) :
    size = other := by
  obtain ⟨s, given, denotes⟩ | ⟨unread, opts, s, given, text, denotes⟩ := first
  · obtain ⟨s', given', denotes'⟩ | ⟨unread, -⟩ := second
    · obtain rfl := Option.some.inj (given.symm.trans given')
      exact denotes.unique denotes'
    · exact absurd denotes (unread s given size)
  · obtain ⟨s', given', denotes'⟩ | ⟨-, opts', s', given', text', denotes'⟩ := second
    · exact absurd denotes' (unread s' given' other)
    · obtain rfl := Option.some.inj (given.symm.trans given')
      obtain rfl := Option.some.inj (text.symm.trans text')
      exact denotes.unique denotes'

theorem optionsLimit_cases {parts : List (List Char)} {limit : Option Nat}
    (found : optionsLimit parts = .ok limit) :
    (limit = none ∧ ∀ s, optionText parts = some s → ∀ size, ¬ Denotes s size) ∨
      ∃ s size, optionText parts = some s ∧ Denotes s size ∧ limit = some (size % 2 ^ 64) := by
  rw [optionsLimit_eq] at found
  cases text : optionText parts with
  | none =>
    rw [text] at found
    exact .inl ⟨(Except.ok.inj found).symm, nofun⟩
  | some s =>
    rw [text] at found
    obtain ⟨rfl, unread⟩ | ⟨size, denotes, rfl⟩ := parseSizeLimit_cases found
    · refine .inl ⟨rfl, fun other same => ?_⟩
      obtain rfl := Option.some.inj same
      exact unread
    · exact .inr ⟨s, size, rfl, denotes, rfl⟩

-- The options decide where the parameter is no number.
theorem requests_options {p : Params} {limit : Option Nat}
    (unread : ∀ s, p.get "max_db_size" = some s → ∀ size, ¬ Denotes s size)
    (found : (match p.get "options" with
      | some opts => optionsLimit (splitWhitespace opts.toList)
      | none => .ok none) = .ok limit) :
    (limit = none ∧ ∀ size, ¬ Requests p size) ∨ ∃ size, Requests p size ∧ limit = some (size % 2 ^ 64) := by
  cases given : p.get "options" with
  | none =>
    rw [given] at found
    refine .inl ⟨(Except.ok.inj found).symm, ?_⟩
    rintro size (⟨s, param, denotes⟩ | ⟨-, opts, s, options, -⟩)
    · exact unread s param size denotes
    · rw [given] at options
      cases options
  | some opts =>
    rw [given] at found
    obtain ⟨rfl, none_⟩ | ⟨s, size, text, denotes, rfl⟩ := optionsLimit_cases found
    · refine .inl ⟨rfl, ?_⟩
      rintro size (⟨s, param, denotes⟩ | ⟨-, other, s, options, text, denotes⟩)
      · exact unread s param size denotes
      · obtain rfl := Option.some.inj (given.symm.trans options)
        exact none_ s text size denotes
    · exact .inr ⟨size, .inr ⟨unread, opts, s, given, text, denotes⟩, rfl⟩

theorem maxDbSizeOf_cases {p : Params} {limit : Option Nat} (found : maxDbSizeOf p = .ok limit) :
    (limit = none ∧ ∀ size, ¬ Requests p size) ∨ ∃ size, Requests p size ∧ limit = some (size % 2 ^ 64) := by
  rw [maxDbSizeOf] at found
  cases given : p.get "max_db_size" with
  | none =>
    rw [given] at found
    refine requests_options (fun s param => by cases given.symm.trans param) ?_
    rw [← found]
    cases p.get "options" <;> rfl
  | some v =>
    rw [given] at found
    dsimp only at found
    cases parsed : parseSizeLimit v with
    | error cause =>
      rw [parsed] at found
      cases found
    | ok own =>
      rw [parsed] at found
      obtain ⟨rfl, unread⟩ | ⟨size, denotes, rfl⟩ := parseSizeLimit_cases parsed
      · refine requests_options (fun s param => ?_) ?_
        · obtain rfl := Option.some.inj (given.symm.trans param)
          exact unread
        · rw [← found]
          cases p.get "options" <;> rfl
      · obtain rfl := Except.ok.inj found
        exact .inr ⟨size, .inl ⟨v, given, denotes⟩, rfl⟩

/-- What the registered limit is to be: positive, with the same decision as the check of the slow loop, and
the default where the packet asks for zero or for more than 64 bits hold. -/
structure LimitKept (cfg : Config) (p : Params) (ctx : Settings) : Prop where
  positive : 0 < effectiveLimit ctx
  agrees : ∀ (monitor : DbSizeMonitor) (loads : Loads) (pass : ClientPass),
    loads.dbSize pass.sizeLoads = monitor.getDbSize ctx.poolKey.database →
    let (registered, id) := monitor.registerSession ctx.poolKey.database (effectiveLimit ctx)
    registered.flag id = some (shouldInject ctx loads pass).1
  alike : ∀ size, Requests p size → size = 0 ∨ 2 ^ 64 ≤ size →
    effectiveLimit ctx = cfg.monitor.defaultMaxDbSizeBytes

theorem registered_flag (monitor : DbSizeMonitor) (database : String) (limit : Nat) :
    (monitor.registerSession database limit).1.flag (monitor.registerSession database limit).2 =
      some (decide (0 < limit) && match monitor.getDbSize database with
        | some size => decide (limit < size)
        | none => false) := by
  rw [DbSizeMonitor.flag, DbSizeMonitor.registerSession, AList.lookup_insert]
  by_cases positive : 0 < limit
  · cases monitor.getDbSize database <;> simp [positive]
  · simp [positive]

theorem agrees_iff_positive {ctx : Settings} {limit : Nat} (limited : maxSize ctx = some limit) :
    (∀ (monitor : DbSizeMonitor) (loads : Loads) (pass : ClientPass),
      loads.dbSize pass.sizeLoads = monitor.getDbSize ctx.poolKey.database →
      let (registered, id) := monitor.registerSession ctx.poolKey.database (effectiveLimit ctx)
      registered.flag id = some (shouldInject ctx loads pass).1) ↔ 0 < limit := by
  have effective : effectiveLimit ctx = limit := by rw [effectiveLimit, limited, Option.getD_some]
  rw [effective]
  constructor
  · intro agrees
    by_contra zero
    -- A database of one byte.
    have decided := agrees { dbSizes := (∅ : Tally.Table String Nat).insert ctx.poolKey.database 1 }
      ⟨fun _ => false, fun _ => some 1⟩ ⟨false, [], 0⟩ (by rw [DbSizeMonitor.getDbSize, AList.lookup_insert])
    dsimp only at decided
    rw [registered_flag, shouldInject, limited] at decided
    simp [zero] at decided
    omega
  · intro positive monitor loads pass same
    dsimp only
    rw [registered_flag, shouldInject, limited, ← same]
    cases loads.dbSize pass.sizeLoads <;> simp [positive]

theorem maxDbSize_of_startup {payload : Bytes} {p : Params} {startupInfo : ClientStartupInfo}
    (parsed : parseStartupParams payload = .ok (196608, p))
    (accepted : (handleStartup payload).2 = .password startupInfo) :
    maxDbSizeOf p = .ok startupInfo.maxDbSize := by
  rw [handleStartup, parsed] at accepted
  dsimp only at accepted
  rw [if_neg (by simp), startupInfoOf] at accepted
  cases found : maxDbSizeOf p with
  | error cause =>
    rw [found] at accepted
    cases accepted
  | ok limit =>
    rw [found] at accepted
    obtain rfl := ClientStage.password.inj accepted
    rfl

theorem limit_kept_iff (cfg : Config) (limited : 0 < cfg.monitor.defaultMaxDbSizeBytes) {payload : Bytes}
    {p : Params} {startupInfo : ClientStartupInfo} (parsed : parseStartupParams payload = .ok (196608, p))
    (accepted : (handleStartup payload).2 = .password startupInfo) (password : String) :
    LimitKept cfg p (settingsFor cfg { startupInfo with password := password }) ↔
      ∀ size, Requests p size →
        0 < size ∧ size < 2 ^ 64 ∨ size % 2 ^ 64 = cfg.monitor.defaultMaxDbSizeBytes := by
  have asked := maxDbSizeOf_cases (maxDbSize_of_startup parsed accepted)
  generalize context : settingsFor cfg { startupInfo with password := password } = ctx
  have or_default : maxSize ctx = startupInfo.maxDbSize.or (some cfg.monitor.defaultMaxDbSizeBytes) := by
    rw [← context, maxSize, settingsFor, if_pos limited]
  obtain ⟨own, nothing⟩ | ⟨size, requests, own⟩ := asked
  · have limit : maxSize ctx = some cfg.monitor.defaultMaxDbSizeBytes := by rw [or_default, own]; rfl
    have effective : effectiveLimit ctx = cfg.monitor.defaultMaxDbSizeBytes := by
      rw [effectiveLimit, limit, Option.getD_some]
    refine iff_of_true ⟨by omega, (agrees_iff_positive limit).mpr limited, fun size requests => ?_⟩
      fun size requests => ?_
    · exact absurd requests (nothing size)
    · exact absurd requests (nothing size)
  · have limit : maxSize ctx = some (size % 2 ^ 64) := by rw [or_default, own]; rfl
    have effective : effectiveLimit ctx = size % 2 ^ 64 := by rw [effectiveLimit, limit, Option.getD_some]
    constructor
    · intro kept other requests'
      obtain rfl := requests.unique requests'
      have positive := kept.positive
      have alike := kept.alike size requests
      by_cases odd : size = 0 ∨ 2 ^ 64 ≤ size
      · exact .inr (by rw [← effective, alike odd])
      · exact .inl (by omega)
    · intro fits
      have positive : 0 < size % 2 ^ 64 := by
        obtain ⟨some_, small⟩ | wraps := fits size requests
        · rwa [Nat.mod_eq_of_lt small]
        · rwa [wraps]
      refine ⟨by rwa [effective], (agrees_iff_positive limit).mpr positive, fun other requests' odd => ?_⟩
      obtain rfl := requests.unique requests'
      obtain ⟨some_, small⟩ | wraps := fits size requests
      · omega
      · rw [effective, wraps]

-- A packet of the user `app` that asks for a limit.
def packetWithLimit (limit : String) : Bytes :=
  putI32 196608 ++ asBytes "user" ++ [0] ++ asBytes "app" ++ [0] ++ asBytes "max_db_size" ++ [0] ++
    asBytes limit ++ [0] ++ [0]

def withDefault (bytes : Nat) : Config := { monitor := { defaultMaxDbSizeBytes := bytes } }

theorem limit_kept_ten_megabytes :
    LimitKept (withDefault 1024) [("user", "app"), ("max_db_size", "10MB")]
      (settingsFor (withDefault 1024) ⟨"app", "app", "secret", some (10 * 1024 * 1024), []⟩) := by
  have asks : Requests [("user", "app"), ("max_db_size", "10MB")] (10 * (1024 * 1024)) :=
    .inl ⟨"10MB", rfl, by decide, by decide, ['1', '0'], 1024 * 1024, 10, by decide, by decide, rfl⟩
  refine (@limit_kept_iff (withDefault 1024) (by decide) (packetWithLimit "10MB")
    [("user", "app"), ("max_db_size", "10MB")] ⟨"app", "app", "", some (10 * 1024 * 1024), []⟩
    (by decide +kernel) (by decide +kernel) "secret").mpr fun size requests => ?_
  obtain rfl := asks.unique requests
  exact .inl ⟨by decide, by decide⟩

-- Zero, spelled with two digits.
theorem limit_not_kept_zero :
    ¬ ∀ cfg : Config, 0 < cfg.monitor.defaultMaxDbSizeBytes → ∀ payload p startupInfo,
      parseStartupParams payload = .ok (196608, p) → (handleStartup payload).2 = .password startupInfo →
      ∀ password, LimitKept cfg p (settingsFor cfg { startupInfo with password := password }) := by
  intro kept
  have positive := (kept (withDefault 1024) (by decide) (packetWithLimit "00")
    [("user", "app"), ("max_db_size", "00")] ⟨"app", "app", "", some 0, []⟩ (by decide +kernel)
    (by decide +kernel) "secret").positive
  exact absurd positive (by decide)

end PgMux
