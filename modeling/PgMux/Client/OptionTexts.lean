import Mathlib.Data.List.Infix
import PgMux.Client.LimitTexts

set_option autoImplicit false

namespace PgMux

-- `--max_db_size=V`, or `-c max_db_size=V`.
inductive Spelling where
  | long
  | short
deriving DecidableEq, Repr

-- The directive that begins with the first of the words. The short spelling takes two of them.
def directive : List (List Char) → Option (Spelling × List Char)
  | [] => none
  | word :: words =>
    match stripPrefix "--max_db_size=".toList word with
    | some val => some (.long, val)
    | none =>
      if word = "-c".toList then
        words.head?.bind fun next => (stripPrefix "max_db_size=".toList next).map (.short, ·)
      else none

def directives (words : List (List Char)) : List (Spelling × List Char) := words.tails.filterMap directive

theorem directives_cons (word : List Char) (words : List (List Char)) :
    directives (word :: words) = (directive (word :: words)).toList ++ directives words := by
  rw [directives, List.tails_cons, List.filterMap_cons]
  cases directive (word :: words) with
  | none => rfl
  | some found => rfl

theorem clean_of_splitOnP {A : Type} {p : A → Bool} {text part : List A} (member : part ∈ text.splitOnP p) :
    ∀ c ∈ part, ¬ p c := by
  induction text generalizing part with
  | nil =>
    obtain rfl := List.mem_singleton.mp member
    exact nofun
  | cons first rest ih =>
    rw [List.splitOnP_cons_eq_if_modifyHead] at member
    split at member
    · obtain rfl | later := List.mem_cons.mp member
      · exact nofun
      · exact ih later
    · rename_i inside
      obtain ⟨head, others, whole⟩ := List.exists_cons_of_ne_nil (List.splitOnP_ne_nil p rest)
      rw [whole] at member ih
      obtain rfl | later := List.mem_cons.mp member
      · intro c is
        obtain rfl | is := List.mem_cons.mp is
        · exact inside
        · exact ih (by simp) c is
      · exact ih (by simp [later])

theorem clean_of_splitWhitespace {text word : List Char} (member : word ∈ splitWhitespace text) :
    ∀ c ∈ word, ¬ isWhitespace c :=
  clean_of_splitOnP (List.mem_filter.mp member).1

-- The prefix has a space, and a word has none.
theorem stripPrefix_spaced {word : List Char} (clean : ∀ c ∈ word, ¬ isWhitespace c) :
    stripPrefix "-c max_db_size=".toList word = none := by
  rw [stripPrefix, if_neg]
  intro begins
  have inside := (List.isPrefixOf_iff_prefix.mp begins).subset (show ' ' ∈ "-c max_db_size=".toList by decide)
  exact clean ' ' inside (by decide)

def longValue : Spelling × List Char → Option String
  | (.long, val) => some (String.ofList val)
  | (.short, _) => none

theorem longValue_directive {word : List Char} (other : stripPrefix "--max_db_size=".toList word = none)
    (words : List (List Char)) : (directive (word :: words)).toList.findSome? longValue = none := by
  simp only [directive, other]
  split
  · cases words.head? with
    | none => rfl
    | some next =>
      rw [Option.bind_some]
      cases stripPrefix "max_db_size=".toList next with
      | none => rfl
      | some val => rfl
  · rfl

theorem optionText_eq {words : List (List Char)} (clean : ∀ word ∈ words, ∀ c ∈ word, ¬ isWhitespace c) :
    optionText words = (directives words).findSome? longValue := by
  induction words with
  | nil => rfl
  | cons word words ih =>
    have later := ih fun other member => clean other (by simp [member])
    have spaced := stripPrefix_spaced (clean word List.mem_cons_self)
    rw [directives_cons, List.findSome?_append]
    cases long : stripPrefix "--max_db_size=".toList word with
    | some val =>
      rw [optionText, directive, long]
      rfl
    | none => rw [longValue_directive long, Option.none_or, ← later, optionText, long, spaced]

def ClientStage.limit : ClientStage → Option (Except Panic (Option Nat))
  | .password startupInfo => some (.ok startupInfo.maxDbSize)
  | .returned (.error (.panic cause)) => some (.error cause)
  | _ => none

theorem limit_handleStartup {payload : Bytes} {p : Params} (parsed : parseStartupParams payload = .ok (196608, p)) :
    (handleStartup payload).2.limit = some (maxDbSizeOf p) := by
  rw [handleStartup, parsed]
  dsimp only
  rw [if_neg (by simp), startupInfoOf]
  cases maxDbSizeOf p with
  | error cause => rfl
  | ok limit => rfl

theorem limit_of_options_iff {payload : Bytes} {p : Params} (parsed : parseStartupParams payload = .ok (196608, p))
    (absent : p.get "max_db_size" = none) {opts : String} (given : p.get "options" = some opts)
    {spelling : Spelling} {val : List Char} (only : directives (splitWhitespace opts.toList) = [(spelling, val)]) :
    (handleStartup payload).2.limit = some (parseSizeLimit (String.ofList val)) ↔
      spelling = .long ∨ parseSizeLimit (String.ofList val) = .ok none := by
  have found := optionText_eq fun word member => @clean_of_splitWhitespace opts.toList word member
  rw [only] at found
  have limit : maxDbSizeOf p = optionsLimit (splitWhitespace opts.toList) := by
    rw [maxDbSizeOf, absent, given]
    rfl
  rw [limit_handleStartup parsed, limit, optionsLimit_eq, found, Option.some.injEq]
  cases spelling with
  | long => simp [longValue]
  | short => simp [longValue, eq_comm]

-- A packet of the user `app` with these options.
def packetWithOptions (options : String) : Bytes :=
  putI32 196608 ++ asBytes "user" ++ [0] ++ asBytes "app" ++ [0] ++ asBytes "options" ++ [0] ++
    asBytes options ++ [0] ++ [0]

theorem limit_of_options_long :
    (handleStartup (packetWithOptions "-c geqo=off --max_db_size=10MB")).2.limit =
      some (parseSizeLimit (String.ofList "10MB".toList)) :=
  (@limit_of_options_iff (packetWithOptions "-c geqo=off --max_db_size=10MB")
    [("user", "app"), ("options", "-c geqo=off --max_db_size=10MB")] (by decide +kernel) (by decide)
    "-c geqo=off --max_db_size=10MB" (by decide) .long "10MB".toList (by decide +kernel)).mpr (.inl rfl)

theorem limit_of_options_missed :
    ¬ ∀ payload p, parseStartupParams payload = .ok (196608, p) → p.get "max_db_size" = none →
      ∀ opts, p.get "options" = some opts →
      ∀ spelling val, directives (splitWhitespace opts.toList) = [(spelling, val)] →
        (handleStartup payload).2.limit = some (parseSizeLimit (String.ofList val)) := by
  intro heeded
  have limited := heeded (packetWithOptions "-c max_db_size=10MB")
    [("user", "app"), ("options", "-c max_db_size=10MB")] (by decide +kernel) (by decide) "-c max_db_size=10MB"
    (by decide) .short "10MB".toList (by decide +kernel)
  exact absurd limited (by decide +kernel)

end PgMux
