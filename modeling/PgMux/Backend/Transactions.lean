import PgMux.Statements

set_option autoImplicit false

/-!
# Simple queries on the server

What Postgres does with the statements of one simple query: they run in order, `SET TRANSACTION READ
ONLY` affects the current transaction, `COMMIT` and `ROLLBACK` end it, and in a failed block every
other statement is an error, at which the query stops. What else a statement does to the mode of its
transaction, and where it is an error, is for the server to say.
-/

namespace PgMux

inductive Statement where
  | setTransactionReadOnly
  | commit
  | rollback
  | other (text : List Char)
deriving DecidableEq, Repr

def Statement.Ends (statement : Statement) : Prop := statement = .commit ∨ statement = .rollback

instance (statement : Statement) : Decidable statement.Ends := inferInstanceAs (Decidable (_ ∨ _))

/-- The current transaction; the one after a `COMMIT` or a `ROLLBACK` is a new one. -/
structure Transaction where
  readOnly : Bool := false
  failed : Bool := false
deriving DecidableEq, Repr

/-- The mode that any other statement leaves its transaction in, by the one that it runs in, or none where it is
an error. -/
abbrev Effect : Type := List Char → Bool → Option Bool

namespace Transaction

variable (effect : Effect)

-- `none` where the statement is an error.
def after (t : Transaction) : Statement → Option Transaction
  | .commit | .rollback => some {}
  | .setTransactionReadOnly => if t.failed then none else some { t with readOnly := true }
  | .other text => if t.failed then none else (effect text t.readOnly).map fun mode => { t with readOnly := mode }

-- The statements that the server comes to, each with the transaction in which it runs. The last one may be an error.
def executions : Transaction → List Statement → List (Statement × Transaction)
  | _, [] => []
  | t, statement :: rest =>
    (statement, t) ::
      match t.after effect statement with
      | none => []
      | some next => executions next rest

-- The transaction block after the statements. An error in it fails it.
def afterAll : Transaction → List Statement → Transaction
  | t, [] => t
  | t, statement :: rest =>
    match t.after effect statement with
    | none => { t with failed := true }
    | some next => afterAll next rest

end Transaction

namespace Statement

variable (effect : Effect)

-- An error in a read-only transaction.
def Stops : Statement → Prop
  | .other text => effect text true = none
  | _ => False

/-- What comes behind the statement in a read-only transaction runs in one that is not. -/
def Frees : Statement → Prop
  | .setTransactionReadOnly => False
  | .commit | .rollback => True
  | .other text => effect text true = some false

instance : DecidablePred (Stops effect)
  | .other text => inferInstanceAs (Decidable (effect text true = none))
  | .setTransactionReadOnly | .commit | .rollback => inferInstanceAs (Decidable False)

instance : DecidablePred (Frees effect)
  | .setTransactionReadOnly => inferInstanceAs (Decidable False)
  | .commit | .rollback => inferInstanceAs (Decidable True)
  | .other text => inferInstanceAs (Decidable (effect text true = some false))

-- The statements of a query that the server comes to as long as the transaction is read only.
def untilStop (body : List Statement) : List Statement := body.takeWhile fun statement => ¬ statement.Stops effect

end Statement

namespace Transaction

variable {effect : Effect}

theorem after_of_ends (t : Transaction) {statement : Statement} (ends : statement.Ends) :
    t.after effect statement = some {} := by
  obtain rfl | rfl := ends <;> rfl

theorem after_readOnly {t : Transaction} (sound : t.failed = false) (readOnly : t.readOnly = true)
    (statement : Statement) :
    (t.after effect statement = none ∧ statement.Stops effect ∧ ¬ statement.Frees effect) ∨
      (∃ next, t.after effect statement = some next ∧ next.readOnly = false ∧ ¬ statement.Stops effect ∧
        statement.Frees effect) ∨
      (t.after effect statement = some t ∧ ¬ statement.Stops effect ∧ ¬ statement.Frees effect) := by
  obtain ⟨mode, failed⟩ := t
  obtain rfl : mode = true := readOnly
  obtain rfl : failed = false := sound
  cases statement with
  | setTransactionReadOnly => exact .inr (.inr ⟨rfl, not_false, not_false⟩)
  | commit | rollback => exact .inr (.inl ⟨{}, rfl, rfl, not_false, trivial⟩)
  | other text =>
    simp only [after, Statement.Stops, Statement.Frees]
    cases effect text true with
    | none => simp
    | some mode => cases mode <;> simp

theorem executions_readOnly {t : Transaction} (sound : t.failed = false) (readOnly : t.readOnly = true)
    (body : List Statement) :
    (∀ run ∈ t.executions effect body, run.2.readOnly = true) ↔
      ∀ statement ∈ Statement.untilStop effect body.dropLast, ¬ statement.Frees effect := by
  induction body with
  | nil => simp [executions, Statement.untilStop]
  | cons first rest ih =>
    cases rest with
    | nil =>
      simp only [executions]
      cases t.after effect first <;> simp [readOnly, Statement.untilStop]
    | cons second others =>
      rw [executions, List.dropLast_cons_cons, Statement.untilStop, List.takeWhile_cons]
      obtain ⟨error, stops, -⟩ | ⟨next, goes, free, runs, frees⟩ | ⟨stays, runs, keeps⟩ :=
        @after_readOnly effect t sound readOnly first
      · simp [error, stops, readOnly]
      · refine iff_of_false ?_ fun none => none first (by simp [runs]) frees
        intro all
        have second_ := all (second, next) (by simp [goes, executions])
        simp [free] at second_
      · simp only [stays, runs, not_false_eq_true, decide_true, if_true, List.mem_cons, forall_eq_or_imp]
        rw [ih]
        simp [readOnly, keeps, Statement.untilStop]

end Transaction

structure Postgres where
  -- The statements of a text, or none at a syntax error.
  parse : String → Option (List Statement)
  effect : Effect
  parse_readOnly : ∀ text, parse ("SET TRANSACTION READ ONLY; " ++ text) =
    (parse text).map (.setTransactionReadOnly :: ·)

def Postgres.statementsOf (server : Postgres) (raw : Bytes) : Option (List Statement) :=
  (extractQueryText (parseRaw raw)).bind server.parse

def classify (statement : List Char) : Option Statement :=
  if Blank statement then none
  else if (trim statement).map Char.toUpper = "SET TRANSACTION READ ONLY".toList then
    some .setTransactionReadOnly
  else if (trim statement).map Char.toUpper = "COMMIT".toList then some .commit
  else if (trim statement).map Char.toUpper = "ROLLBACK".toList then some .rollback
  else some (.other (trim statement))

theorem classify_space (statement : List Char) : classify (' ' :: statement) = classify statement :=
  rfl

theorem statements_readOnly (text : String) :
    (statements ("SET TRANSACTION READ ONLY; " ++ text)).filterMap classify =
      .setTransactionReadOnly :: (statements text).filterMap classify := by
  have whole : ("SET TRANSACTION READ ONLY; " ++ text).toList =
      "SET TRANSACTION READ ONLY".toList ++ ';' :: ' ' :: text.toList := by
    have front : "SET TRANSACTION READ ONLY; ".toList = "SET TRANSACTION READ ONLY".toList ++ [';', ' '] := by
      decide
    rw [String.toList_append, front, List.append_assoc, List.cons_append, List.cons_append, List.nil_append]
  have first : classify "SET TRANSACTION READ ONLY".toList = some .setTransactionReadOnly := by decide
  obtain ⟨head, others, split⟩ := List.exists_cons_of_ne_nil (List.splitOn_ne_nil ';' text.toList)
  have later : (' ' :: text.toList).splitOn ';' = (' ' :: head) :: others := by
    rw [List.splitOn_cons_eq_if_modifyHead, split]
    rfl
  rw [statements, statements, whole, List.splitOn_append_cons_self_of_not_mem (by decide), later, split,
    List.filterMap_cons, first, List.filterMap_cons, classify_space, List.filterMap_cons]

def plainEffect (statement : List Char) (readOnly : Bool) : Option Bool :=
  let starts (word : String) : Bool := word.toList.isPrefixOf (statement.map Char.toUpper)
  if starts "SET TRANSACTION READ WRITE" then some false
  else if readOnly && ["INSERT", "UPDATE", "DELETE", "CREATE", "DROP", "ALTER", "TRUNCATE"].any starts then none
  else some readOnly

-- A server as far as texts without quotes and comments go.
def plainPostgres : Postgres where
  parse text := some ((statements text).filterMap classify)
  effect := plainEffect
  parse_readOnly text := congrArg some (statements_readOnly text)

end PgMux
