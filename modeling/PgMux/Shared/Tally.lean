import Mathlib.Data.List.AList
import Mathlib.Algebra.BigOperators.Group.List.Basic
import Mathlib.Algebra.Order.BigOperators.Group.List
import Mathlib.Algebra.Order.Ring.Nat
import Mathlib.Tactic.Common

set_option autoImplicit false

/-!
# Weighted counts

What a change of one entry does to a sum over a table, and a change of one element to a sum over a
list. Both are stated as balances, so that no subtraction appears.
-/

namespace Tally

variable {K V A : Type}

abbrev Table (K V : Type) := AList fun _ : K => V

def overTable (weight : K → V → Nat) (table : Table K V) : Nat :=
  (table.entries.map fun entry => weight entry.1 entry.2).sum

def overList (weight : A → Nat) (list : List A) : Nat :=
  (list.map weight).sum

section Table

variable [DecidableEq K] (weight : K → V → Nat)

theorem overTable_insert_new {table : Table K V} {key : K} (value : V)
    (absent : table.lookup key = none) :
    overTable weight (table.insert key value) = weight key value + overTable weight table := by
  rw [overTable, AList.entries_insert_of_notMem (AList.lookup_eq_none.mp absent)]
  simp [overTable]

theorem overTable_insert {table : Table K V} {key : K} {old : V} (value : V)
    (present : table.lookup key = some old) :
    overTable weight (table.insert key value) + weight key old =
      overTable weight table + weight key value := by
  have member : (⟨key, old⟩ : Sigma fun _ : K => V) ∈ table.entries := AList.mem_lookup_iff.mp present
  obtain ⟨kept, first, second, -, entries, erased⟩ :=
    List.exists_of_kerase (List.mem_keys_of_mem member)
  have same : kept = old := by
    have found : table.lookup key = some kept := AList.mem_lookup_iff.mpr (by simp [entries])
    exact Option.some.inj (found.symm.trans present)
  subst same
  rw [overTable, overTable, AList.entries_insert, erased, entries]
  simp only [List.map_cons, List.map_append, List.sum_cons, List.sum_append]
  omega

theorem le_overTable {table : Table K V} {key : K} {value : V}
    (present : table.lookup key = some value) : weight key value ≤ overTable weight table := by
  have member : (⟨key, value⟩ : Sigma fun _ : K => V) ∈ table.entries := AList.mem_lookup_iff.mp present
  exact List.single_le_sum (by simp) _ (List.mem_map.mpr ⟨_, member, rfl⟩)

theorem overTable_congr {other : K → V → Nat} {table : Table K V}
    (same : ∀ key value, table.lookup key = some value → weight key value = other key value) :
    overTable weight table = overTable other table := by
  unfold overTable
  apply congrArg List.sum
  apply List.map_congr_left
  intro entry member
  exact same entry.1 entry.2 (AList.mem_lookup_iff.mpr member)

omit [DecidableEq K] in
theorem overTable_add (other : K → V → Nat) (table : Table K V) :
    overTable (fun key value => weight key value + other key value) table =
      overTable weight table + overTable other table := by
  simp [overTable, List.sum_map_add]

theorem overTable_single {table : Table K V} {key : K} (n : Nat)
    (present : (table.lookup key).isSome) :
    overTable (fun other _ => if key = other then n else 0) table = n := by
  induction table using AList.insertRec with
  | H0 => simp at present
  | IH other value rest absent ih =>
    rw [overTable_insert_new _ value (AList.lookup_eq_none.mpr absent)]
    by_cases here : key = other
    · subst here
      have none : overTable (fun other (_ : V) => if key = other then n else 0) rest =
          overTable (fun _ _ => 0) rest := by
        apply overTable_congr
        intro other value found
        have differs : key ≠ other := by
          rintro rfl
          simp [AList.lookup_eq_none.mpr absent] at found
        rw [if_neg differs]
      rw [none, if_pos rfl]
      simp [overTable]
    · rw [AList.lookup_insert_ne here] at present
      rw [if_neg here, ih present, Nat.zero_add]

omit [DecidableEq K] in
theorem overTable_overList (each : K → A → Nat) (table : Table K V) (list : List A) :
    overTable (fun key _ => overList (each key) list) table =
      overList (fun a => overTable (fun key _ => each key a) table) list := by
  induction list with
  | nil => simp [overList, overTable]
  | cons head tail ih =>
    simp only [overList, List.map_cons, List.sum_cons] at ih ⊢
    rw [overTable_add, ih]

end Table

section Values

def mapValues (change : V → V) (table : Table K V) : Table K V where
  entries := table.entries.map (Sigma.map id fun _ => change)
  nodupKeys := List.NodupKeys.map₂ (fun _ => change) table.entries table.nodupKeys

theorem lookup_mapValues [DecidableEq K] (change : V → V) (table : Table K V) (key : K) :
    (mapValues change table).lookup key = (table.lookup key).map change :=
  List.dlookup_map₂ key

end Values

section List

variable (weight : A → Nat)

@[simp] theorem overList_nil : overList weight [] = 0 := rfl

@[simp] theorem overList_snoc (list : List A) (last : A) :
    overList weight (list ++ [last]) = overList weight list + weight last := by
  simp [overList]

theorem overList_set {list : List A} {i : Nat} {old : A} (value : A) (here : list[i]? = some old) :
    overList weight (list.set i value) + weight old = overList weight list + weight value := by
  induction list generalizing i with
  | nil => simp at here
  | cons head tail ih =>
    cases i with
    | zero =>
      simp only [List.getElem?_cons_zero, Option.some.injEq] at here
      simp [overList, here]
      omega
    | succ i =>
      have rest := ih (by simpa using here)
      simp only [overList, List.set_cons_succ, List.map_cons, List.sum_cons] at rest ⊢
      omega

theorem overList_modify (list : List A) (i : Nat) (change : A → A)
    (unseen : ∀ a, weight (change a) = weight a) :
    overList weight (list.modify i change) = overList weight list := by
  induction list generalizing i with
  | nil => cases i <;> simp [overList]
  | cons head tail ih =>
    cases i with
    | zero => simp [overList, unseen]
    | succ i =>
      have rest := ih i
      simp only [overList, List.modify_succ_cons, List.map_cons, List.sum_cons] at rest ⊢
      omega

theorem overList_eraseIdx {list : List A} {i : Nat} {a : A} (here : list[i]? = some a) :
    overList weight (list.eraseIdx i) + weight a = overList weight list := by
  induction list generalizing i with
  | nil => simp at here
  | cons head tail ih =>
    cases i with
    | zero =>
      simp only [List.getElem?_cons_zero, Option.some.injEq] at here
      simp [overList, here]
      omega
    | succ i =>
      have rest := ih (by simpa using here)
      simp only [overList, List.eraseIdx_cons_succ, List.map_cons, List.sum_cons] at rest ⊢
      omega

theorem le_overList {list : List A} {i : Nat} {a : A} (here : list[i]? = some a) :
    weight a ≤ overList weight list :=
  List.single_le_sum (by simp) _ (List.mem_map.mpr ⟨a, List.mem_of_getElem? here, rfl⟩)

theorem add_le_overList {list : List A} {i j : Nat} {a b : A} (differs : j ≠ i) (here : list[i]? = some a)
    (there : list[j]? = some b) : weight a + weight b ≤ overList weight list := by
  have erased := overList_eraseIdx weight here
  have least : weight b ≤ overList weight (list.eraseIdx i) := by
    rcases Nat.lt_or_gt_of_ne differs with before | behind
    · exact le_overList weight (i := j) (by rwa [List.getElem?_eraseIdx_of_lt before])
    · obtain ⟨k, rfl⟩ := Nat.exists_eq_add_of_lt behind
      exact le_overList weight (i := i + k) (by rwa [List.getElem?_eraseIdx_of_ge (Nat.le_add_right i k)])
  omega

theorem exists_of_overList_pos {list : List A} (positive : 0 < overList weight list) :
    ∃ (i : Nat) (a : A), list[i]? = some a ∧ 0 < weight a := by
  obtain ⟨value, member, some⟩ := List.exists_mem_ne_zero_of_sum_ne_zero (Nat.pos_iff_ne_zero.mp positive)
  obtain ⟨a, inside, rfl⟩ := List.mem_map.mp member
  obtain ⟨i, here⟩ := List.mem_iff_getElem?.mp inside
  exact ⟨i, a, here, Nat.pos_of_ne_zero some⟩

theorem overList_le {other : A → Nat} (less : ∀ a, weight a ≤ other a) (list : List A) :
    overList weight list ≤ overList other list :=
  List.sum_le_sum fun a _ => less a

theorem overList_add (other : A → Nat) (list : List A) :
    overList (fun a => weight a + other a) list = overList weight list + overList other list := by
  induction list with
  | nil => rfl
  | cons head tail ih =>
    simp only [overList, List.map_cons, List.sum_cons] at ih ⊢
    omega

theorem countP_set {list : List A} {i : Nat} {old : A} (counts : A → Bool) (value : A) (here : list[i]? = some old) :
    (list.set i value).countP counts + (counts old).toNat = list.countP counts + (counts value).toNat := by
  induction list generalizing i with
  | nil => simp at here
  | cons head tail ih =>
    cases i with
    | zero =>
      obtain rfl : head = old := by simpa using here
      cases first : counts head <;> cases last : counts value <;> simp [first, last]
    | succ i =>
      have rest := ih (by simpa using here)
      simp only [List.set_cons_succ, List.countP_cons]
      omega

end List

end Tally
