import Mathlib.Data.List.TakeWhile
import Mathlib.Tactic.Common

set_option autoImplicit false

/-!
# Fields that end at a delimiter

A field is what stands in front of the first delimiter of a text, or the whole text where it has none.
-/

namespace Delimited

variable {B : Type} [DecidableEq B] {d : B}

theorem takeWhile_clean {text : List B} (clean : d ∉ text) : text.takeWhile (· ≠ d) = text := by
  rw [List.takeWhile_eq_self_iff]
  exact fun b member => decide_eq_true fun same => clean (same ▸ member)

theorem dropWhile_clean {text : List B} (clean : d ∉ text) : text.dropWhile (· ≠ d) = [] := by
  rw [List.dropWhile_eq_nil_iff]
  exact fun b member => decide_eq_true fun same => clean (same ▸ member)

theorem takeWhile_field {field : List B} (clean : d ∉ field) (rest : List B) :
    (field ++ d :: rest).takeWhile (· ≠ d) = field := by
  induction field with
  | nil => simp
  | cons b field ih =>
    have other : b ≠ d := fun same => clean (by simp [same])
    rw [List.cons_append, List.takeWhile_cons_of_pos (by simpa using other),
      ih fun member => clean (by simp [member])]

theorem dropWhile_field {field : List B} (clean : d ∉ field) (rest : List B) :
    (field ++ d :: rest).dropWhile (· ≠ d) = d :: rest := by
  induction field with
  | nil => simp
  | cons b field ih =>
    have other : b ≠ d := fun same => clean (by simp [same])
    rw [List.cons_append, List.dropWhile_cons_of_pos (by simpa using other),
      ih fun member => clean (by simp [member])]

theorem notMem_takeWhile (d : B) (text : List B) : d ∉ text.takeWhile (· ≠ d) := by
  intro member
  simpa using List.mem_takeWhile_imp member

theorem dropWhile_cases (d : B) (text : List B) :
    (text.dropWhile (· ≠ d) = [] ∧ text = text.takeWhile (· ≠ d)) ∨
      ∃ rest, text.dropWhile (· ≠ d) = d :: rest ∧ text = text.takeWhile (· ≠ d) ++ d :: rest := by
  have whole : text.takeWhile (· ≠ d) ++ text.dropWhile (· ≠ d) = text := List.takeWhile_append_dropWhile
  cases behind : text.dropWhile (· ≠ d) with
  | nil =>
    rw [behind, List.append_nil] at whole
    exact .inl ⟨rfl, whole.symm⟩
  | cons b rest =>
    have stops := @List.head_dropWhile_not B (· ≠ d) text (by rw [behind]; exact List.cons_ne_nil b rest)
    simp only [behind, List.head_cons, decide_eq_false_iff_not, not_not] at stops
    subst stops
    rw [behind] at whole
    exact .inr ⟨rest, rfl, whole.symm⟩

theorem drop_field (d : B) (text : List B) :
    text.drop (text.takeWhile (· ≠ d)).length = text.dropWhile (· ≠ d) := by
  have whole : text.takeWhile (· ≠ d) ++ text.dropWhile (· ≠ d) = text := List.takeWhile_append_dropWhile
  calc text.drop (text.takeWhile (· ≠ d)).length
      = (text.takeWhile (· ≠ d) ++ text.dropWhile (· ≠ d)).drop (text.takeWhile (· ≠ d)).length := by
        rw [whole]
    _ = text.dropWhile (· ≠ d) := List.drop_left

end Delimited
