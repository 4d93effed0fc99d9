import Mathlib.Tactic.Common

set_option autoImplicit false

/-!
# A latch

Some elements of a list set it, others clear it. It says when it goes up, and no more until it has been down
again.
-/

namespace Latch

variable {A : Type} (clears sets : A → Bool)

def rises : Bool → List A → List A
  | _, [] => []
  | up, a :: rest =>
    if clears a then rises false rest
    else if sets a then (if up then [] else [a]) ++ rises true rest
    else rises up rest

theorem rises_blocks (list : List A) :
    rises clears sets false list = (list.splitOnP clears).filterMap (List.find? sets) ∧
      rises clears sets true list = (list.splitOnP clears).tail.filterMap (List.find? sets) := by
  induction list with
  | nil => simp [rises]
  | cons a rest ih =>
    obtain ⟨down, up⟩ := ih
    rw [List.splitOnP_cons_eq_if_modifyHead]
    by_cases clear : clears a = true
    · simp [rises, clear, down, List.filterMap_cons]
    · obtain ⟨block, blocks, split⟩ := List.exists_cons_of_ne_nil (List.splitOnP_ne_nil clears rest)
      rw [split] at down up ⊢
      by_cases set : sets a = true
      · simp [rises, clear, set, up]
      · simp [rises, clear, set, down, up, List.filterMap_cons]

end Latch
