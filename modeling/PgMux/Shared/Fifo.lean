import Mathlib.Tactic.Common

set_option autoImplicit false

/-!
# Bounded queues

A queue of at most `capacity` items. A writer offers a list and keeps what it could not put down; a reader
takes from the front.
-/

structure Fifo (A : Type) (capacity : Nat) where
  items : List A := []
  within : items.length ≤ capacity := by simp

namespace Fifo

variable {A : Type} {capacity : Nat}

def room (queue : Fifo A capacity) : Nat := capacity - queue.items.length

def Fits (queue : Fifo A capacity) (items : List A) : Prop := items.length ≤ queue.room

instance (queue : Fifo A capacity) (items : List A) : Decidable (queue.Fits items) :=
  inferInstanceAs (Decidable (_ ≤ _))

/-- At most `n` of the items are put down, and no more than there is room for. -/
def offer (queue : Fifo A capacity) (n : Nat) (items : List A) : Fifo A capacity × List A :=
  (⟨queue.items ++ items.take (min n queue.room), by
      have bound := queue.within
      simp only [List.length_append, List.length_take, room]
      omega⟩,
    items.drop (min n queue.room))

def pull (queue : Fifo A capacity) (n : Nat) : Fifo A capacity :=
  ⟨queue.items.drop n, Nat.le_trans (List.drop_sublist n queue.items).length_le queue.within⟩

@[simp] theorem fits_nil (queue : Fifo A capacity) : queue.Fits [] := Nat.zero_le _

-- Putting a part down makes no more room for the rest than there was for the whole.
@[simp] theorem fits_offer (queue : Fifo A capacity) (n : Nat) (items : List A) :
    (queue.offer n items).1.Fits (queue.offer n items).2 ↔ queue.Fits items := by
  simp only [Fits, offer, room, List.length_drop, List.length_append, List.length_take]
  omega

theorem length_offer (queue : Fifo A capacity) (n : Nat) (items : List A) :
    (queue.offer n items).1.items.length + (queue.offer n items).2.length = queue.items.length + items.length := by
  simp only [offer, List.length_append, List.length_take, List.length_drop]
  omega

theorem fits_of_add_le {queue : Fifo A capacity} {items : List A}
    (within : items.length + queue.items.length ≤ capacity) : queue.Fits items := by
  rw [Fits, room]
  omega

theorem offer_ne_nil {queue : Fifo A capacity} {items : List A} (n : Nat) (more : ¬ queue.Fits items) :
    (queue.offer n items).2 ≠ [] := by
  intro done
  have fits := (fits_offer queue n items).not.mpr more
  rw [done] at fits
  exact fits (fits_nil _)

end Fifo
