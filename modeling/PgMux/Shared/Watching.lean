import PgMux.Shared.Framing

set_option autoImplicit false

/-!
# Watching the bodies of selected frames

A reader of a framed stream that looks at one kind of frame only: it gives out the first element of
the body of every frame whose header is selected. It is armed between the header of such a frame and
that element.
-/

namespace Framing

structure Watch (B : Type) where
  position : Position B := boundary
  armed : Bool := false
deriving DecidableEq

variable {B : Type} (f : Format B) (select : List B → Bool)

def Watch.feed (w : Watch B) (b : B) : Watch B where
  position := Framing.feed f w.position b
  armed :=
    match w.position with
    | .header seen => decide (f.headerSize ≤ seen.length + 1) && select (seen ++ [b])
    | .body _ => false

def Watch.follow (w : Watch B) (bytes : List B) : Watch B := bytes.foldl (Watch.feed f select) w

def Watch.seen : Watch B → List B → List B
  | _, [] => []
  | w, b :: rest => (if w.armed then [b] else []) ++ Watch.seen (w.feed f select b) rest

namespace Watch

variable {f select}

@[simp] theorem follow_nil (w : Watch B) : w.follow f select [] = w := rfl

@[simp] theorem seen_nil (w : Watch B) : w.seen f select [] = [] := rfl

theorem follow_append (w : Watch B) (first second : List B) :
    w.follow f select (first ++ second) = (w.follow f select first).follow f select second :=
  List.foldl_append

theorem seen_append (w : Watch B) (first second : List B) :
    w.seen f select (first ++ second) =
      w.seen f select first ++ (w.follow f select first).seen f select second := by
  induction first generalizing w with
  | nil => rfl
  | cons b rest ih =>
    simp only [List.cons_append, seen, ih, List.append_assoc]
    rfl

theorem follow_position (w : Watch B) (bytes : List B) :
    (w.follow f select bytes).position = advance f w.position bytes := by
  induction bytes generalizing w with
  | nil => rfl
  | cons b rest ih => exact ih (w.feed f select b)

theorem seen_cons (w : Watch B) (b : B) (rest : List B) :
    w.seen f select (b :: rest) =
      (if w.armed then [b] else []) ++ ({ w with armed := false } : Watch B).seen f select (b :: rest) := by
  simp only [seen, feed, Bool.false_eq_true, if_false, List.nil_append]

theorem header_short (seen bytes : List B) (short : seen.length + bytes.length < f.headerSize) :
    (⟨.header seen, false⟩ : Watch B).follow f select bytes = ⟨.header (seen ++ bytes), false⟩ ∧
      (⟨.header seen, false⟩ : Watch B).seen f select bytes = [] := by
  induction bytes generalizing seen with
  | nil => simp
  | cons b rest ih =>
    simp only [List.length_cons] at short
    have next : (⟨.header seen, false⟩ : Watch B).feed f select b = ⟨.header (seen ++ [b]), false⟩ := by
      have within : seen.length + 1 < f.headerSize := by omega
      simp [Watch.feed, Framing.feed, within, Nat.not_le.mpr within]
    obtain ⟨after, nothing⟩ := ih (seen ++ [b]) (by simp; omega)
    constructor
    · simpa [follow, next] using after
    · simpa [Watch.seen, next] using nothing

theorem header_full (seen bytes : List B) (nonempty : bytes ≠ [])
    (full : seen.length + bytes.length = f.headerSize) :
    (⟨.header seen, false⟩ : Watch B).follow f select bytes =
        ⟨enter (f.bodySize (seen ++ bytes)), select (seen ++ bytes)⟩ ∧
      (⟨.header seen, false⟩ : Watch B).seen f select bytes = [] := by
  obtain ⟨first, last, rfl⟩ := (List.eq_nil_or_concat' bytes).resolve_left nonempty
  simp only [List.length_append, List.length_singleton] at full
  obtain ⟨after, nothing⟩ := @header_short B f select seen first (by omega)
  have filled : f.headerSize ≤ (seen ++ first).length + 1 := by simp; omega
  constructor
  · rw [follow_append, after]
    simp [follow, Watch.feed, Framing.feed, Nat.not_lt.mpr filled, filled, -List.length_append]
  · rw [seen_append, after, nothing]
    simp [Watch.seen]

theorem body (left : Nat) (bytes : List B) (within : bytes.length ≤ left) :
    (⟨enter left, false⟩ : Watch B).follow f select bytes = ⟨enter (left - bytes.length), false⟩ ∧
      (⟨enter left, false⟩ : Watch B).seen f select bytes = [] := by
  induction bytes generalizing left with
  | nil => simp
  | cons b rest ih =>
    cases left with
    | zero => simp at within
    | succ left =>
      simp only [List.length_cons, Nat.add_le_add_iff_right] at within
      have next : (⟨enter (left + 1), false⟩ : Watch B).feed f select b = ⟨enter left, false⟩ := by
        simp [Watch.feed, Framing.feed, enter]
      obtain ⟨after, nothing⟩ := ih left within
      constructor
      · simpa [follow, next] using after
      · simpa [Watch.seen, next] using nothing

theorem started {header : List B} (size : header.length = f.headerSize) (part : List B)
    (within : part.length ≤ f.bodySize header) :
    ({} : Watch B).follow f select (header ++ part) =
        ⟨enter (f.bodySize header - part.length), select header && part.isEmpty⟩ ∧
      ({} : Watch B).seen f select (header ++ part) = if select header then part.take 1 else [] := by
  have nonempty : header ≠ [] := by
    rintro rfl
    have := f.header_pos
    simp at size
    omega
  obtain ⟨filled, nothing⟩ := @header_full B f select [] header nonempty (by simpa using size)
  rw [List.nil_append] at filled
  rw [follow_append, seen_append, filled, nothing, List.nil_append]
  cases part with
  | nil => simp
  | cons b rest =>
    obtain ⟨left, larger⟩ : ∃ left, f.bodySize header = left + 1 :=
      ⟨f.bodySize header - 1, by simp at within; omega⟩
    rw [larger, List.length_cons] at within
    have next : (⟨enter (left + 1), select header⟩ : Watch B).feed f select b = ⟨enter left, false⟩ := by
      simp [Watch.feed, Framing.feed, enter]
    obtain ⟨after, silent⟩ := @body B f select left rest (by omega)
    constructor
    · simpa [follow, larger, next] using after
    · simp only [Watch.seen, larger, next, silent, List.append_nil, List.take_succ_cons, List.take_zero]

section Frames

variable (selects : ∀ header, select header = true → 0 < f.bodySize header)
include selects

theorem frame {header : List B} (size : header.length = f.headerSize) {whole : List B}
    (fits : whole.length = f.bodySize header) :
    ({} : Watch B).follow f select (header ++ whole) = {} ∧
      ({} : Watch B).seen f select (header ++ whole) = if select header then whole.take 1 else [] := by
  obtain ⟨after, saw⟩ := @started B f select header size whole (by omega)
  refine ⟨?_, saw⟩
  have unarmed : (select header && whole.isEmpty) = false := by
    cases selected : select header with
    | false => rfl
    | true =>
      have positive := selects header selected
      cases whole with
      | nil => simp at fits; omega
      | cons b rest => rfl
  rw [after, unarmed, fits, Nat.sub_self]
  rfl

theorem seen_frames {frames : List (List B)} (each : ∀ frame ∈ frames, IsFrame f frame)
    (rest : List B) :
    ({} : Watch B).seen f select (frames.flatten ++ rest) =
      frames.flatMap (fun frame => if select (frame.take f.headerSize)
        then (frame.drop f.headerSize).take 1 else []) ++ ({} : Watch B).seen f select rest := by
  induction frames with
  | nil => simp
  | cons frame others ih =>
    obtain ⟨header, whole, rfl, size, fits⟩ := (each frame (by simp)).split
    obtain ⟨after, saw⟩ := Watch.frame selects size fits
    rw [List.flatten_cons, List.append_assoc, seen_append, after, saw,
      ih fun other member => each other (by simp [member])]
    simp [← size]

end Frames

end Watch

end Framing
