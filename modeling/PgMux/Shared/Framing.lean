import Mathlib.Data.List.Basic
import Mathlib.Data.List.TakeDrop
import Mathlib.Tactic.Common

set_option autoImplicit false

/-!
# Length-prefixed framing

A message is a header of fixed size followed by a body whose size the header determines. `advance`
reads a stream one element at a time and knows only where in a message it stands, so it does not see
how the stream was cut into reads.
-/

namespace Framing

structure Format (B : Type) where
  headerSize : Nat
  bodySize : List B → Nat
  header_pos : 0 < headerSize

inductive Position (B : Type) where
  | header (seen : List B)
  | body (left : Nat)
deriving DecidableEq

variable {B : Type}

abbrev boundary : Position B := .header []

def enter : Nat → Position B
  | 0 => boundary
  | left + 1 => .body (left + 1)

def feed (f : Format B) : Position B → B → Position B
  | .header seen, b =>
    if seen.length + 1 < f.headerSize then .header (seen ++ [b]) else enter (f.bodySize (seen ++ [b]))
  | .body left, _ => enter (left - 1)

def advance (f : Format B) (p : Position B) (bytes : List B) : Position B :=
  bytes.foldl (feed f) p

def AtBoundary (f : Format B) (bytes : List B) : Prop :=
  advance f boundary bytes = boundary

instance (f : Format B) [DecidableEq B] (bytes : List B) : Decidable (AtBoundary f bytes) :=
  inferInstanceAs (Decidable (_ = _))

structure IsFrame (f : Format B) (bytes : List B) : Prop where
  header : f.headerSize ≤ bytes.length
  size : bytes.length = f.headerSize + f.bodySize (bytes.take f.headerSize)

@[simp] theorem advance_nil (f : Format B) (p : Position B) : advance f p [] = p := rfl

theorem advance_append (f : Format B) (p : Position B) (first second : List B) :
    advance f p (first ++ second) = advance f (advance f p first) second :=
  List.foldl_append

theorem atBoundary_nil (f : Format B) : AtBoundary f [] := rfl

@[simp] theorem enter_eq_boundary {left : Nat} : (enter left : Position B) = boundary ↔ left = 0 := by
  cases left <;> simp [enter, boundary]

theorem advance_header (f : Format B) (seen bytes : List B)
    (short : seen.length + bytes.length < f.headerSize) :
    advance f (.header seen) bytes = .header (seen ++ bytes) := by
  induction bytes generalizing seen with
  | nil => simp
  | cons b rest ih =>
    simp only [List.length_cons] at short
    have next : feed f (.header seen) b = .header (seen ++ [b]) := if_pos (by omega)
    have step := ih (seen ++ [b]) (by simp; omega)
    simpa [advance, next] using step

theorem advance_header_full (f : Format B) (seen bytes : List B) (nonempty : bytes ≠ [])
    (full : seen.length + bytes.length = f.headerSize) :
    advance f (.header seen) bytes = enter (f.bodySize (seen ++ bytes)) := by
  obtain ⟨first, last, rfl⟩ := (List.eq_nil_or_concat' bytes).resolve_left nonempty
  simp only [List.length_append, List.length_singleton] at full
  have filled : ¬ (seen ++ first).length + 1 < f.headerSize := by simp; omega
  rw [advance_append, advance_header f seen first (by omega)]
  simp only [advance, List.foldl_cons, List.foldl_nil, feed, if_neg filled, List.append_assoc]

theorem advance_enter (f : Format B) (left : Nat) (bytes : List B) (within : bytes.length ≤ left) :
    advance f (enter left) bytes = enter (left - bytes.length) := by
  induction bytes generalizing left with
  | nil => simp
  | cons b rest ih =>
    cases left with
    | zero => simp at within
    | succ left =>
      simp only [List.length_cons, Nat.add_le_add_iff_right] at within
      have step := ih left within
      simpa [advance, enter, feed, Nat.add_sub_add_right] using step

theorem advance_into (f : Format B) (header body : List B)
    (size : header.length = f.headerSize) (within : body.length ≤ f.bodySize header) :
    advance f boundary (header ++ body) = enter (f.bodySize header - body.length) := by
  have nonempty : header ≠ [] := by
    rintro rfl
    have := f.header_pos
    simp at size
    omega
  rw [advance_append, advance_header_full f [] header nonempty (by simpa using size),
    List.nil_append, advance_enter f _ body within]

theorem IsFrame.split {f : Format B} {bytes : List B} (frame : IsFrame f bytes) :
    ∃ header body, bytes = header ++ body ∧ header.length = f.headerSize ∧
      body.length = f.bodySize header := by
  refine ⟨bytes.take f.headerSize, bytes.drop f.headerSize, (List.take_append_drop _ _).symm, ?_, ?_⟩
  · rw [List.length_take, Nat.min_eq_left frame.header]
  · have := frame.size
    simp only [List.length_drop]
    omega

theorem isFrame_append {f : Format B} {header body : List B} (size : header.length = f.headerSize)
    (fits : body.length = f.bodySize header) : IsFrame f (header ++ body) := by
  constructor <;> simp [← size, fits]

theorem IsFrame.ne_nil {f : Format B} {bytes : List B} (frame : IsFrame f bytes) : bytes ≠ [] := by
  rintro rfl
  have := f.header_pos
  have := frame.header
  simp at this
  omega

theorem IsFrame.atBoundary {f : Format B} {bytes : List B} (frame : IsFrame f bytes) :
    AtBoundary f bytes := by
  obtain ⟨header, body, rfl, size, fits⟩ := frame.split
  rw [AtBoundary, advance_into f header body size (by omega), fits]
  simp

theorem atBoundary_append {f : Format B} {first : List B} (whole : AtBoundary f first)
    (second : List B) : AtBoundary f (first ++ second) ↔ AtBoundary f second := by
  rw [AtBoundary, AtBoundary, advance_append, whole]

theorem AtBoundary.append {f : Format B} {first second : List B} (whole : AtBoundary f first)
    (rest : AtBoundary f second) : AtBoundary f (first ++ second) :=
  (atBoundary_append whole second).mpr rest

theorem atBoundary_flatten {f : Format B} {frames : List (List B)}
    (each : ∀ frame ∈ frames, IsFrame f frame) : AtBoundary f frames.flatten := by
  induction frames with
  | nil => exact atBoundary_nil f
  | cons frame rest ih =>
    exact (each frame (by simp)).atBoundary.append (ih fun other member => each other (by simp [member]))

theorem AtBoundary.first {f : Format B} {bytes : List B} (whole : AtBoundary f bytes)
    (nonempty : bytes ≠ []) : ∃ frame rest, IsFrame f frame ∧ bytes = frame ++ rest := by
  by_cases short : bytes.length < f.headerSize
  · rw [AtBoundary, advance_header f [] bytes (by simpa using short)] at whole
    simp [boundary] at whole
    exact absurd whole nonempty
  · let header := bytes.take f.headerSize
    let body := bytes.drop f.headerSize
    have size : header.length = f.headerSize := by simp [header]; omega
    have glued : bytes = header ++ body := (List.take_append_drop _ _).symm
    by_cases within : f.bodySize header ≤ body.length
    · refine ⟨header ++ body.take (f.bodySize header), body.drop (f.bodySize header), ?_, ?_⟩
      · exact isFrame_append size (by rw [List.length_take, Nat.min_eq_left within])
      · rw [List.append_assoc, List.take_append_drop, ← glued]
    · rw [AtBoundary, glued, advance_into f header body size (by omega), enter_eq_boundary] at whole
      omega

/-- No frame is a proper start of another one, so a stream splits into frames in one way only. -/
theorem IsFrame.append_inj {f : Format B} {left right restLeft restRight : List B}
    (frameLeft : IsFrame f left) (frameRight : IsFrame f right)
    (same : left ++ restLeft = right ++ restRight) : left = right ∧ restLeft = restRight := by
  have headers : left.take f.headerSize = right.take f.headerSize := by
    have taken := congrArg (List.take f.headerSize) same
    rwa [List.take_append_of_le_length frameLeft.header,
      List.take_append_of_le_length frameRight.header] at taken
  apply List.append_inj same
  rw [frameLeft.size, frameRight.size, headers]

theorem frames_comparable {f : Format B} {left right : List (List B)} {restLeft restRight : List B}
    (framesLeft : ∀ frame ∈ left, IsFrame f frame) (framesRight : ∀ frame ∈ right, IsFrame f frame)
    (same : left.flatten ++ restLeft = right.flatten ++ restRight) :
    (∃ more, right = left ++ more ∧ restLeft = more.flatten ++ restRight) ∨
      ∃ more, left = right ++ more ∧ restRight = more.flatten ++ restLeft := by
  induction left generalizing right with
  | nil => exact .inl ⟨right, rfl, by simpa using same⟩
  | cons frame left ih =>
    cases right with
    | nil => exact .inr ⟨frame :: left, rfl, by simpa using same.symm⟩
    | cons other right =>
      simp only [List.flatten_cons, List.append_assoc] at same
      obtain ⟨rfl, tails⟩ := (framesLeft frame (by simp)).append_inj (framesRight other (by simp)) same
      obtain ⟨more, rfl, rest⟩ | ⟨more, rfl, rest⟩ := ih
        (fun one member => framesLeft one (by simp [member]))
        (fun one member => framesRight one (by simp [member])) tails
      · exact .inl ⟨more, rfl, rest⟩
      · exact .inr ⟨more, rfl, rest⟩

theorem AtBoundary.take_of_flatten {f : Format B} {frames : List (List B)} {first second : List B}
    (each : ∀ frame ∈ frames, IsFrame f frame) (whole : AtBoundary f first)
    (same : frames.flatten = first ++ second) :
    ∃ k, first = (frames.take k).flatten ∧ second = (frames.drop k).flatten := by
  induction frames generalizing first with
  | nil =>
    obtain ⟨rfl, rfl⟩ : first = [] ∧ second = [] := by simpa using same
    exact ⟨0, by simp⟩
  | cons frame rest ih =>
    by_cases empty : first = []
    · subst empty
      exact ⟨0, by simp, by simpa using same.symm⟩
    · obtain ⟨other, tail, isFrame, rfl⟩ := whole.first empty
      have frameHere := each frame (by simp)
      simp only [List.flatten_cons, List.append_assoc] at same
      obtain ⟨rfl, tails⟩ := frameHere.append_inj isFrame same
      obtain ⟨k, rfl, rfl⟩ := ih (fun other member => each other (by simp [member]))
        ((atBoundary_append frameHere.atBoundary tail).mp whole) tails
      exact ⟨k + 1, by simp, by simp⟩

theorem AtBoundary.frames {f : Format B} {bytes : List B} (whole : AtBoundary f bytes) :
    ∃ frames : List (List B), (∀ frame ∈ frames, IsFrame f frame) ∧ bytes = frames.flatten := by
  induction length : bytes.length using Nat.strongRecOn generalizing bytes with
  | ind n ih =>
    by_cases empty : bytes = []
    · exact ⟨[], by simp, by simpa using empty⟩
    · obtain ⟨frame, rest, isFrame, rfl⟩ := whole.first empty
      have shorter : rest.length < n := by
        have := List.length_pos_iff.mpr isFrame.ne_nil
        simp only [List.length_append] at length
        omega
      obtain ⟨frames, each, rfl⟩ := ih rest.length shorter ((atBoundary_append isFrame.atBoundary rest).mp whole) rfl
      refine ⟨frame :: frames, ?_, by simp⟩
      simpa using ⟨isFrame, each⟩

-- Less than the first of the frames.
def PartOfNext (frames : List (List B)) (part : List B) : Prop :=
  part = [] ∨ ∃ frame ∈ frames.head?, part <+: frame ∧ part ≠ frame

theorem split_prefix {frames : List (List B)} {bytes : List B} (start : bytes <+: frames.flatten) :
    ∃ first after part, frames = first ++ after ∧ bytes = first.flatten ++ part ∧ PartOfNext after part := by
  induction frames generalizing bytes with
  | nil => exact ⟨[], [], [], rfl, by simpa using start, .inl rfl⟩
  | cons frame rest ih =>
    by_cases whole : frame <+: bytes
    · obtain ⟨tail, rfl⟩ := whole
      rw [List.flatten_cons, List.prefix_append_right_inj] at start
      obtain ⟨first, after, part, rfl, rfl, next⟩ := ih start
      exact ⟨frame :: first, after, part, rfl, by simp, next⟩
    · refine ⟨[], frame :: rest, bytes, rfl, rfl, .inr ⟨frame, rfl, ?_, ?_⟩⟩
      · exact (List.prefix_or_prefix_of_prefix start (List.prefix_append _ _)).resolve_right whole
      · rintro rfl
        exact whole (List.prefix_refl _)

theorem PartOfNext.empty {f : Format B} {frames : List (List B)} {part : List B}
    (each : ∀ frame ∈ frames, IsFrame f frame) (next : PartOfNext frames part) (whole : AtBoundary f part) :
    part = [] := by
  obtain empty | ⟨frame, first, ⟨tail, same⟩, short⟩ := next
  · exact empty
  · by_contra nonempty
    obtain ⟨other, rest, isFrame, rfl⟩ := whole.first nonempty
    have here := each frame (List.mem_of_head? first)
    rw [List.append_assoc, ← List.append_nil frame] at same
    obtain ⟨rfl, behind⟩ := isFrame.append_inj here same
    rw [(List.append_eq_nil_iff.mp behind).1, List.append_nil] at short
    exact short rfl

theorem frames_prefix {f : Format B} {frames all : List (List B)} {rest : List B}
    (each : ∀ frame ∈ frames, IsFrame f frame) (whole : ∀ frame ∈ all, IsFrame f frame)
    (start : frames.flatten ++ rest <+: all.flatten) : ∃ more, all = frames ++ more ∧ rest <+: more.flatten := by
  obtain ⟨later, same⟩ := start
  rw [List.append_assoc, ← List.append_nil all.flatten] at same
  obtain ⟨more, rfl, behind⟩ | ⟨more, rfl, behind⟩ := frames_comparable each whole same
  · exact ⟨more, rfl, ⟨later, by simpa using behind⟩⟩
  · obtain ⟨gone, none⟩ := List.append_eq_nil_iff.mp behind.symm
    rcases more with _ | ⟨frame, others⟩
    · exact ⟨[], by simp, ⟨later, by simpa using none⟩⟩
    · have empty : frame = [] := (List.append_eq_nil_iff.mp gone).1
      exact absurd empty (each frame (by simp)).ne_nil

end Framing
