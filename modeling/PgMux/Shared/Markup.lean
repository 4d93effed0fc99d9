import Mathlib.Data.List.Infix
import Mathlib.Tactic.Common

set_option autoImplicit false

/-!
# Texts inside marked-up text

A `<` opens a tag when a letter, a slash, an exclamation mark or a question mark follows it. A text that is
put between others opens what it opens by itself, unless the seam makes a tag of its own.
-/

namespace Markup

def opener (c : Char) : Bool := c.isAlpha || c == '/' || c == '!' || c == '?'

/-- The tags that a text opens: what follows each `<` that opens one. -/
def opens : List Char → List Char
  | [] => []
  | c :: rest => (if c = '<' then (rest.head?.filter opener).toList else []) ++ opens rest

theorem opens_append {first second : List Char}
    (apart : first.getLast? = some '<' → second.head?.filter opener = none) :
    opens (first ++ second) = opens first ++ opens second := by
  induction first with
  | nil => rfl
  | cons c rest ih =>
    cases rest with
    | nil =>
      by_cases open_ : c = '<'
      · subst open_
        simp [opens, apart rfl]
      · simp [opens, open_]
    | cons d rest =>
      have tail := ih (by simpa using apart)
      rw [List.cons_append, opens, tail, ← List.append_assoc]
      rfl

-- The first text does not end in a `<`.
theorem opens_append_of_last {first second : List Char} (last : first.getLast? ≠ some '<') :
    opens (first ++ second) = opens first ++ opens second :=
  opens_append fun open_ => absurd open_ last

-- The second text does not begin with a character that makes a tag.
theorem opens_append_of_head {first second : List Char} (head : second.head?.filter opener = none) :
    opens (first ++ second) = opens first ++ opens second :=
  opens_append fun _ => head

theorem opens_intercalate {sep : Char} (inert : opener sep = false) (plain : sep ≠ '<') (texts : List (List Char)) :
    opens ([sep].intercalate texts) = (texts.map opens).flatten := by
  induction texts with
  | nil => rfl
  | cons text texts ih =>
    cases texts with
    | nil => simp
    | cons next texts =>
      rw [List.intercalate_cons_cons, List.append_assoc, opens_append_of_head (by simp [inert]),
        opens_append_of_last (by simpa using plain), ih]
      simp [opens, plain]

section Infix

variable {A : Type} {word first second : List A} {a : A}

theorem infix_append_separator (foreign : a ∉ word) :
    word <:+: first ++ a :: second ↔ word <:+: first ∨ word <:+: second := by
  constructor
  · intro inside
    obtain left | right | ⟨front, back, rfl, ends, begins⟩ := List.infix_append_iff.mp inside
    · exact .inl left
    · obtain begins | later := List.infix_cons_iff.mp right
      · cases word with
        | nil => exact .inl List.nil_infix
        | cons b rest =>
          obtain ⟨rfl, -⟩ := List.cons_prefix_cons.mp begins
          exact absurd List.mem_cons_self foreign
      · exact .inr later
    · cases back with
      | nil =>
        rw [List.append_nil]
        exact .inl ends.isInfix
      | cons b rest =>
        obtain ⟨rfl, -⟩ := List.cons_prefix_cons.mp begins
        exact absurd (by simp) foreign
  · rintro (left | right)
    · exact List.infix_append_of_infix_left left
    · exact List.infix_append_of_infix_right (List.infix_cons right)

theorem infix_append_of_notMem (foreign : a ∉ first) :
    a :: word <:+: first ++ second ↔ a :: word <:+: second := by
  constructor
  · intro inside
    obtain left | right | ⟨front, back, whole, ends, begins⟩ := List.infix_append_iff.mp inside
    · exact absurd (left.subset List.mem_cons_self) foreign
    · exact right
    · cases front with
      | nil =>
        rw [List.nil_append] at whole
        exact whole ▸ begins.isInfix
      | cons b rest =>
        obtain ⟨rfl, -⟩ := List.cons.inj whole
        exact absurd (ends.subset List.mem_cons_self) foreign
  · exact List.infix_append_of_infix_right

theorem not_infix_of_notMem (foreign : a ∉ first) : ¬ a :: word <:+: first :=
  fun inside => foreign (inside.subset List.mem_cons_self)

theorem infix_intercalate_of_mem {texts : List (List A)} (member : first ∈ texts) (sep : List A) :
    first <:+: sep.intercalate texts := by
  induction texts with
  | nil => cases member
  | cons text texts ih =>
    cases texts with
    | nil =>
      obtain rfl := List.mem_singleton.mp member
      simp
    | cons next texts =>
      rw [List.intercalate_cons_cons]
      obtain rfl | later := List.mem_cons.mp member
      · exact List.infix_append_of_infix_left List.infix_append_left
      · exact List.infix_append_of_infix_right (ih later)

theorem infix_intercalate (some_ : word ≠ []) (foreign : a ∉ word) (texts : List (List A)) :
    word <:+: [a].intercalate texts ↔ ∃ text ∈ texts, word <:+: text := by
  induction texts with
  | nil => simpa using some_
  | cons text texts ih =>
    cases texts with
    | nil => simp
    | cons next texts =>
      rw [List.intercalate_cons_cons, List.append_assoc, List.singleton_append, infix_append_separator foreign, ih]
      simp

end Infix

/-- Some characters are escaped, with a backslash in front; the others are not. -/
structure Escapes (escape : Char → List Char) (special : Char → Prop) : Prop where
  plain : ∀ c, ¬ special c → escape c = [c]
  marked : ∀ c, special c → ∃ rest, escape c = '\\' :: rest ∧ '<' ∉ rest
  backslash : special '\\'

section Escapes

variable {escape : Char → List Char} {special : Char → Prop} (escapes : Escapes escape special)

include escapes

theorem prefix_escaped {word : List Char} (clean : ∀ c ∈ word, ¬ special c) (text : List Char) :
    word <+: text.flatMap escape ↔ word <+: text := by
  induction text generalizing word with
  | nil => rfl
  | cons c rest ih =>
    cases word with
    | nil => simp
    | cons b word =>
      have later := @ih word fun d member => clean d (List.mem_cons_of_mem b member)
      rw [List.flatMap_cons]
      by_cases escaped : special c
      · obtain ⟨more, marked, -⟩ := escapes.marked c escaped
        have ordinary := clean b List.mem_cons_self
        constructor
        · intro begins
          rw [marked, List.cons_append] at begins
          obtain ⟨rfl, -⟩ := List.cons_prefix_cons.mp begins
          exact absurd escapes.backslash ordinary
        · intro begins
          obtain ⟨rfl, -⟩ := List.cons_prefix_cons.mp begins
          exact absurd escaped ordinary
      · rw [escapes.plain c escaped, List.singleton_append, List.cons_prefix_cons, List.cons_prefix_cons, later]

theorem infix_escaped {word : List Char} (open_ : ¬ special '<') (clean : ∀ c ∈ word, ¬ special c) (text : List Char) :
    '<' :: word <:+: text.flatMap escape ↔ '<' :: word <:+: text := by
  induction text with
  | nil => rfl
  | cons c rest ih =>
    rw [List.flatMap_cons]
    by_cases escaped : special c
    · obtain ⟨more, marked, clear⟩ := escapes.marked c escaped
      have outside : '<' ∉ escape c := by
        rw [marked]
        simpa using clear
      have other : '<' ∉ [c] := by
        rintro same
        obtain rfl := List.mem_singleton.mp same
        exact open_ escaped
      rw [infix_append_of_notMem outside, ih, ← infix_append_of_notMem other]
      rfl
    · have whole : ∀ d ∈ '<' :: word, ¬ special d := by simpa [open_] using clean
      have front := prefix_escaped escapes whole (c :: rest)
      rw [List.flatMap_cons, escapes.plain c escaped] at front
      rw [escapes.plain c escaped, List.singleton_append, List.infix_cons_iff, List.infix_cons_iff, ih]
      exact or_congr_left front

end Escapes

end Markup
