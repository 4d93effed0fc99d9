import Mathlib.Data.List.Infix
import Mathlib.Data.List.TakeWhile
import PgMux.Messages

set_option autoImplicit false

namespace PgMux

/-- The parts of a text between semicolons. They are its statements if it has no quotes and no
comments. -/
def statements (text : String) : List (List Char) := text.toList.splitOn ';'

def Blank (statement : List Char) : Prop := trim statement = []

instance (statement : List Char) : Decidable (Blank statement) := inferInstanceAs (Decidable (_ = _))

def BeginsWith (word statement : List Char) : Prop := word <+: (trim statement).map Char.toUpper

def shrinkWords : List (List Char) :=
  ["DELETE".toList, "TRUNCATE".toList, "DROP".toList, "VACUUM".toList]

def BeginsShrink (statement : List Char) : Prop := ∃ word ∈ shrinkWords, BeginsWith word statement

instance (word statement : List Char) : Decidable (BeginsWith word statement) :=
  inferInstanceAs (Decidable (_ <+: _))

instance (statement : List Char) : Decidable (BeginsShrink statement) :=
  inferInstanceAs (Decidable (∃ _ ∈ _, _))

theorem prefix_append_iff {A : Type} {word front back : List A} (foreign : ∀ c ∈ back.head?, c ∉ word) :
    word <+: front ++ back ↔ word <+: front := by
  constructor
  · intro begins
    obtain inside | longer := List.prefix_or_prefix_of_prefix begins (List.prefix_append front back)
    · exact inside
    · obtain ⟨rest, rfl⟩ := longer
      have behind : rest <+: back := (List.prefix_append_right_inj front).mp begins
      cases rest with
      | nil => simp
      | cons c others =>
        obtain ⟨more, rfl⟩ := behind
        exact absurd (by simp) (foreign c rfl)
  · exact fun begins => begins.trans (List.prefix_append front back)

theorem toUpper_of_isWhitespace {c : Char} (blank : isWhitespace c = true) : c.toUpper = c := by
  refine toUpper_of_not_lower ?_
  simp only [isWhitespace, Bool.or_eq_true, Bool.and_eq_true, decide_eq_true_eq, beq_iff_eq] at blank
  omega

-- What the characters outside ASCII become whose upper case has an ASCII character.
def expansions : List (List Char) :=
  [['S', 'S'], ['I'], [Char.ofNat 0x2bc, 'N'], ['S'], ['J', Char.ofNat 0x30c], ['H', Char.ofNat 0x331],
    ['T', Char.ofNat 0x308], ['W', Char.ofNat 0x30a], ['Y', Char.ofNat 0x30a], ['A', Char.ofNat 0x2be],
    ['F', 'F'], ['F', 'I'], ['F', 'L'], ['F', 'F', 'I'], ['F', 'F', 'L'], ['S', 'T']]

theorem upperChar_cases (c : Char) :
    upperChar c = [c.toUpper] ∨ (upperChar c ∈ expansions ∧ 128 ≤ c.toNat) := by
  simp only [upperChar]
  split <;> simp [expansions, *]

/-- A word that stands alone: no character of another text continues into it, and none outside ASCII
becomes a part of it in upper case. -/
structure Keyword (word : List Char) : Prop where
  ascii : ∀ c ∈ word, c.toNat < 128
  solid : ∀ c ∈ word, isWhitespace c = false ∧ c ≠ ';'
  unexpanded : ∀ part ∈ word.tails, part ≠ [] → ∀ expansion ∈ expansions,
    ¬ part <+: expansion ∧ ¬ expansion <+: part

theorem keyword_of_shrinkWords : ∀ word ∈ shrinkWords, Keyword word := by
  have all : ∀ word ∈ shrinkWords,
      word.all (fun c => c.toNat < 128 && !isWhitespace c && c != ';') = true ∧
      ∀ part ∈ word.tails, part ≠ [] → ∀ expansion ∈ expansions,
        ¬ part <+: expansion ∧ ¬ expansion <+: part := by decide
  intro word member
  obtain ⟨each, unexpanded⟩ := all word member
  simp only [List.all_eq_true, Bool.and_eq_true, decide_eq_true_eq, Bool.not_eq_true', bne_iff_ne] at each
  exact ⟨fun c inside => (each c inside).1.1,
    fun c inside => ⟨(each c inside).1.2, (each c inside).2⟩, unexpanded⟩

-- The induction is on the text; the word that is left to match is a tail of the keyword.
theorem prefix_toUppercase {word : List Char} (ascii : ∀ c ∈ word, c.toNat < 128)
    (unexpanded : ∀ part ∈ word.tails, part ≠ [] → ∀ expansion ∈ expansions,
      ¬ part <+: expansion ∧ ¬ expansion <+: part) (text : List Char) :
    word <+: toUppercase text ↔ word <+: text.map Char.toUpper := by
  induction text generalizing word with
  | nil => simp [toUppercase]
  | cons c rest ih =>
    cases word with
    | nil => simp
    | cons d others =>
      obtain plain | ⟨expands, high⟩ := upperChar_cases c
      · have split : toUppercase (c :: rest) = c.toUpper :: toUppercase rest := by
          simp [toUppercase, plain]
        have tail : others <+: toUppercase rest ↔ others <+: rest.map Char.toUpper := by
          refine ih (fun e member => ascii e (by simp [member])) fun part inside => unexpanded part ?_
          rw [List.mem_tails] at inside ⊢
          exact inside.trans (List.suffix_cons d others)
        rw [split, List.map_cons, List.cons_prefix_cons, List.cons_prefix_cons, tail]
      · refine iff_of_false ?_ ?_
        · intro begins
          obtain ⟨shorter, longer⟩ := unexpanded (d :: others) (by simp) (by simp) _ expands
          exact (List.prefix_or_prefix_of_prefix begins
            (List.prefix_append (upperChar c) (toUppercase rest))).elim shorter longer
        · intro begins
          have same := (List.cons_prefix_cons.mp begins).1
          have low := ascii d (by simp)
          rw [same, toUpper_of_not_lower (by omega)] at low
          omega

theorem prefix_trim {word : List Char} (keyword : Keyword word) (text : List Char) :
    BeginsWith word text ↔ word <+: (text.dropWhile isWhitespace).map Char.toUpper := by
  generalize start : text.dropWhile isWhitespace = front
  have whole : front = trim text ++ (front.reverse.takeWhile isWhitespace).reverse := by
    rw [trim, start, ← List.reverse_append, List.takeWhile_append_dropWhile, List.reverse_reverse]
  rw [BeginsWith]
  conv_rhs => rw [whole, List.map_append]
  refine (prefix_append_iff ?_).symm
  intro c first inside
  rw [List.head?_map] at first
  obtain ⟨d, found, rfl⟩ := Option.map_eq_some_iff.mp first
  have blank : isWhitespace d = true :=
    List.mem_takeWhile_imp (List.mem_reverse.mp (List.mem_of_mem_head? found))
  rw [toUpper_of_isWhitespace blank] at inside
  simp [(keyword.solid d inside).1] at blank

theorem beginsWith_append {word : List Char} (keyword : Keyword word) {first rest : List Char}
    (next : ∀ c ∈ rest.head?, c = ';') : BeginsWith word (first ++ rest) ↔ BeginsWith word first := by
  have kept : rest.dropWhile isWhitespace = rest := by
    cases rest with
    | nil => rfl
    | cons c others =>
      obtain rfl := next c rfl
      rfl
  have split : (first ++ rest).dropWhile isWhitespace = first.dropWhile isWhitespace ++ rest := by
    rw [List.dropWhile_append, kept]
    split
    · rename_i empty
      rw [List.isEmpty_iff.mp empty, List.nil_append]
    · rfl
  rw [prefix_trim keyword, prefix_trim keyword, split, List.map_append]
  refine prefix_append_iff ?_
  intro c head inside
  rw [List.head?_map] at head
  obtain ⟨d, found, rfl⟩ := Option.map_eq_some_iff.mp head
  obtain rfl := next d found
  exact (keyword.solid _ inside).2 rfl

theorem splitOn_first {text first : List Char} {others : List (List Char)}
    (split : text.splitOn ';' = first :: others) :
    ∃ rest, text = first ++ rest ∧ ∀ c ∈ rest.head?, c = ';' := by
  induction text generalizing first others with
  | nil =>
    obtain ⟨rfl, rfl⟩ : [] = first ∧ [] = others := by simpa using split
    exact ⟨[], rfl, by simp⟩
  | cons c rest ih =>
    rw [List.splitOn_cons_eq_if_modifyHead] at split
    by_cases ends : c = ';'
    · obtain ⟨rfl, -⟩ : [] = first ∧ rest.splitOn ';' = others := by simpa [ends] using split
      exact ⟨c :: rest, rfl, by simp [ends]⟩
    · obtain ⟨second, more, tail⟩ := List.exists_cons_of_ne_nil (List.splitOn_ne_nil ';' rest)
      obtain ⟨left, rfl, next⟩ := ih tail
      obtain ⟨rfl, -⟩ : c :: second = first ∧ more = others := by simpa [ends, tail] using split
      exact ⟨left, rfl, next⟩

theorem isShrinkOperation_iff {text : String} {first : List Char} {later : List (List Char)}
    (split : statements text = first :: later) : isShrinkOperation text = true ↔ BeginsShrink first := by
  obtain ⟨rest, whole, next⟩ := splitOn_first split
  have each : ∀ word ∈ shrinkWords, (word <+: toUppercase (trim text.toList) ↔ BeginsWith word first) := by
    intro word member
    have keyword := keyword_of_shrinkWords word member
    rw [prefix_toUppercase keyword.ascii keyword.unexpanded, ← BeginsWith, whole,
      beginsWith_append keyword next]
  have any : isShrinkOperation text = true ↔ ∃ word ∈ shrinkWords, word <+: toUppercase (trim text.toList) := by
    simp [isShrinkOperation, shrinkWords, or_assoc]
  rw [any, BeginsShrink]
  exact exists_congr fun word => and_congr_right fun member => each word member

end PgMux
