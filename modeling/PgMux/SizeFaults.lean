import Mathlib.Data.List.TakeWhile
import PgMux.SizeLimits

set_option autoImplicit false

namespace PgMux

inductive DebugPanic where
  | slice (cause : Panic)
  | multiply
deriving DecidableEq, Repr

-- In a debug build the product is checked.
def parseSizeLimitDebug (s : String) : Except DebugPanic (Option Nat) :=
  let text := trim s.toList
  if text = [] ∨ text = ['0'] then .ok none
  else
    match sizeParts text with
    | .error cause => .error (.slice cause)
    | .ok (numStr, multiplier) =>
      match parseU64 (trim numStr) with
      | none => .ok none
      | some n => if n * multiplier < 2 ^ 64 then .ok (some (n * multiplier)) else .error .multiply

/-- The product does not overflow: a limit is the number of bytes that the text asks for, and a text that
asks for more than 64 bits hold gives none. -/
structure ExactOrNone (s : String) : Prop where
  checked : parseSizeLimitDebug s ≠ .error .multiply
  denoted : ∀ v, parseSizeLimit s = .ok (some v) → SizeText s v
  beyond : ∀ size, SizeText s size → 2 ^ 64 ≤ size →
    parseSizeLimit s = .ok none ∧ parseSizeLimitDebug s = .ok none

/-- The number in front of the unit is below `2 ^ 24` terabytes, `2 ^ 34` gigabytes, `2 ^ 44` megabytes or
`2 ^ 54` kilobytes, or is itself too large for 64 bits. -/
def NumberFits (s : String) : Prop :=
  ∀ rest unit n, SizeSplit (trim s.toList) rest unit → Numeral (trim rest) n → n < 2 ^ 64 / unit ∨ 2 ^ 64 ≤ n

theorem SizeSplit.lt_div {text rest : List Char} {unit : Nat} (split : SizeSplit text rest unit) (n : Nat) :
    n < 2 ^ 64 / unit ↔ n * unit < 2 ^ 64 := by
  have worth : ∀ entry ∈ unitNames, entry.2 ≠ 0 ∧ entry.2 ∣ 2 ^ 64 := by decide
  cases split with
  | unit _ name _ known whole => exact Nat.lt_div_iff_mul_lt_of_dvd (worth _ known).1 (worth _ known).2
  | bare none => rw [Nat.div_one, Nat.mul_one]

theorem Numeral.chars {text : List Char} {n : Nat} (number : Numeral text n) {c : Char} (member : c ∈ text) :
    c = '+' ∨ c.isDigit := by
  obtain ⟨sign, digits, rfl, rfl | rfl, -, all, -⟩ := number
  · exact .inr (all c member)
  · exact (List.mem_cons.mp member).imp id (all c)

theorem Numeral.unique {text : List Char} {n m : Nat} (first : Numeral text n) (second : Numeral text m) : n = m := by
  by_cases signed : ∃ rest, text = '+' :: rest
  · obtain ⟨rest, rfl⟩ := signed
    exact (numeral_plus.mp first).2.2.trans (numeral_plus.mp second).2.2.symm
  · have unsigned (rest : List Char) : text ≠ '+' :: rest := fun same => signed ⟨rest, same⟩
    exact ((numeral_bare unsigned).mp first).2.2.trans ((numeral_bare unsigned).mp second).2.2.symm

theorem mem_trim {text : List Char} {c : Char} (visible : ¬ isWhitespace c) (member : c ∈ text) : c ∈ trim text := by
  have kept {list : List Char} (member : c ∈ list) : c ∈ list.dropWhile isWhitespace := by
    rw [← List.takeWhile_append_dropWhile (p := isWhitespace) (l := list)] at member
    refine (List.mem_append.mp member).resolve_left fun early => ?_
    exact visible (List.mem_takeWhile_imp early)
  exact List.mem_reverse.mpr (kept (List.mem_reverse.mpr (kept member)))

-- No number is in front of a ligature.
theorem EndsInLigature.not_numeral {text rest : List Char} {unit n : Nat} (ends : EndsInLigature text)
    (split : SizeSplit text rest unit) : ¬ Numeral (trim rest) n := by
  intro number
  cases split with
  | unit _ name _ known whole =>
    subst whole
    exact not_endsInLigature_unit known rest ends
  | bare none =>
    obtain ⟨front, c, d, rfl, -, last⟩ := ends
    have visible : ¬ isWhitespace d := by obtain rfl | rfl := last <;> decide
    have digit := number.chars (mem_trim visible (by simp))
    obtain rfl | rfl := last
    · exact absurd digit (by decide)
    · exact absurd digit (by decide)

theorem SizeText.unique {s : String} (clean : ¬ EndsInLigature (trim s.toList)) {size other : Nat}
    (first : SizeText s size) (second : SizeText s other) : size = other := by
  obtain ⟨-, -, rest, unit, n, split, number, rfl⟩ := first
  obtain ⟨-, -, rest', unit', m, split', number', rfl⟩ := second
  have same := (sizeParts_of_split clean split).symm.trans (sizeParts_of_split clean split')
  obtain ⟨rfl, rfl⟩ := Prod.mk.inj (Except.ok.inj same)
  rw [number.unique number']

theorem parseDebug_split {s : String} (some_ : trim s.toList ≠ []) (nonzero : trim s.toList ≠ ['0'])
    (clean : ¬ EndsInLigature (trim s.toList)) {rest : List Char} {unit : Nat}
    (split : SizeSplit (trim s.toList) rest unit) :
    parseSizeLimitDebug s = match parseU64 (trim rest) with
      | none => .ok none
      | some n => if n * unit < 2 ^ 64 then .ok (some (n * unit)) else .error .multiply := by
  simp only [parseSizeLimitDebug, if_neg (not_or.mpr ⟨some_, nonzero⟩), sizeParts_of_split clean split]

theorem parse_ligature {s : String} (ends : EndsInLigature (trim s.toList)) :
    parseSizeLimit s = .error .charBoundary ∧ parseSizeLimitDebug s = .error (.slice .charBoundary) := by
  have long : ¬ (trim s.toList = [] ∨ trim s.toList = ['0']) := by
    obtain ⟨front, c, d, whole, -⟩ := ends
    rw [whole]
    rintro (empty | zero)
    · simp at empty
    · have size := congrArg List.length zero
      simp at size
  have panics := sizeParts_ligature ends
  constructor
  · rw [parseSizeLimit, if_neg long, panics]
    rfl
  · simp only [parseSizeLimitDebug, if_neg long, panics]

theorem NumberFits.exactOrNone {s : String} (fits : NumberFits s) : ExactOrNone s := by
  by_cases ends : EndsInLigature (trim s.toList)
  · obtain ⟨release, debug⟩ := parse_ligature ends
    refine ⟨by simp [debug], by simp [release], ?_⟩
    rintro size ⟨-, -, rest, unit, n, split, number, -⟩
    exact absurd number (ends.not_numeral split)
  by_cases nothing : trim s.toList = [] ∨ trim s.toList = ['0']
  · have release : parseSizeLimit s = .ok none := by rw [parseSizeLimit, if_pos nothing]
    have debug : parseSizeLimitDebug s = .ok none := by rw [parseSizeLimitDebug, if_pos nothing]
    exact ⟨by simp [debug], by simp [release], fun _ _ _ => ⟨release, debug⟩⟩
  obtain ⟨some_, nonzero⟩ := not_or.mp nothing
  obtain ⟨rest, unit, split⟩ := exists_sizeSplit (trim s.toList)
  have release := parseSizeLimit_split rfl some_ nonzero ends split
  have debug := parseDebug_split some_ nonzero ends split
  cases read : parseU64 (trim rest) with
  | none =>
    rw [read] at release debug
    exact ⟨by simp [debug], by simp [release], fun _ _ _ => ⟨release, debug⟩⟩
  | some n =>
    obtain ⟨number, small⟩ := parseU64_iff.mp read
    have product : n * unit < 2 ^ 64 := by
      rw [← split.lt_div]
      exact (fits rest unit n split number).resolve_right (by omega)
    rw [read, Option.map_some, Nat.mod_eq_of_lt product] at release
    rw [read] at debug
    simp only [if_pos product] at debug
    have asked : SizeText s (n * unit) := ⟨some_, nonzero, rest, unit, n, split, number, rfl⟩
    refine ⟨by simp [debug], fun v parsed => ?_, fun size asks large => ?_⟩
    · obtain rfl : n * unit = v := by simpa [release] using parsed
      exact asked
    · rw [asks.unique ends asked] at large
      omega

theorem ExactOrNone.numberFits {s : String} (exact_ : ExactOrNone s) : NumberFits s := by
  intro rest unit n split number
  by_contra beyond
  obtain ⟨large, small⟩ := not_or.mp beyond
  have ends : ¬ EndsInLigature (trim s.toList) := fun ends => ends.not_numeral split number
  have read := parseU64_iff.mpr ⟨number, Nat.lt_of_not_le small⟩
  rw [split.lt_div] at large
  by_cases nothing : trim s.toList = [] ∨ trim s.toList = ['0']
  · have parts := sizeParts_of_split ends split
    -- Nothing is multiplied: the text has no unit, and its number is zero if it is one.
    have zero : n * unit = 0 := by
      obtain empty | zero := nothing
      · rw [empty] at parts
        obtain ⟨rfl, rfl⟩ := Prod.mk.inj (Except.ok.inj parts)
        cases read
      · rw [zero] at parts
        obtain ⟨rfl, rfl⟩ := Prod.mk.inj (Except.ok.inj parts)
        obtain rfl := Option.some.inj read
        rfl
    omega
  · obtain ⟨some_, nonzero⟩ := not_or.mp nothing
    refine exact_.checked ?_
    rw [parseDebug_split some_ nonzero ends split, read]
    simp only [if_neg large]

theorem exactOrNone_iff (s : String) : ExactOrNone s ↔ NumberFits s :=
  ⟨ExactOrNone.numberFits, NumberFits.exactOrNone⟩

-- `2 ^ 24` terabytes are `2 ^ 64` bytes, which wrap around to none.
theorem not_exactOrNone_terabytes :
    parseSizeLimit "16777216TB" = .ok (some 0) ∧ parseSizeLimitDebug "16777216TB" = .error .multiply ∧
      ¬ ∀ s, ExactOrNone s := by
  have debug : parseSizeLimitDebug "16777216TB" = .error .multiply := by decide
  exact ⟨by decide, debug, fun exact_ => (exact_ "16777216TB").checked debug⟩

def utf8Len (text : List Char) : Nat := (text.map Char.utf8Size).sum

-- Some characters of the text, from its first on, take this many bytes.
def IsCharBoundary (text : List Char) (i : Nat) : Prop :=
  ∃ front back, text = front ++ back ∧ utf8Len front = i

@[simp] theorem utf8Len_cons (c : Char) (text : List Char) : utf8Len (c :: text) = c.utf8Size + utf8Len text := rfl

@[simp] theorem utf8Len_append (first second : List Char) :
    utf8Len (first ++ second) = utf8Len first + utf8Len second := by
  simp [utf8Len]

theorem utf8Len_reverse (text : List Char) : utf8Len text.reverse = utf8Len text := by
  simp [utf8Len]

theorem utf8Len_eq_zero {text : List Char} (none : utf8Len text = 0) : text = [] := by
  cases text with
  | nil => rfl
  | cons c rest =>
    have positive := c.utf8Size_pos
    rw [utf8Len_cons] at none
    omega

theorem go_ok (n : Nat) (text rest : List Char) :
    dropLastBytes.go n text = .ok rest ↔ ∃ front, text = front ++ rest ∧ utf8Len front = n := by
  fun_induction dropLastBytes.go n text with
  | case1 text =>
    constructor
    · rintro same
      exact ⟨[], Except.ok.inj same, rfl⟩
    · rintro ⟨front, rfl, none⟩
      rw [utf8Len_eq_zero none, List.nil_append]
  | case2 n =>
    constructor
    · intro panics
      cases panics
    · rintro ⟨front, whole, size⟩
      obtain ⟨rfl, rfl⟩ := List.append_eq_nil_iff.mp whole.symm
      cases size
  | case3 n c text fits ih =>
    rw [ih]
    constructor
    · rintro ⟨front, rfl, size⟩
      exact ⟨c :: front, rfl, by rw [utf8Len_cons, size, Nat.add_sub_of_le fits]⟩
    · rintro ⟨front, whole, size⟩
      cases front with
      | nil => cases size
      | cons first front =>
        obtain ⟨rfl, rfl⟩ := List.cons.inj whole
        rw [utf8Len_cons] at size
        exact ⟨front, rfl, by omega⟩
  | case4 n c text wide =>
    constructor
    · intro panics
      cases panics
    · rintro ⟨front, whole, size⟩
      cases front with
      | nil => cases size
      | cons first front =>
        obtain ⟨rfl, rfl⟩ := List.cons.inj whole
        rw [utf8Len_cons] at size
        omega

theorem dropLastBytes_ok (n : Nat) (text : List Char) :
    (∃ front, dropLastBytes n text = .ok front) ↔ n ≤ utf8Len text ∧ IsCharBoundary text (utf8Len text - n) := by
  have sliced : (∃ front, dropLastBytes n text = .ok front) ↔ ∃ front back, text = front ++ back ∧ utf8Len back = n := by
    constructor
    · rintro ⟨front, same⟩
      rw [dropLastBytes] at same
      cases ran : dropLastBytes.go n text.reverse with
      | error cause =>
        rw [ran] at same
        cases same
      | ok rest =>
        obtain ⟨back, whole, size⟩ := (go_ok n text.reverse rest).mp ran
        refine ⟨rest.reverse, back.reverse, ?_, by rw [utf8Len_reverse, size]⟩
        rw [← List.reverse_append, ← whole, List.reverse_reverse]
    · rintro ⟨front, back, rfl, size⟩
      have ran := (go_ok n (front ++ back).reverse front.reverse).mpr
        ⟨back.reverse, List.reverse_append, by rw [utf8Len_reverse, size]⟩
      exact ⟨front, by rw [dropLastBytes, ran, Except.map, List.reverse_reverse]⟩
  rw [sliced]
  constructor
  · rintro ⟨front, back, rfl, rfl⟩
    rw [utf8Len_append]
    exact ⟨Nat.le_add_left _ _, front, back, rfl, by omega⟩
  · rintro ⟨within, front, back, rfl, size⟩
    rw [utf8Len_append] at within size
    exact ⟨front, back, rfl, by omega⟩

/-- Where the upper-case copy ends in a unit, the text itself can be cut two bytes before its end. -/
structure SlicesWhole (s : String) : Prop where
  boundary : ∀ unit ∈ sizeUnits, unit.1.toList.isSuffixOf (toUppercase (trim s.toList)) →
    2 ≤ utf8Len (trim s.toList) ∧ IsCharBoundary (trim s.toList) (utf8Len (trim s.toList) - 2)
  returns : ∃ limit, parseSizeLimit s = .ok limit

theorem slicesWhole_iff (s : String) : SlicesWhole s ↔ ¬ EndsInLigature (trim s.toList) := by
  constructor
  · rintro ⟨-, limit, parsed⟩ ends
    rw [(parse_ligature ends).1] at parsed
    cases parsed
  · intro clean
    constructor
    · intro unit member suffix
      obtain ⟨front, c, d, whole, known⟩ := unit_of_suffix clean member suffix
      rw [whole]
      exact (dropLastBytes_ok 2 _).mp ⟨front, dropLastBytes_unit known front⟩
    · by_cases nothing : trim s.toList = [] ∨ trim s.toList = ['0']
      · exact ⟨none, by rw [parseSizeLimit, if_pos nothing]⟩
      · obtain ⟨some_, nonzero⟩ := not_or.mp nothing
        obtain ⟨rest, unit, split⟩ := exists_sizeSplit (trim s.toList)
        exact ⟨_, parseSizeLimit_split rfl some_ nonzero clean split⟩

-- The ligature of long S and T, behind a digit and in front of a B.
theorem not_slicesWhole_ligature :
    parseSizeLimit (String.ofList ['5', Char.ofNat 0xfb05, 'b']) = .error .charBoundary ∧ ¬ ∀ s, SlicesWhole s := by
  have panics : parseSizeLimit (String.ofList ['5', Char.ofNat 0xfb05, 'b']) = .error .charBoundary := by
    decide +kernel
  refine ⟨panics, fun whole => ?_⟩
  obtain ⟨limit, parsed⟩ := (whole _).returns
  rw [panics] at parsed
  cases parsed

end PgMux
