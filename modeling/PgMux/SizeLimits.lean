import PgMux.Config

set_option autoImplicit false

namespace PgMux

def Numeral (text : List Char) (n : Nat) : Prop :=
  ∃ sign digits, text = sign ++ digits ∧ (sign = [] ∨ sign = ['+']) ∧ digits ≠ [] ∧
    (∀ c ∈ digits, c.isDigit) ∧ n = Nat.ofDigitChars 10 digits 0

def unitNames : List (List Char × Nat) :=
  [(['K', 'B'], 1024 ^ 1), (['M', 'B'], 1024 ^ 2), (['G', 'B'], 1024 ^ 3), (['T', 'B'], 1024 ^ 4)]

-- What a text is without the unit at its end, in whatever letters, and what the unit is worth.
inductive SizeSplit (text : List Char) : List Char → Nat → Prop
  | unit (rest name : List Char) (unit : Nat) (known : (name.map Char.toUpper, unit) ∈ unitNames)
      (whole : text = rest ++ name) : SizeSplit text rest unit
  | bare (none : ∀ rest name unit, (name.map Char.toUpper, unit) ∈ unitNames → text ≠ rest ++ name) :
      SizeSplit text text 1

/-- The number of bytes that a text asks for. The text `0` alone asks for none. -/
def SizeText (s : String) (size : Nat) : Prop :=
  trim s.toList ≠ [] ∧ trim s.toList ≠ ['0'] ∧ ∃ rest unit n,
    SizeSplit (trim s.toList) rest unit ∧ Numeral (trim rest) n ∧ size = n * unit

-- The characters that become `ST` in upper case.
def Ligature (c : Char) : Prop := c = Char.ofNat 0xfb05 ∨ c = Char.ofNat 0xfb06

instance (c : Char) : Decidable (Ligature c) := inferInstanceAs (Decidable (_ ∨ _))

-- The text ends in one of them and the letter B.
def EndsInLigature (text : List Char) : Prop :=
  ∃ front c d, text = front ++ [c, d] ∧ Ligature c ∧ (d = 'b' ∨ d = 'B')

theorem Ligature.outside {c : Char} (ligature : Ligature c) :
    128 ≤ c.toNat ∧ c.utf8Size ≠ 1 ∧ c.toUpper ∉ ['T', 'G', 'M', 'K'] := by
  obtain rfl | rfl := ligature
  · decide
  · decide

theorem last_two {front other : List Char} {c d c' d' : Char} (same : front ++ [c, d] = other ++ [c', d']) :
    c = c' ∧ d = d' := by
  simpa using (List.append_inj' same rfl).2

theorem utf8Size_of_toUpper {c : Char} (ascii : c.toUpper.toNat < 128) : c.utf8Size = 1 := by
  have small : c.toNat < 128 := by
    by_contra large
    rw [toUpper_of_not_lower (.inr (by omega))] at ascii
    omega
  rw [Char.utf8Size, if_pos]
  exact Nat.le_of_lt_succ small

theorem toUpper_eq_b {c : Char} : c.toUpper = 'B' ↔ c = 'b' ∨ c = 'B' := by
  have ascii : ∀ n < 128, (Char.ofNat n).toUpper = 'B' ↔ Char.ofNat n = 'b' ∨ Char.ofNat n = 'B' := by decide
  by_cases small : c.toNat < 128
  · have known := ascii c.toNat small
    rwa [Char.ofNat_toNat] at known
  · rw [toUpper_of_not_lower (.inr (by omega))]
    constructor
    · exact .inr
    · rintro (rfl | rfl)
      · exact absurd (by decide) small
      · rfl

theorem upperChar_endings (c : Char) :
    upperChar c = [c.toUpper] ∧ ¬ Ligature c ∨ 128 ≤ c.toNat ∧ ∃ last, (upperChar c).getLast? = some last ∧
      (last = 'T' ∧ Ligature c ∨ last ∉ ['T', 'G', 'M', 'K', 'B'] ∧ ¬ Ligature c) := by
  rw [upperChar]
  split
  case h_18 first second =>
    refine .inl ⟨rfl, ?_⟩
    rintro (rfl | rfl)
    · exact first rfl
    · exact second rfl
  all_goals
    rename_i same
    obtain rfl := (Char.ofNat_toNat c).symm.trans (congrArg Char.ofNat same)
    exact .inr ⟨by decide, _, rfl, by decide⟩

-- Besides a letter itself, only the ligatures end in a letter of a unit.
theorem upperChar_getLast {c letter : Char} (member : letter ∈ ['T', 'G', 'M', 'K', 'B']) :
    (upperChar c).getLast? = some letter ↔ c.toUpper = letter ∨ letter = 'T' ∧ Ligature c := by
  have ascii : ∀ letter ∈ ['T', 'G', 'M', 'K', 'B'], letter.toNat < 128 := by simp
  obtain ⟨plain, ordinary⟩ | ⟨large, last, ends, special⟩ := upperChar_endings c
  · simp [plain, ordinary]
  · have other : c ≠ letter := by
      rintro rfl
      have small := ascii c member
      omega
    rw [ends, toUpper_of_not_lower (.inr (by omega))]
    obtain ⟨rfl, ligature⟩ | ⟨outside, ordinary⟩ := special
    · simp [other, ligature, eq_comm]
    · have differs : last ≠ letter := fun same => outside (same ▸ member)
      simp [other, ordinary, differs]

theorem upperChar_b {c : Char} (ends : (upperChar c).getLast? = some 'B') : upperChar c = ['B'] := by
  obtain ⟨plain, ordinary⟩ | ⟨large, last, found, special⟩ := upperChar_endings c
  · rw [plain] at ends ⊢
    simpa using ends
  · obtain rfl := Option.some.inj (found.symm.trans ends)
    simp at special

theorem upperChar_ne_nil (c : Char) : upperChar c ≠ [] := by
  obtain ⟨plain, -⟩ | ⟨-, last, ends, -⟩ := upperChar_endings c
  · simp [plain]
  · intro empty
    simp [empty] at ends

theorem getLast_toUppercase (front : List Char) (c : Char) :
    (toUppercase (front ++ [c])).getLast? = (upperChar c).getLast? := by
  rw [toUppercase, List.flatMap_append, List.flatMap_singleton]
  exact List.getLast?_append_of_ne_nil _ (upperChar_ne_nil c)

theorem suffix_concat {letter : Char} (front : List Char) (d : Char) :
    [letter, 'B'] <:+ toUppercase (front ++ [d]) ↔
      d.toUpper = 'B' ∧ (toUppercase front).getLast? = some letter := by
  have copy : toUppercase (front ++ [d]) = toUppercase front ++ upperChar d := by simp [toUppercase]
  have is_b : (upperChar d).getLast? = some 'B' ↔ d.toUpper = 'B' := by
    rw [upperChar_getLast (by simp)]
    simp
  constructor
  · rintro ⟨start, same⟩
    have last : (upperChar d).getLast? = some 'B' := by
      rw [← getLast_toUppercase front d, ← same]
      simp
    have before : start ++ [letter] = toUppercase front := by
      rw [copy, upperChar_b last, List.append_cons] at same
      exact List.append_cancel_right same
    exact ⟨is_b.mp last, by simp [← before]⟩
  · rintro ⟨last, before⟩
    obtain ⟨start, whole⟩ := List.getLast?_eq_some_iff.mp before
    exact ⟨start, by rw [copy, upperChar_b (is_b.mpr last), whole, List.append_assoc]; rfl⟩

/-- The suffix test sees a unit where the last letter is a B and the one before it the unit's own, or, for
terabytes, a ligature. -/
theorem unit_suffix {letter : Char} (member : letter ∈ ['T', 'G', 'M', 'K']) (text : List Char) :
    [letter, 'B'] <:+ toUppercase text ↔
      ∃ front c d, text = front ++ [c, d] ∧ d.toUpper = 'B' ∧ (c.toUpper = letter ∨ letter = 'T' ∧ Ligature c) := by
  have known : letter ∈ ['T', 'G', 'M', 'K', 'B'] := List.mem_append_left ['B'] member
  constructor
  · intro suffix
    obtain rfl | ⟨rest, d, rfl⟩ := text.eq_nil_or_concat'
    · simp [toUppercase] at suffix
    obtain ⟨last, before⟩ := (suffix_concat rest d).mp suffix
    obtain rfl | ⟨front, c, rfl⟩ := rest.eq_nil_or_concat'
    · simp [toUppercase] at before
    rw [getLast_toUppercase, upperChar_getLast known] at before
    exact ⟨front, c, d, by simp, last, before⟩
  · rintro ⟨front, c, d, rfl, last, before⟩
    rw [List.append_cons, suffix_concat, getLast_toUppercase, upperChar_getLast known]
    exact ⟨last, before⟩

theorem dropLastBytes_two (front : List Char) (c : Char) {d : Char} (last : d.toUpper = 'B') :
    dropLastBytes 2 (front ++ [c, d]) = if c.utf8Size = 1 then .ok front else .error .charBoundary := by
  have one : d.utf8Size = 1 := utf8Size_of_toUpper (by rw [last]; decide)
  have positive := c.utf8Size_pos
  rw [dropLastBytes, List.reverse_append]
  simp only [List.reverse_cons, List.reverse_nil, List.nil_append, List.cons_append, dropLastBytes.go, one]
  by_cases ascii : c.utf8Size = 1
  · simp [ascii, dropLastBytes.go, Except.map]
  · have wide : ¬ c.utf8Size ≤ 1 := by omega
    simp [ascii, wide, Except.map]

theorem isSuffixOf_unit {letter : Char} (member : letter ∈ ['T', 'G', 'M', 'K']) (front : List Char) (c d : Char) :
    [letter, 'B'].isSuffixOf (toUppercase (front ++ [c, d])) =
      decide (d.toUpper = 'B' ∧ (c.toUpper = letter ∨ letter = 'T' ∧ Ligature c)) := by
  rw [Bool.eq_iff_iff, List.isSuffixOf_iff_suffix, unit_suffix member, decide_eq_true_iff]
  constructor
  · rintro ⟨other, c', d', same, ends⟩
    obtain ⟨rfl, rfl⟩ := last_two same
    exact ends
  · intro ends
    exact ⟨front, c, d, rfl, ends⟩

theorem sizeParts_ligature {text : List Char} (ends : EndsInLigature text) :
    sizeParts text = .error .charBoundary := by
  obtain ⟨front, c, d, rfl, ligature, last⟩ := ends
  have wide := ligature.outside.2.1
  have found : sizeUnits.find? (fun unit => unit.1.toList.isSuffixOf (toUppercase (front ++ [c, d]))) =
      some ("TB", 1024 * 1024 * 1024 * 1024) := by
    have suffix := isSuffixOf_unit (by decide : 'T' ∈ ['T', 'G', 'M', 'K']) front c d
    rw [sizeUnits, List.find?_cons_of_pos]
    rw [show "TB".toList = ['T', 'B'] from rfl, suffix]
    simp [toUpper_eq_b.mpr last, ligature]
  rw [sizeParts, found]
  simp only [dropLastBytes_two front c (toUpper_eq_b.mpr last), if_neg wide]
  rfl

theorem unitName_two {name : List Char} {unit : Nat} (known : (name.map Char.toUpper, unit) ∈ unitNames) :
    ∃ c d, name = [c, d] ∧ d.toUpper = 'B' ∧ c.toUpper ∈ ['T', 'G', 'M', 'K'] := by
  have shape : ∀ entry ∈ unitNames, ∃ letter ∈ ['T', 'G', 'M', 'K'], entry.1 = [letter, 'B'] := by
    simp [unitNames]
  obtain ⟨letter, member, same⟩ := shape _ known
  obtain ⟨c, rest, rfl, rfl, single⟩ := List.map_eq_cons_iff.mp same
  obtain ⟨d, rfl, last⟩ := List.map_eq_singleton_iff.mp single
  exact ⟨c, d, rfl, last, member⟩

theorem not_endsInLigature_unit {name : List Char} {unit : Nat} (known : (name.map Char.toUpper, unit) ∈ unitNames)
    (rest : List Char) : ¬ EndsInLigature (rest ++ name) := by
  rintro ⟨front, c', d', whole, ligature, -⟩
  obtain ⟨c, d, rfl, -, letter⟩ := unitName_two known
  obtain ⟨rfl, rfl⟩ := last_two whole
  exact ligature.outside.2.2 letter

theorem find_unit {text : List Char} {upper : Char} {unit : Nat}
    (suffix : ∀ letter ∈ ['T', 'G', 'M', 'K'], [letter, 'B'].isSuffixOf text = decide (upper = letter))
    (known : ([upper, 'B'], unit) ∈ unitNames) :
    ∃ name, sizeUnits.find? (fun unit => unit.1.toList.isSuffixOf text) = some (name, unit) := by
  have tera := suffix 'T' (by simp)
  have giga := suffix 'G' (by simp)
  have mega := suffix 'M' (by simp)
  have kilo := suffix 'K' (by simp)
  simp only [unitNames, List.mem_cons, Prod.mk.injEq, List.cons.injEq, and_true, List.not_mem_nil, or_false] at known
  obtain ⟨rfl, rfl⟩ | ⟨rfl, rfl⟩ | ⟨rfl, rfl⟩ | ⟨rfl, rfl⟩ := known
  all_goals
    simp only [sizeUnits, List.find?_cons, String.reduceToList, tera, giga, mega, kilo]
    exact ⟨_, rfl⟩

-- What the suffix test finds is a unit, unless it is a ligature.
theorem unit_of_suffix {text : List Char} (clean : ¬ EndsInLigature text) {entry : String × Nat}
    (member : entry ∈ sizeUnits) (suffix : entry.1.toList.isSuffixOf (toUppercase text)) :
    ∃ front c d, text = front ++ [c, d] ∧ ([c, d].map Char.toUpper, entry.2) ∈ unitNames := by
  have shape : ∀ entry ∈ sizeUnits, ∃ letter ∈ ['T', 'G', 'M', 'K'],
      entry.1.toList = [letter, 'B'] ∧ ([letter, 'B'], entry.2) ∈ unitNames := by
    simp [sizeUnits, unitNames]
  obtain ⟨letter, named, same, known⟩ := shape entry member
  rw [same, List.isSuffixOf_iff_suffix, unit_suffix named] at suffix
  obtain ⟨front, c, d, rfl, last, rfl | ⟨-, ligature⟩⟩ := suffix
  · exact ⟨front, c, d, rfl, by rw [List.map_cons, List.map_singleton, last]; exact known⟩
  · exact absurd ⟨front, c, d, rfl, ligature, toUpper_eq_b.mp last⟩ clean

theorem dropLastBytes_unit {c d : Char} {unit : Nat} (known : ([c, d].map Char.toUpper, unit) ∈ unitNames)
    (front : List Char) : dropLastBytes 2 (front ++ [c, d]) = .ok front := by
  have ascii : ∀ letter ∈ ['T', 'G', 'M', 'K'], letter.toNat < 128 := by simp
  obtain ⟨c', d', same, last, letter⟩ := unitName_two known
  obtain ⟨rfl, rfl⟩ : c = c' ∧ d = d' := by simpa using same
  rw [dropLastBytes_two front c last, if_pos (utf8Size_of_toUpper (ascii c.toUpper letter))]

theorem sizeParts_of_split {text rest : List Char} {unit : Nat} (clean : ¬ EndsInLigature text)
    (split : SizeSplit text rest unit) : sizeParts text = .ok (rest, unit) := by
  cases split with
  | unit _ name _ known whole =>
    obtain ⟨c, d, rfl, last, -⟩ := unitName_two known
    subst whole
    have ordinary : ¬ Ligature c := fun ligature => clean ⟨rest, c, d, rfl, ligature, toUpper_eq_b.mp last⟩
    have cut := dropLastBytes_unit known rest
    rw [List.map_cons, List.map_singleton, last] at known
    obtain ⟨name, found⟩ := find_unit (fun letter member => by
      rw [isSuffixOf_unit member rest c d]
      simp [last, ordinary]) known
    rw [sizeParts, found]
    simp only [cut]
    rfl
  | bare none =>
    have unseen : sizeUnits.find? (fun unit => unit.1.toList.isSuffixOf (toUppercase text)) = Option.none := by
      rw [List.find?_eq_none]
      intro entry member suffix
      obtain ⟨front, c, d, whole, known⟩ := unit_of_suffix clean member suffix
      exact none front [c, d] entry.2 known whole
    rw [sizeParts, unseen]

theorem exists_sizeSplit (text : List Char) : ∃ rest unit, SizeSplit text rest unit := by
  by_cases named : ∃ rest name unit, (name.map Char.toUpper, unit) ∈ unitNames ∧ text = rest ++ name
  · obtain ⟨rest, name, unit, known, whole⟩ := named
    exact ⟨rest, unit, .unit rest name unit known whole⟩
  · exact ⟨text, 1, .bare fun rest name unit known whole => named ⟨rest, name, unit, known, whole⟩⟩

theorem numeral_plus {digits : List Char} {n : Nat} :
    Numeral ('+' :: digits) n ↔ digits ≠ [] ∧ (∀ c ∈ digits, c.isDigit) ∧ n = Nat.ofDigitChars 10 digits 0 := by
  constructor
  · rintro ⟨sign, rest, whole, rfl | rfl, some_, all, value⟩
    · have plus := all '+' (by simp [← show '+' :: digits = rest from whole])
      exact absurd plus (by decide)
    · obtain rfl := List.cons.inj whole |>.2
      exact ⟨some_, all, value⟩
  · rintro ⟨some_, all, value⟩
    exact ⟨['+'], digits, rfl, .inr rfl, some_, all, value⟩

theorem numeral_bare {text : List Char} {n : Nat} (unsigned : ∀ rest, text ≠ '+' :: rest) :
    Numeral text n ↔ text ≠ [] ∧ (∀ c ∈ text, c.isDigit) ∧ n = Nat.ofDigitChars 10 text 0 := by
  constructor
  · rintro ⟨sign, rest, rfl, rfl | rfl, some_, all, value⟩
    · exact ⟨some_, all, value⟩
    · exact absurd rfl (unsigned rest)
  · rintro ⟨some_, all, value⟩
    exact ⟨[], text, rfl, .inl rfl, some_, all, value⟩

theorem parseU64_iff {text : List Char} {n : Nat} : parseU64 text = some n ↔ Numeral text n ∧ n < 2 ^ 64 := by
  have read (digits : List Char) : (if digits = [] ∨ digits.any (fun c => !c.isDigit) then none
      else if Nat.ofDigitChars 10 digits 0 < 2 ^ 64 then some (Nat.ofDigitChars 10 digits 0) else none) = some n ↔
        (digits ≠ [] ∧ (∀ c ∈ digits, c.isDigit) ∧ n = Nat.ofDigitChars 10 digits 0) ∧ n < 2 ^ 64 := by
    by_cases proper : digits ≠ [] ∧ ∀ c ∈ digits, c.isDigit
    · obtain ⟨some_, all⟩ := proper
      rw [if_neg (by simpa [some_] using all)]
      constructor
      · intro value
        split at value
        · rename_i small
          obtain rfl := Option.some.inj value
          exact ⟨⟨some_, all, rfl⟩, small⟩
        · cases value
      · rintro ⟨⟨-, -, rfl⟩, small⟩
        rw [if_pos small]
    · rw [if_pos (by simpa [or_iff_not_imp_left] using proper)]
      constructor
      · intro value
        cases value
      · rintro ⟨⟨some_, all, -⟩, -⟩
        exact absurd ⟨some_, all⟩ proper
  by_cases signed : ∃ rest, text = '+' :: rest
  · obtain ⟨rest, rfl⟩ := signed
    rw [numeral_plus]
    exact read rest
  · have unsigned (rest : List Char) : text ≠ '+' :: rest := fun same => signed ⟨rest, same⟩
    rw [numeral_bare unsigned, parseU64]
    · exact read text
    · exact unsigned

section Parsed

variable {s : String} {text rest : List Char} {unit : Nat}

theorem parseSizeLimit_split (trimmed : trim s.toList = text) (some_ : text ≠ []) (nonzero : text ≠ ['0'])
    (clean : ¬ EndsInLigature text) (split : SizeSplit text rest unit) :
    parseSizeLimit s = .ok ((parseU64 (trim rest)).map fun n => n * unit % 2 ^ 64) := by
  rw [parseSizeLimit, trimmed, if_neg (not_or.mpr ⟨some_, nonzero⟩), sizeParts_of_split clean split]
  rfl

theorem parseSizeLimit_number (trimmed : trim s.toList = text) (some_ : text ≠ []) (nonzero : text ≠ ['0'])
    (clean : ¬ EndsInLigature text) (split : SizeSplit text rest unit) {n : Nat} (number : Numeral (trim rest) n)
    (small : n < 2 ^ 64) (fits : n * unit < 2 ^ 64) : parseSizeLimit s = .ok (some (n * unit)) := by
  rw [parseSizeLimit_split trimmed some_ nonzero clean split, parseU64_iff.mpr ⟨number, small⟩, Option.map_some,
    Nat.mod_eq_of_lt fits]

theorem parseSizeLimit_other (trimmed : trim s.toList = text) (some_ : text ≠ []) (nonzero : text ≠ ['0'])
    (clean : ¬ EndsInLigature text) (split : SizeSplit text rest unit)
    (other : ∀ n, Numeral (trim rest) n → 2 ^ 64 ≤ n) : parseSizeLimit s = .ok none := by
  rw [parseSizeLimit_split trimmed some_ nonzero clean split]
  cases read : parseU64 (trim rest) with
  | none => rfl
  | some n =>
    obtain ⟨number, small⟩ := parseU64_iff.mp read
    have large := other n number
    omega

end Parsed

theorem trim_subset {text : List Char} {c : Char} (member : c ∈ trim text) : c ∈ text := by
  have inner := (List.dropWhile_sublist _).subset (List.mem_reverse.mp member)
  exact (List.dropWhile_sublist _).subset (List.mem_reverse.mp inner)

theorem trim_surrounded {start text stop : List Char} (before : ∀ c ∈ start, isWhitespace c)
    (after : ∀ c ∈ stop, isWhitespace c) (first : ∀ c ∈ text.head?, ¬ isWhitespace c)
    (last : ∀ c ∈ text.getLast?, ¬ isWhitespace c) (some_ : text ≠ []) : trim (start ++ text ++ stop) = text := by
  have stays {list : List Char} (other : List Char) (head : ∀ c ∈ list.head?, ¬ isWhitespace c) (some_ : list ≠ []) :
      (list ++ other).dropWhile isWhitespace = list ++ other := by
    cases list with
    | nil => exact absurd rfl some_
    | cons c rest => exact List.dropWhile_cons_of_neg (head c rfl)
  rw [trim, List.append_assoc, List.dropWhile_append_of_pos before, stays stop first some_, List.reverse_append,
    List.dropWhile_append_of_pos fun c member => after c (List.mem_reverse.mp member)]
  have kept := @stays text.reverse [] (by simpa using last) (by simpa using some_)
  rw [List.append_nil] at kept
  rw [kept, List.reverse_reverse]

theorem isDigit_ascii {c : Char} (digit : c.isDigit) : c.toNat < 128 := by
  simp only [Char.isDigit, Bool.and_eq_true, decide_eq_true_eq] at digit
  have upper : c.toNat ≤ '9'.toNat := digit.2
  have bound : '9'.toNat < 128 := by decide
  omega

theorem isDigit_plain {c : Char} (digit : c.isDigit) : ¬ isWhitespace c ∧ c.toUpper ≠ 'B' := by
  have each : ∀ n < 128, (Char.ofNat n).isDigit →
      ¬ isWhitespace (Char.ofNat n) ∧ (Char.ofNat n).toUpper ≠ 'B' := by decide
  have plain := each c.toNat (isDigit_ascii digit)
  rw [Char.ofNat_toNat] at plain
  exact plain digit

theorem numeral_toDigits (n : Nat) : Numeral (Nat.toDigits 10 n) n :=
  ⟨[], Nat.toDigits 10 n, rfl, .inl rfl, Nat.toDigits_ne_nil,
    fun _ member => Nat.isDigit_of_mem_toDigits (by decide) (by decide) member,
    Nat.ofDigitChars_ten_toDigits.symm⟩

-- How a unit is written: its name in whatever letters, or nothing for single bytes.
def UnitName (name : List Char) (unit : Nat) : Prop :=
  name = [] ∧ unit = 1 ∨ (name.map Char.toUpper, unit) ∈ unitNames

section Printed

variable {n unit : Nat} {start gap stop : List Char}

theorem digit_of_printed {c : Char} (member : c ∈ Nat.toDigits 10 n) : ¬ isWhitespace c ∧ c.toUpper ≠ 'B' :=
  isDigit_plain (Nat.isDigit_of_mem_toDigits (by decide) (by decide) member)

theorem trim_printed (before : ∀ c ∈ start, isWhitespace c) (after : ∀ c ∈ stop, isWhitespace c) :
    trim (start ++ Nat.toDigits 10 n ++ stop) = Nat.toDigits 10 n := by
  refine trim_surrounded before after (fun c first => ?_) (fun c last => ?_) Nat.toDigits_ne_nil
  · exact (digit_of_printed (List.mem_of_mem_head? first)).1
  · exact (digit_of_printed (List.mem_of_mem_getLast? last)).1

theorem parse_printed_bare (positive : 0 < n) (fits : n < 2 ^ 64) (before : ∀ c ∈ start, isWhitespace c)
    (after : ∀ c ∈ stop, isWhitespace c) :
    parseSizeLimit (String.ofList (start ++ Nat.toDigits 10 n ++ stop)) = .ok (some (n * 1)) := by
  have nonzero : Nat.toDigits 10 n ≠ ['0'] := by
    intro zero
    have value := Nat.ofDigitChars_ten_toDigits (n := n)
    rw [zero] at value
    exact absurd value positive.ne
  have clean : ¬ EndsInLigature (Nat.toDigits 10 n) := by
    rintro ⟨front, c, d, whole, -, last⟩
    exact (@digit_of_printed n d (by simp [whole])).2 (toUpper_eq_b.mpr last)
  have split : SizeSplit (Nat.toDigits 10 n) (Nat.toDigits 10 n) 1 := by
    refine .bare fun rest name unit known whole => ?_
    obtain ⟨c, d, rfl, last, -⟩ := unitName_two known
    exact (@digit_of_printed n d (by simp [whole])).2 last
  refine parseSizeLimit_number ?_ Nat.toDigits_ne_nil nonzero clean split ?_ fits (by omega)
  · rw [String.toList_ofList, trim_printed before after]
  · have alone := @trim_printed n [] [] nofun nofun
    rw [List.nil_append, List.append_nil] at alone
    rw [alone]
    exact numeral_toDigits n

theorem parse_printed_unit {name : List Char} (fits : n * unit < 2 ^ 64)
    (known : (name.map Char.toUpper, unit) ∈ unitNames) (before : ∀ c ∈ start, isWhitespace c)
    (between : ∀ c ∈ gap, isWhitespace c) (after : ∀ c ∈ stop, isWhitespace c) :
    parseSizeLimit (String.ofList (start ++ (Nat.toDigits 10 n ++ gap ++ name) ++ stop)) =
      .ok (some (n * unit)) := by
  obtain ⟨c, d, rfl, last, -⟩ := unitName_two known
  have worth : ∀ entry ∈ unitNames, 0 < entry.2 := by decide
  have clean : ¬ EndsInLigature (Nat.toDigits 10 n ++ gap ++ [c, d]) :=
    not_endsInLigature_unit known _
  have trimmed : trim (start ++ (Nat.toDigits 10 n ++ gap ++ [c, d]) ++ stop) =
      Nat.toDigits 10 n ++ gap ++ [c, d] := by
    refine trim_surrounded before after (fun first is_first => ?_) (fun other is_last => ?_) (by simp)
    · rw [List.append_assoc, List.head?_append_of_ne_nil _ Nat.toDigits_ne_nil] at is_first
      exact (digit_of_printed (List.mem_of_mem_head? is_first)).1
    · obtain rfl : d = other := by simpa using is_last
      obtain rfl | rfl := toUpper_eq_b.mp last
      · decide
      · decide
  have small : n < 2 ^ 64 := lt_of_le_of_lt (Nat.le_mul_of_pos_right n (worth _ known)) fits
  refine parseSizeLimit_number ?_ ?_ ?_ clean (.unit _ [c, d] unit known rfl) ?_ small fits
  · rw [String.toList_ofList, trimmed]
  · simp
  · intro zero
    have size := congrArg List.length zero
    simp only [List.length_append, List.length_cons, List.length_nil] at size
    omega
  · have alone := @trim_printed n [] gap nofun between
    rw [List.nil_append] at alone
    rw [alone]
    exact numeral_toDigits n

end Printed

theorem parse_size_limit_grammar :
    (∀ s : String, (∀ c ∈ s.toList, c.toNat < 128) →
      (trim s.toList = [] ∨ trim s.toList = ['0'] → parseSizeLimit s = .ok none) ∧
      (trim s.toList ≠ [] → trim s.toList ≠ ['0'] →
        (∃ rest unit, SizeSplit (trim s.toList) rest unit) ∧
        ∀ rest unit, SizeSplit (trim s.toList) rest unit →
          (∀ n, Numeral (trim rest) n → n < 2 ^ 64 → n * unit < 2 ^ 64 →
            parseSizeLimit s = .ok (some (n * unit))) ∧
          ((¬ ∃ n, Numeral (trim rest) n ∧ n < 2 ^ 64) → parseSizeLimit s = .ok none))) ∧
      ∀ n unit name start gap stop, 0 < n → UnitName name unit → n * unit < 2 ^ 64 →
        (∀ c ∈ start, isWhitespace c) → (∀ c ∈ gap, isWhitespace c) → (∀ c ∈ stop, isWhitespace c) →
        parseSizeLimit (String.ofList (start ++ ((toString n).toList ++ gap ++ name) ++ stop)) =
          .ok (some (n * unit)) := by
  constructor
  · intro s ascii
    have clean : ¬ EndsInLigature (trim s.toList) := by
      rintro ⟨front, c, d, whole, ligature, -⟩
      have small := ascii c (trim_subset (by simp [whole]))
      have large := ligature.outside.1
      omega
    constructor
    · intro nothing
      rw [parseSizeLimit, if_pos nothing]
    · intro some_ nonzero
      refine ⟨exists_sizeSplit _, fun rest unit split => ⟨fun n number small fits => ?_, fun other => ?_⟩⟩
      · exact parseSizeLimit_number rfl some_ nonzero clean split number small fits
      · refine parseSizeLimit_other rfl some_ nonzero clean split fun n number => ?_
        exact Nat.le_of_not_lt fun small => other ⟨n, number, small⟩
  · intro n unit name start gap stop positive named fits before between after
    rw [show (toString n).toList = Nat.toDigits 10 n from Nat.toList_repr]
    obtain ⟨rfl, rfl⟩ | known := named
    · have joined : start ++ (Nat.toDigits 10 n ++ gap ++ []) ++ stop =
          start ++ Nat.toDigits 10 n ++ (gap ++ stop) := by simp
      rw [joined]
      refine parse_printed_bare positive (by omega) before fun c member => ?_
      exact (List.mem_append.mp member).elim (between c) (after c)
    · exact parse_printed_unit fits known before between after

theorem parse_size_limit_grammar_units :
    parseSizeLimit "+12 kB" = .ok (some (12 * 1024 ^ 1)) ∧ parseSizeLimit "xMB" = .ok none ∧
      parseSizeLimit (String.ofList ([' '] ++ ((toString 5).toList ++ [] ++ ['g', 'B']) ++ ['\n'])) =
        .ok (some (5 * 1024 ^ 3)) := by
  refine ⟨?_, ?_, ?_⟩
  · refine (((parse_size_limit_grammar.1 "+12 kB" (by simp)).2 (by decide) (by decide)).2 ['+', '1', '2', ' ']
      (1024 ^ 1) (.unit _ ['k', 'B'] _ (by decide) (by decide))).1 12 ?_ (by decide) (by decide)
    exact ⟨['+'], ['1', '2'], by decide, .inr rfl, by decide, by simp, by decide⟩
  · refine (((parse_size_limit_grammar.1 "xMB" (by simp)).2 (by decide) (by decide)).2 ['x'] (1024 ^ 2)
      (.unit _ ['M', 'B'] _ (by decide) (by decide))).2 ?_
    rintro ⟨n, number, small⟩
    have read := parseU64_iff.mpr ⟨number, small⟩
    rw [show parseU64 (trim ['x']) = none by decide] at read
    cases read
  · exact parse_size_limit_grammar.2 5 (1024 ^ 3) ['g', 'B'] [' '] [] ['\n'] (by decide) (.inr (by decide))
      (by decide) (by simp [isWhitespace]) nofun (by simp [isWhitespace])

end PgMux
