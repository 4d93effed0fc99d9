import Mathlib.Algebra.Order.Ring.Int
import Mathlib.Data.List.Basic

set_option autoImplicit false

namespace PgMux

-- The characters of the Unicode property `White_Space`, which `str::trim` removes.
def isWhitespace (c : Char) : Bool :=
  let n := c.toNat
  (0x09 ≤ n && n ≤ 0x0d) || n == 0x20 || n == 0x85 || n == 0xa0 || n == 0x1680 ||
    (0x2000 ≤ n && n ≤ 0x200a) || n == 0x2028 || n == 0x2029 || n == 0x202f || n == 0x205f ||
    n == 0x3000

def trim (text : List Char) : List Char :=
  ((text.dropWhile isWhitespace).reverse.dropWhile isWhitespace).reverse

-- The full upper-case mapping of one character, as far as a comparison with ASCII text can see
-- it: besides the ASCII letters, only these characters have an ASCII character in their mapping.
-- A character whose mapping has none is kept, since no ASCII text matches it before or after.
def upperChar (c : Char) : List Char :=
  match c.toNat with
  | 0xdf => ['S', 'S']
  | 0x131 => ['I']
  | 0x149 => [Char.ofNat 0x2bc, 'N']
  | 0x17f => ['S']
  | 0x1f0 => ['J', Char.ofNat 0x30c]
  | 0x1e96 => ['H', Char.ofNat 0x331]
  | 0x1e97 => ['T', Char.ofNat 0x308]
  | 0x1e98 => ['W', Char.ofNat 0x30a]
  | 0x1e99 => ['Y', Char.ofNat 0x30a]
  | 0x1e9a => ['A', Char.ofNat 0x2be]
  | 0xfb00 => ['F', 'F']
  | 0xfb01 => ['F', 'I']
  | 0xfb02 => ['F', 'L']
  | 0xfb03 => ['F', 'F', 'I']
  | 0xfb04 => ['F', 'F', 'L']
  | 0xfb05 => ['S', 'T']
  | 0xfb06 => ['S', 'T']
  | _ => [c.toUpper]

def toUppercase (text : List Char) : List Char := text.flatMap upperChar

theorem toUpper_of_not_lower {c : Char} (other : c.toNat < 97 ∨ 122 < c.toNat) : c.toUpper = c := by
  refine dif_neg ?_
  rintro ⟨above, below⟩
  have low : 97 ≤ c.toNat := UInt32.le_iff_toNat_le.mp above
  have high : c.toNat ≤ 122 := UInt32.le_iff_toNat_le.mp below
  omega

def splitWhitespace (text : List Char) : List (List Char) :=
  (text.splitOnP isWhitespace).filter (· ≠ [])

def stripPrefix (start text : List Char) : Option (List Char) :=
  if start.isPrefixOf text then some (text.drop start.length) else none

-- `u64::from_str`.
def parseU64 (text : List Char) : Option Nat :=
  let digits := match text with
    | '+' :: rest => rest
    | _ => text
  if digits = [] ∨ digits.any (fun c => !c.isDigit) then none
  else
    let n := digits.foldl (fun n c => 10 * n + (c.toNat - '0'.toNat)) 0
    if n < 2 ^ 64 then some n else none

inductive Panic where
  -- A string is sliced inside a character.
  | charBoundary
  | outOfRange
  | unreachable
deriving DecidableEq, Repr

-- The text without its last bytes, read from its end: `&s[..s.len() - n]`.
def dropLastBytes (n : Nat) (text : List Char) : Except Panic (List Char) :=
  (go n text.reverse).map List.reverse
where
  go : Nat → List Char → Except Panic (List Char)
    | 0, text => .ok text
    | _ + 1, [] => .error .outOfRange
    | n + 1, c :: text => if c.utf8Size ≤ n + 1 then go (n + 1 - c.utf8Size) text else .error .charBoundary

end PgMux
