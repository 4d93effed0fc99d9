import PgMux.Scanner.Bounds
import PgMux.Shared.Delimited

set_option autoImplicit false

namespace PgMux

-- `while pos < payload.len() && payload[pos] != 0 { pos += 1; }`
def scanZero (payload : Bytes) : Nat → Nat → Except Fault Nat
  | 0, _ => .error .stuck
  | fuel + 1, pos =>
    if pos < payload.length then do
      if (← index payload pos) ≠ 0 then scanZero payload fuel (pos + 1) else return pos
    else return pos

theorem index_ok {bytes : Bytes} {i : Nat} {first : UInt8} {rest : Bytes} (at_ : bytes.drop i = first :: rest) :
    index bytes i = .ok first := by
  have found : bytes[i]? = some first := by
    rw [← List.head?_drop, at_, List.head?_cons]
  rw [index, found]

theorem drop_pos {bytes : Bytes} {pos : Nat} :
    (bytes.length ≤ pos ∧ bytes.drop pos = []) ∨
      ∃ first rest, pos < bytes.length ∧ bytes.drop pos = first :: rest ∧ bytes.drop (pos + 1) = rest := by
  by_cases inside : pos < bytes.length
  · exact .inr ⟨_, _, inside, List.drop_eq_getElem_cons inside, rfl⟩
  · exact .inl ⟨by omega, List.drop_eq_nil_of_le (by omega)⟩

theorem scanZero_ok {payload : Bytes} {fuel pos : Nat} (enough : payload.length - pos < fuel) :
    scanZero payload fuel pos = .ok (pos + ((payload.drop pos).takeWhile (· ≠ 0)).length) := by
  induction fuel generalizing pos with
  | zero => omega
  | succ fuel ih =>
    rw [scanZero]
    obtain ⟨beyond, nothing⟩ | ⟨first, rest, inside, here, behind⟩ := @drop_pos payload pos
    · rw [if_neg (by omega), nothing]
      rfl
    · rw [if_pos inside, index_ok here, here]
      simp only [bind, Except.bind]
      by_cases zero : first = 0
      · rw [if_neg (by simpa using zero), List.takeWhile_cons_of_neg (by simpa using zero)]
        rfl
      · rw [if_pos zero, ih (by omega), List.takeWhile_cons_of_pos (by simpa using zero), behind,
          List.length_cons]
        congr 1
        omega

theorem slice_field {payload : Bytes} {pos : Nat} (within : pos ≤ payload.length) :
    slice payload pos (pos + ((payload.drop pos).takeWhile (· ≠ 0)).length) =
      .ok ((payload.drop pos).takeWhile (· ≠ 0)) := by
  have prefix_ := List.takeWhile_prefix (l := payload.drop pos) (fun b : UInt8 => decide (b ≠ 0))
  have short := prefix_.length_le
  rw [List.length_drop] at short
  rw [MessageBoundaryScanner.slice_ok (by omega)]
  exact congrArg Except.ok (List.prefix_iff_eq_take.mp prefix_).symm

theorem drop_scanned (payload : Bytes) (pos : Nat) :
    payload.drop (pos + ((payload.drop pos).takeWhile (· ≠ 0)).length) =
      (payload.drop pos).dropWhile (· ≠ 0) := by
  rw [← List.drop_drop, Delimited.drop_field]

end PgMux
