import Mathlib.Tactic.Ring
import Mathlib.Tactic.Linarith

/-!
# Two's complement registers and truncating division

A C `int` is an `Int` kept in range by `i32`, an `int64_t` by `i64`: both are the
residue of the exact result in the signed interval of the register. Bounds are
literals, so that `omega` decides the side conditions. Division is `Int.tdiv`, which
truncates toward zero; the lemmas below give its quotient in a form `omega` can use.
-/
namespace Calendarizador.Foundation

/-- The value a 32-bit signed register holds after the exact result `x` is stored. -/
def i32 (x : Int) : Int := (x + 2147483648) % 4294967296 - 2147483648

/-- The value a 64-bit signed register holds after the exact result `x` is stored. -/
def i64 (x : Int) : Int :=
  (x + 9223372036854775808) % 18446744073709551616 - 9223372036854775808

theorem i32_bounds (x : Int) : -2147483648 ≤ i32 x ∧ i32 x < 2147483648 := by
  unfold i32
  omega

/-- Storing loses nothing when the exact result is representable. -/
theorem i32_of_bounds (x : Int) (low : -2147483648 ≤ x) (high : x < 2147483648) : i32 x = x := by
  unfold i32
  omega

theorem i64_of_bounds (x : Int) (low : -9223372036854775808 ≤ x)
    (high : x < 9223372036854775808) : i64 x = x := by
  unfold i64
  omega

/-- An addition may be carried out before or after its left operand is stored. -/
theorem i32_add_left (x y : Int) : i32 (i32 x + y) = i32 (x + y) := by
  unfold i32
  omega

theorem i32_add_right (x y : Int) : i32 (x + i32 y) = i32 (x + y) := by
  unfold i32
  omega

/-- The stored value of a count is positive on the lower half of its range. -/
theorem i32_pos_iff (n : Nat) : 1 ≤ i32 n ↔ 1 ≤ n % 4294967296 ∧ n % 4294967296 < 2147483648 := by
  unfold i32
  omega

/-- A result that its 32-bit register must hold exactly; C leaves the others undefined. -/
def word32 (x : Int) : Option Int :=
  if -2147483648 ≤ x ∧ x < 2147483648 then some x else none

/-- A result that its 64-bit register must hold exactly. -/
def word64 (x : Int) : Option Int :=
  if -9223372036854775808 ≤ x ∧ x < 9223372036854775808 then some x else none

theorem word32_of_bounds (x : Int) (low : -2147483648 ≤ x) (high : x < 2147483648) :
    word32 x = some x := if_pos ⟨low, high⟩

theorem word64_of_bounds (x : Int) (low : -9223372036854775808 ≤ x)
    (high : x < 9223372036854775808) : word64 x = some x := if_pos ⟨low, high⟩

theorem tdiv_nonneg_eq (x n : Int) (hx : 0 ≤ x) : x.tdiv n = x / n :=
  Int.tdiv_eq_ediv_of_nonneg hx

theorem tdiv_neg_eq (x n : Int) (hx : x < 0) : x.tdiv n = -(-x / n) := by
  rw [← tdiv_nonneg_eq (-x) n (by omega), Int.neg_tdiv, Int.neg_neg]

end Calendarizador.Foundation
