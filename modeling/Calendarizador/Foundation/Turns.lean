import Mathlib.Data.List.Rotate
import Mathlib.Data.Nat.Basic

/-!
# Taking turns

`n` participants get `q` ticks each in turn. `share n q t i` is what the participant `i` has
got after `t` ticks; one more tick goes to the participant whose turn it is
(`share_succ`), and no two participants are ever more than one turn apart (`share_fair`).
-/
namespace Calendarizador.Foundation
open List
variable {q : Nat}

/-- Full rounds, then the round that is under way. -/
def share (n q t i : Nat) : Nat :=
  q * (t / q / n) + (if i < t / q % n then q else if i = t / q % n then t % q else 0)

theorem share_zero (n q i : Nat) : share n q 0 i = 0 := by simp [share]

/-- The successor of a number with a remainder either stays in its block or opens the next. -/
theorem succ_div_mod (positive : 0 < q) (t : Nat) :
    (t % q + 1 < q ∧ (t + 1) / q = t / q ∧ (t + 1) % q = t % q + 1) ∨
      (t % q + 1 = q ∧ (t + 1) / q = t / q + 1 ∧ (t + 1) % q = 0) := by
  have split := Nat.mod_add_div t q
  have below := Nat.mod_lt t positive
  by_cases inside : t % q + 1 < q
  · have unique := (Nat.div_mod_unique positive).mpr
      ⟨show (t % q + 1) + q * (t / q) = t + 1 by omega, inside⟩
    exact .inl ⟨inside, unique⟩
  · have unique := (Nat.div_mod_unique positive).mpr
      ⟨show 0 + q * (t / q + 1) = t + 1 by rw [Nat.mul_add]; omega, positive⟩
    exact .inr ⟨by omega, unique⟩

theorem share_succ {n : Nat} (some : 0 < n) (positive : 0 < q) (t : Nat) {i : Nat}
    (member : i < n) : share n q (t + 1) i = share n q t i + if i = t / q % n then 1 else 0 := by
  unfold share
  have turn := Nat.mod_lt (t / q) some
  rcases succ_div_mod positive t with ⟨_, block, rest⟩ | ⟨last, block, rest⟩
  · rw [block, rest]
    rcases lt_trichotomy i (t / q % n) with earlier | own | later
    · simp only [if_pos earlier, if_neg earlier.ne, Nat.add_zero]
    · simp only [if_neg own.not_lt, if_pos own, Nat.add_assoc]
    · simp only [if_neg later.not_gt, if_neg later.ne', Nat.add_zero]
  · -- The turn is over; it may also have been the last one of its round.
    rw [block, rest]
    rcases succ_div_mod some (t / q) with ⟨_, round, next⟩ | ⟨final, round, next⟩
    · rw [round, next]
      rcases lt_trichotomy i (t / q % n) with earlier | own | later
      · simp only [if_pos (Nat.lt_succ_of_lt earlier), if_pos earlier, if_neg earlier.ne,
          Nat.add_zero]
      · simp only [if_pos (own.trans_lt (Nat.lt_succ_self _)), if_neg own.not_lt, if_pos own]
        omega
      · have notNext : ¬ i < t / q % n + 1 := by omega
        simp only [if_neg notNext, if_neg later.not_gt, if_neg later.ne', ite_self, Nat.add_zero]
    · rw [round, next, Nat.mul_add, if_neg (Nat.not_lt_zero i), ite_self]
      rcases (show i < t / q % n ∨ i = t / q % n by omega) with earlier | own
      · simp only [if_pos earlier, if_neg earlier.ne]
        omega
      · simp only [if_neg own.not_lt, if_pos own]
        omega

theorem share_fair (positive : 0 < q) (n t i j : Nat) : share n q t i ≤ share n q t j + q := by
  unfold share
  have below := Nat.mod_lt t positive
  split
  · split <;> omega
  · split <;> omega

/-- The participant whose turn it is stands at the front of the rotated list. -/
theorem rotate_front {α : Type} {list rest : List α} {first : α} {turn : Nat}
    (rotated : first :: rest = list.rotate turn) : list[turn % list.length]? = some first := by
  have some : 0 < list.length := by
    have same := congrArg List.length rotated
    simp only [length_cons, length_rotate] at same
    omega
  have front := List.head?_rotate (l := list) (Nat.mod_lt turn some)
  rw [rotate_mod, ← rotated] at front
  exact front.symm

/-- The end of a turn moves the front to the back. -/
theorem rotate_turn {α : Type} {list rest : List α} {first : α} {turn : Nat}
    (rotated : first :: rest = list.rotate turn) : rest ++ [first] = list.rotate (turn + 1) := by
  rw [← rotate_rotate, ← rotated, rotate_cons_succ, rotate_zero]

end Calendarizador.Foundation
