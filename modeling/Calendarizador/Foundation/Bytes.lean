import Mathlib.Algebra.Group.Nat.Defs
import Mathlib.Data.Nat.Basic

/-!
# Images of bytes

A run of bytes put over an image (`splice`), and numbers of four bytes, least significant
byte first.
-/
namespace Calendarizador.Foundation

section
variable {β : Type}

/-- The first `n` values of `src` in place of those from `a` on. -/
def splice (f : Nat → β) (a n : Nat) (src : Nat → β) : Nat → β :=
  fun x => if a ≤ x ∧ x < a + n then src (x - a) else f x

variable {f src : Nat → β} {a n x : Nat}

theorem splice_inside {i : Nat} (inside : i < n) : splice f a n src (a + i) = src i := by
  have within : a ≤ a + i ∧ a + i < a + n := by omega
  rw [splice, if_pos within, Nat.add_sub_cancel_left]

theorem splice_outside (outside : x < a ∨ a + n ≤ x) : splice f a n src x = f x :=
  if_neg (by omega)

@[simp]
theorem splice_zero : splice f a 0 src = f := by
  funext x
  exact splice_outside (by omega)

/-- Two runs, one behind the other, are one run. -/
theorem splice_append (f src : Nat → β) (a n m : Nat) :
    splice (splice f a n src) (a + n) m (fun i => src (n + i)) = splice f a (n + m) src := by
  funext x
  by_cases second : a + n ≤ x ∧ x < a + n + m
  · have both : a ≤ x ∧ x < a + (n + m) := by omega
    have source : n + (x - (a + n)) = x - a := by omega
    rw [splice, if_pos second, splice, if_pos both, source]
  · rw [splice_outside (by omega)]
    by_cases first : a ≤ x ∧ x < a + n
    · have both : a ≤ x ∧ x < a + (n + m) := by omega
      rw [splice, if_pos first, splice, if_pos both]
    · rw [splice_outside (by omega), splice_outside (by omega)]

theorem splice_congr {other : Nat → β} (same : ∀ i < n, src i = other i) :
    splice f a n src = splice f a n other := by
  funext x
  unfold splice
  split
  · exact same _ (by omega)
  · rfl

end

/-- Byte `i` of the number `x`. -/
def byteOf (x i : Nat) : BitVec 8 := BitVec.ofNat 8 (x / 256 ^ i)

/-- The number of four bytes at `a`. -/
def wordAt (f : Nat → BitVec 8) (a : Nat) : Nat :=
  (f a).toNat + 256 * (f (a + 1)).toNat + 65536 * (f (a + 2)).toNat +
    16777216 * (f (a + 3)).toNat

theorem wordAt_congr {f g : Nat → BitVec 8} {a b : Nat} (same : ∀ i < 4, f (a + i) = g (b + i)) :
    wordAt f a = wordAt g b := by
  have h0 := same 0 (by decide)
  simp only [Nat.add_zero] at h0
  unfold wordAt
  rw [h0, same 1 (by decide), same 2 (by decide), same 3 (by decide)]

/-- The bytes of a number read back. -/
theorem wordAt_of_bytes {f : Nat → BitVec 8} {a x : Nat} (small : x < 4294967296)
    (bytes : ∀ i < 4, f (a + i) = byteOf x i) : wordAt f a = x := by
  have h0 := bytes 0 (by decide)
  simp only [Nat.add_zero] at h0
  unfold wordAt
  rw [h0, bytes 1 (by decide), bytes 2 (by decide), bytes 3 (by decide)]
  simp only [byteOf, BitVec.toNat_ofNat]
  omega

/-- Bit `m` of the bytes, the least significant bit of a byte first. -/
def bitAt (f : Nat → BitVec 8) (m : Nat) : Bool := (f (m / 8)).getLsbD (m % 8)

theorem byteOf_getLsbD (x i : Nat) {j : Nat} (small : j < 8) :
    (byteOf x i).getLsbD j = x.testBit (8 * i + j) := by
  have power : 256 ^ i = 2 ^ (8 * i) := by rw [Nat.pow_mul]
  simp only [byteOf, BitVec.getLsbD_ofNat, small, decide_true, Bool.true_and, power,
    Nat.testBit_div_two_pow]
  rw [Nat.add_comm]

/-- The bits of a word are those of its bytes. -/
theorem wordAt_testBit (f : Nat → BitVec 8) (idx : Nat) {m : Nat} (small : m < 32) :
    (wordAt f (4 * idx)).testBit m = bitAt f (32 * idx + m) := by
  have bound (i : Nat) : (f i).toNat < 2 ^ 8 := (f i).isLt
  have bytes : wordAt f (4 * idx) = 2 ^ 8 * (2 ^ 8 * (2 ^ 8 * (f (4 * idx + 3)).toNat +
      (f (4 * idx + 2)).toNat) + (f (4 * idx + 1)).toNat) + (f (4 * idx)).toNat := by
    unfold wordAt
    omega
  rw [bytes, Nat.testBit_two_pow_mul_add _ (bound _), Nat.testBit_two_pow_mul_add _ (bound _),
    Nat.testBit_two_pow_mul_add _ (bound _)]
  simp only [BitVec.testBit_toNat, bitAt]
  split_ifs with h0 h1 h2
  all_goals
    congr 1
    · congr 1
      omega
    · omega

end Calendarizador.Foundation
