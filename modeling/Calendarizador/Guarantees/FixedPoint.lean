import Calendarizador.Source.FixedPoint

/-!
# Fixed point at the limits of an `int`

Every helper of `threads/fixedpoint.h` against the exact result, on all pairs of `int`s for
which that result is an `int` again. The products and quotients are exact because they are
computed in 64 bits. `fp_to_int_round` adds half a unit before it divides, and loses the
last half unit of the range on either side; `add_int` and `sub_int` scale the integer
first, which may overflow although the sum fits.
-/
namespace Calendarizador.Guarantees
open Foundation Source

/-- The helpers; those with one operand ignore the second. -/
inductive Helper where
  | intToFp | fpToInt | fpToIntRound | addFp | addInt | subFp | subInt | multFp | multInt
  | divFp | divInt
  deriving DecidableEq

namespace Helper

/-- What the helper returns, with wrap-around. -/
def value : Helper → Int → Int → Int
  | .intToFp, n, _ => Source.intToFp n
  | .fpToInt, x, _ => Source.fpToInt x
  | .fpToIntRound, x, _ => Source.fpToIntRound x
  | .addFp, x, y => Source.addFp x y
  | .addInt, x, n => Source.addInt x n
  | .subFp, x, y => Source.subFp x y
  | .subInt, x, n => Source.subInt x n
  | .multFp, x, y => Source.multFp x y
  | .multInt, x, n => Source.multInt x n
  | .divFp, x, y => Source.divFp x y
  | .divInt, x, n => Source.divInt x n

/-- The same operations in the same order, without a result once one of them overflows. -/
def evaluate : Helper → Int → Int → Option Int
  | .intToFp, n, _ => word32 (n * fpOne)
  | .fpToInt, x, _ => word32 (x.tdiv fpOne)
  | .fpToIntRound, x, _ => do
    let moved ← word32 (if x ≥ 0 then x + fpOne / 2 else x - fpOne / 2)
    word32 (moved.tdiv fpOne)
  | .addFp, x, y => word32 (x + y)
  | .addInt, x, n => do
    let scaled ← word32 (n * fpOne)
    word32 (x + scaled)
  | .subFp, x, y => word32 (x - y)
  | .subInt, x, n => do
    let scaled ← word32 (n * fpOne)
    word32 (x - scaled)
  | .multFp, x, y => do
    let product ← word64 (x * y)
    word32 (product.tdiv fpOne)
  | .multInt, x, n => word32 (x * n)
  | .divFp, x, y => do
    let scaled ← word64 (x * fpOne)
    word32 (scaled.tdiv y)
  | .divInt, x, n => word32 (x.tdiv n)

/-- The helpers that divide by their second operand. -/
def divides : Helper → Bool
  | .divFp | .divInt => true
  | _ => false

end Helper

variable {op : Helper} {x : Int}

/-- `v` is an integer nearest to `x / 2^14`, and the one away from zero in a tie. -/
def NearestAway (x v : Int) : Prop :=
  2 * (v * 16384 - x).natAbs ≤ 16384 ∧
    (2 * (v * 16384 - x).natAbs = 16384 → x.natAbs ≤ (v * 16384).natAbs)

instance (x v : Int) : Decidable (NearestAway x v) := inferInstanceAs (Decidable (_ ∧ _))

/-- The exact result of a helper on the numbers its operands stand for. -/
def Helper.Exact : Helper → Int → Int → Int → Prop
  | .intToFp, n, _, v => v = n * 16384
  | .fpToInt, x, _, v => v = x.tdiv 16384
  | .fpToIntRound, x, _, v => NearestAway x v
  | .addFp, x, y, v => v = x + y
  | .addInt, x, n, v => v = x + n * 16384
  | .subFp, x, y, v => v = x - y
  | .subInt, x, n, v => v = x - n * 16384
  | .multFp, x, y, v => v = (x * y).tdiv 16384
  | .multInt, x, n, v => v = x * n
  | .divFp, x, y, v => v = (x * 16384).tdiv y
  | .divInt, x, n, v => v = x.tdiv n

instance (op : Helper) (x y v : Int) : Decidable (op.Exact x y v) := by
  cases op <;> unfold Helper.Exact <;> infer_instance

/-- The operands on which a helper overflows nowhere. -/
def Helper.Safe : Helper → Int → Int → Prop
  | .fpToIntRound, x, _ => -2147475456 ≤ x ∧ x < 2147475456
  | .addInt, _, n | .subInt, _, n => -131072 ≤ n ∧ n < 131072
  | _, _, _ => True

/-- A number a C `int` can hold. -/
def IsInt (x : Int) : Prop := -2147483648 ≤ x ∧ x < 2147483648

instance (x : Int) : Decidable (IsInt x) := inferInstanceAs (Decidable (_ ∧ _))

theorem nearestAway_of_safe (x : Int) (low : -2147475456 ≤ x) (high : x < 2147475456) :
    NearestAway x (fpToIntRound x) := by
  unfold NearestAway fpToIntRound fpOne
  split
  · rename_i nonneg
    rw [i32_of_bounds _ (by omega) (by omega), tdiv_nonneg_eq _ _ (by omega)]
    omega
  · rename_i negative
    rw [i32_of_bounds _ (by omega) (by omega), tdiv_neg_eq _ _ (by omega)]
    omega

/-- Beyond the safe range the half unit carries into the sign. -/
theorem nearestAway_iff (x : Int) (int : IsInt x) :
    NearestAway x (fpToIntRound x) ↔ -2147475456 ≤ x ∧ x < 2147475456 := by
  obtain ⟨low, high⟩ := int
  refine ⟨fun nearest => ?_, fun ⟨above, below⟩ => nearestAway_of_safe x above below⟩
  by_contra outside
  have close := nearest.1
  revert close
  clear nearest
  unfold fpToIntRound fpOne
  split
  · rename_i nonneg
    have wrapped : i32 (x + 16384 / 2) = x + 8192 - 4294967296 := by
      unfold i32
      omega
    rw [wrapped, tdiv_neg_eq _ _ (by omega)]
    omega
  · rename_i negative
    have wrapped : i32 (x - 16384 / 2) = x - 8192 + 4294967296 := by
      unfold i32
      omega
    rw [wrapped, tdiv_nonneg_eq _ _ (by omega)]
    omega

theorem tdiv_isInt (x : Int) (int : IsInt x) : IsInt (x.tdiv 16384) := by
  obtain ⟨low, high⟩ := int
  unfold IsInt
  rcases lt_or_ge x 0 with negative | nonneg
  · rw [tdiv_neg_eq _ _ negative]
    omega
  · rw [tdiv_nonneg_eq _ _ nonneg]
    omega

/-- The product of two `int`s fits 64 bits. -/
theorem product_bounds (x y : Int) (hx : IsInt x) (hy : IsInt y) :
    -9223372036854775808 ≤ x * y ∧ x * y < 9223372036854775808 := by
  obtain ⟨lowX, highX⟩ := hx
  obtain ⟨lowY, highY⟩ := hy
  have size : (x * y).natAbs ≤ 2147483648 * 2147483648 := by
    rw [Int.natAbs_mul]
    exact Nat.mul_le_mul (by omega) (by omega)
  omega

/-- A helper is correct if no operation overflows and the result is the exact one. -/
def Helper.Correct (op : Helper) (x y : Int) : Prop :=
  op.evaluate x y = some (op.value x y) ∧ op.Exact x y (op.value x y)

theorem word32_i32 (x : Int) (int : IsInt x) : word32 x = some x ∧ i32 x = x :=
  ⟨word32_of_bounds x int.1 int.2, i32_of_bounds x int.1 int.2⟩

theorem word32_none (x : Int) (outside : ¬ IsInt x) : word32 x = none := if_neg outside

/-- Scaling an integer overflows outside the range of `int_to_fp`. -/
theorem scaled_isInt (n : Int) : IsInt (n * fpOne) ↔ -131072 ≤ n ∧ n < 131072 := by
  unfold IsInt fpOne
  omega

/-- The two helpers that scale their integer first. -/
theorem correct_of_scaled {n : Int} (sum : Int → Int)
    (evaluates : op.evaluate x n = (word32 (n * fpOne)).bind fun scaled => word32 (sum scaled))
    (returns : op.value x n = i32 (sum (n * fpOne)))
    (exact : ∀ v, op.Exact x n v ↔ v = sum (n * fpOne)) (fits : IsInt (sum (n * fpOne))) :
    (op.Correct x n ↔ -131072 ≤ n ∧ n < 131072) ∧ op.Exact x n (op.value x n) := by
  have right : op.Exact x n (op.value x n) := by
    rw [exact, returns, (word32_i32 _ fits).2]
  refine ⟨⟨fun correct => ?_, fun safe => ⟨?_, right⟩⟩, right⟩
  · by_contra outside
    have overflows := word32_none _ fun int => outside ((scaled_isInt n).mp int)
    have evaluated := correct.1
    rw [evaluates, overflows] at evaluated
    cases evaluated
  · rw [evaluates, (word32_i32 _ ((scaled_isInt n).mpr safe)).1, returns]
    exact (word32_i32 _ fits).1.trans (by rw [(word32_i32 _ fits).2])

/-- A helper that makes one 32-bit store. -/
theorem correct_of_stored {y : Int} (z : Int) (evaluates : op.evaluate x y = word32 z)
    (returns : op.value x y = i32 z) (exact : ∀ v, op.Exact x y v ↔ v = z) (fits : IsInt z) :
    op.Correct x y := by
  obtain ⟨stored, same⟩ := word32_i32 z fits
  exact ⟨by rw [evaluates, stored, returns, same], (exact _).mpr (returns.trans same)⟩

/-- A helper that divides a 64-bit product. -/
theorem correct_of_wide {y : Int} (wide : Int) (quotient : Int → Int)
    (evaluates : op.evaluate x y = (word64 wide).bind fun stored => word32 (quotient stored))
    (returns : op.value x y = i32 (quotient (i64 wide)))
    (exact : ∀ v, op.Exact x y v ↔ v = quotient wide)
    (bounds : -9223372036854775808 ≤ wide ∧ wide < 9223372036854775808)
    (fits : IsInt (quotient wide)) : op.Correct x y := by
  refine correct_of_stored (quotient wide) ?_ ?_ exact fits
  · rw [evaluates, word64_of_bounds wide bounds.1 bounds.2]
    rfl
  · rw [returns, i64_of_bounds wide bounds.1 bounds.2]

theorem round_correct_iff (x y : Int) (int : IsInt x) :
    Helper.Correct .fpToIntRound x y ↔ -2147475456 ≤ x ∧ x < 2147475456 := by
  refine ⟨fun correct => (nearestAway_iff x int).mp correct.2, fun safe => ?_⟩
  refine ⟨?_, (nearestAway_iff x int).mpr safe⟩
  obtain ⟨moved, moves⟩ : ∃ z, z = if x ≥ 0 then x + fpOne / 2 else x - fpOne / 2 := ⟨_, rfl⟩
  have fits : IsInt moved := by
    rw [moves]
    unfold IsInt fpOne
    split <;> omega
  have returns : fpToIntRound x = moved.tdiv fpOne := by
    rw [moves, fpToIntRound]
    have same := (word32_i32 moved fits).2
    rw [moves] at same
    split <;> simp_all
  show (do let moved ← word32 (if x ≥ 0 then x + fpOne / 2 else x - fpOne / 2)
           word32 (moved.tdiv fpOne)) = some (fpToIntRound x)
  rw [← moves, (word32_i32 moved fits).1, returns]
  exact (word32_i32 _ (tdiv_isInt moved fits)).1

/-- Every helper on every pair of `int`s whose exact result is an `int`, and the two ways
back from a scaled integer. -/
theorem fixed_point_limits (op : Helper) (x y n : Int) :
    (IsInt x → IsInt y → (op.divides = true → y ≠ 0) → (∃ v, op.Exact x y v ∧ IsInt v) →
      (op.Correct x y ↔ op.Safe x y) ∧
      (op.Exact x y (op.value x y) ↔ (op = .fpToIntRound → op.Safe x y))) ∧
    (IsInt (n * fpOne) → fpToInt (intToFp n) = n ∧
      (fpToIntRound (intToFp n) = n ↔ n ≠ -131072)) := by
  refine ⟨fun hx hy divisor ⟨v, exact, int⟩ => ?_, fun int => ?_⟩
  · have always (correct : op.Correct x y) (safe : op.Safe x y) :
        (op.Correct x y ↔ op.Safe x y) ∧
        (op.Exact x y (op.value x y) ↔ (op = .fpToIntRound → op.Safe x y)) :=
      ⟨iff_of_true correct safe, iff_of_true correct.2 fun _ => safe⟩
    cases op with
    | fpToIntRound =>
      refine ⟨round_correct_iff x y hx, ?_⟩
      exact (nearestAway_iff x hx).trans (imp_iff_right rfl).symm
    | addInt =>
      have returns : Helper.value .addInt x y = i32 (x + y * fpOne) := i32_add_right x (y * fpOne)
      obtain ⟨correct, right⟩ := correct_of_scaled (fun scaled => x + scaled) rfl returns
        (fun _ => Iff.rfl) (exact ▸ int)
      exact ⟨correct, iff_of_true right (by nofun)⟩
    | subInt =>
      have returns : Helper.value .subInt x y = i32 (x - y * fpOne) := by
        show i32 (x - i32 (y * fpOne)) = i32 (x - y * fpOne)
        unfold i32
        omega
      obtain ⟨correct, right⟩ := correct_of_scaled (fun scaled => x - scaled) rfl returns
        (fun _ => Iff.rfl) (exact ▸ int)
      exact ⟨correct, iff_of_true right (by nofun)⟩
    | multFp =>
      exact always (correct_of_wide (x * y) (fun product => product.tdiv fpOne) rfl rfl
        (fun _ => Iff.rfl) (product_bounds x y hx hy) (exact ▸ int)) trivial
    | divFp =>
      have bounds : -9223372036854775808 ≤ x * fpOne ∧ x * fpOne < 9223372036854775808 := by
        obtain ⟨low, high⟩ := hx
        unfold fpOne
        omega
      exact always (correct_of_wide (x * fpOne) (fun scaled => scaled.tdiv y) rfl rfl
        (fun _ => Iff.rfl) bounds (exact ▸ int)) trivial
    | fpToInt =>
      have stored := (word32_i32 _ (tdiv_isInt x hx)).1
      exact always ⟨stored, rfl⟩ trivial
    | divInt =>
      have stored := (word32_i32 (x.tdiv y) (exact ▸ int)).1
      exact always ⟨stored, rfl⟩ trivial
    | intToFp | addFp | subFp | multInt =>
      exact always (correct_of_stored _ rfl rfl (fun _ => Iff.rfl) (exact ▸ int)) trivial
  · have scaled : intToFp n = n * fpOne := (word32_i32 _ int).2
    rw [scaled]
    obtain ⟨low, high⟩ := (scaled_isInt n).mp int
    refine ⟨Int.mul_tdiv_cancel n (by decide), fun same => ?_, fun inner => ?_⟩
    · rintro rfl
      exact absurd same (by decide)
    · have nearest := (nearestAway_of_safe (n * fpOne) (by unfold fpOne; omega)
        (by unfold fpOne; omega)).1
      unfold fpOne at nearest ⊢
      omega

/-- One and a half rounds to two. -/
theorem fixed_point_limits_half : Helper.Safe .fpToIntRound 24576 0 ∧ fpToIntRound 24576 = 2 ∧
    Helper.Correct .fpToIntRound 24576 0 := by
  have safe : Helper.Safe .fpToIntRound 24576 0 := ⟨by decide, by decide⟩
  refine ⟨safe, by decide, ?_⟩
  exact ((fixed_point_limits .fpToIntRound 24576 0 0).1 (by decide) (by decide) (by decide)
    ⟨2, by decide, by decide⟩).1.mpr safe

/-- The number half a unit below 131072 rounds to -131072, -131072 comes back from fixed
point as 131071, and `add_int` overflows on the way to zero. -/
theorem fixed_point_limits_ends :
    (NearestAway 2147475456 131072 ∧ fpToIntRound 2147475456 = -131072 ∧
      ¬ NearestAway 2147475456 (-131072)) ∧
    (intToFp (-131072) = -131072 * 16384 ∧ fpToIntRound (intToFp (-131072)) = 131071) ∧
    (Helper.Exact .addInt (-2147483648) 131072 0 ∧
      Helper.evaluate .addInt (-2147483648) 131072 = none) := by decide

end Calendarizador.Guarantees
