import Mathlib.Tactic.Linarith
import Mathlib.Tactic.Ring
import Calendarizador.Source.Arithmetic

/-!
# The 64-bit division and remainder routines

`udiv64` is correct for every divisor and never makes DIVL trap. With more than 32 bits in
the divisor it divides by the upper bits of the divisor only, so its first estimate is the
quotient or one more. The quotient of the signed routine is the truncated one. The remainders
pass through 32-bit results and are right only if they fit.
-/
namespace Calendarizador.Guarantees
open Source
variable {n d : BitVec 64}

/-! ## Leading zeros -/

theorem nlzTest_spec {w x : Nat} {p : Nat × BitVec 32} (few : 2 * w ≤ 32)
    (shifted : p.2.toNat = x * 2 ^ p.1) (low : 2 ^ (32 - 2 * w) ≤ p.2.toNat) :
    (nlzTest w p).2.toNat = x * 2 ^ (nlzTest w p).1 ∧ 2 ^ (32 - w) ≤ (nlzTest w p).2.toNat := by
  have whole : 2 ^ (32 - w) * 2 ^ w = 2 ^ 32 := by
    rw [← Nat.pow_add, Nat.sub_add_cancel (by omega)]
  have half : 2 ^ (32 - 2 * w) * 2 ^ w = 2 ^ (32 - w) := by
    rw [← Nat.pow_add]
    congr 1
    omega
  have positive := Nat.two_pow_pos (32 - w)
  unfold nlzTest
  split
  · next below =>
    have fits : p.2.toNat * 2 ^ w < 2 ^ 32 := by
      rw [← whole]
      exact Nat.mul_lt_mul_of_pos_right (by omega) (Nat.two_pow_pos w)
    have value : (p.2 <<< w).toNat = p.2.toNat * 2 ^ w := by
      rw [BitVec.toNat_shiftLeft, Nat.shiftLeft_eq, Nat.mod_eq_of_lt fits]
    constructor
    · rw [value, shifted, Nat.mul_assoc, ← Nat.pow_add]
    · rw [value, ← half]
      exact Nat.mul_le_mul_right _ low
  · next above => exact ⟨shifted, by omega⟩

/-- The number shifted by its leading zeros has its highest bit set. -/
theorem nlz_spec {x : BitVec 32} (nonzero : x ≠ 0) :
    2 ^ 31 ≤ x.toNat * 2 ^ nlz x ∧ x.toNat * 2 ^ nlz x < 2 ^ 32 := by
  have positive : 1 ≤ x.toNat := by
    apply Nat.pos_of_ne_zero
    intro zero
    exact nonzero (BitVec.eq_of_toNat_eq zero)
  have start : ((0, x) : Nat × BitVec 32).2.toNat = x.toNat * 2 ^ 0 := (Nat.mul_one _).symm
  obtain ⟨first, low⟩ := nlzTest_spec (w := 16) (by omega) start positive
  obtain ⟨second, low⟩ := nlzTest_spec (w := 8) (by omega) first low
  obtain ⟨third, low⟩ := nlzTest_spec (w := 4) (by omega) second low
  obtain ⟨fourth, low⟩ := nlzTest_spec (w := 2) (by omega) third low
  unfold nlz
  dsimp only
  generalize nlzTest 2 (nlzTest 4 (nlzTest 8 (nlzTest 16 (0, x)))) = p at fourth low
  have bound := p.2.isLt
  split
  · next below =>
    have doubled : x.toNat * 2 ^ (p.1 + 1) = p.2.toNat * 2 := by
      rw [fourth, Nat.mul_assoc, ← Nat.pow_succ]
    omega
  · next above => omega

/-! ## The estimate -/

/-- Dividing by the upper bits of `d` overestimates the quotient by at most one. -/
theorem quotient_estimate {n d e : Nat} (some_ : 1 ≤ e) (small : n < 2 ^ 64)
    (high : 2 ^ 31 ≤ d / 2 ^ e) :
    n / d ≤ n / (d / 2 ^ e * 2 ^ e) ∧ n / (d / 2 ^ e * 2 ^ e) ≤ n / d + 1 := by
  generalize upper : d / 2 ^ e * 2 ^ e = u
  have parts : u + d % 2 ^ e = d := by
    rw [← upper, Nat.mul_comm, Nat.div_add_mod]
  have rest : d % 2 ^ e < 2 ^ e := Nat.mod_lt _ (Nat.two_pow_pos e)
  have large : 2 ^ 31 * 2 ^ e ≤ u := upper ▸ Nat.mul_le_mul_right _ high
  have positive : 0 < u := Nat.lt_of_lt_of_le (by positivity) large
  constructor
  · exact Nat.div_le_div_left (by omega) positive
  -- the quotient has so few bits that the bits left out of `d` do not matter
  have quotient : n / d * d ≤ n := Nat.div_mul_le_self n d
  have next : n < (n / d + 1) * d := by
    rw [Nat.mul_comm]
    exact Nat.lt_mul_div_succ n (by omega)
  have few : (n / d) * 2 ^ e < 2 ^ 33 := by
    have product : n / d * (2 ^ 31 * 2 ^ e) ≤ n / d * d := Nat.mul_le_mul_left _ (by omega)
    nlinarith
  have lost : (n / d + 1) * (d % 2 ^ e) ≤ u := by
    obtain rfl | more : e = 1 ∨ 2 ≤ e := by omega
    · have bit : d % 2 ^ 1 ≤ 1 := by omega
      calc (n / d + 1) * (d % 2 ^ 1) ≤ (n / d + 1) * 1 := Nat.mul_le_mul_left _ bit
        _ ≤ u := by omega
    · have four : 2 ^ 2 ≤ 2 ^ e := Nat.pow_le_pow_right (by omega) more
      have fewer : n / d * 2 ^ 2 ≤ n / d * 2 ^ e := Nat.mul_le_mul_left _ four
      calc (n / d + 1) * (d % 2 ^ e) ≤ 2 ^ 31 * 2 ^ e := Nat.mul_le_mul (by omega) (by omega)
        _ ≤ u := large
  apply Nat.le_of_lt_succ
  apply (Nat.div_lt_iff_lt_mul positive).mpr
  calc n < (n / d + 1) * d := next
    _ = (n / d + 1) * u + (n / d + 1) * (d % 2 ^ e) := by rw [← Nat.mul_add, parts]
    _ ≤ (n / d + 1) * u + u := Nat.add_le_add_left lost _
    _ = (n / d + 1 + 1) * u := by rw [Nat.add_mul (n / d + 1) 1, Nat.one_mul]

/-! ## Quotients -/

theorem divl_of_lt {d : BitVec 32} (nonzero : d ≠ 0) (fits : n.toNat / d.toNat < 4294967296) :
    ∃ q, divl n d = some q ∧ q.toNat = n.toNat / d.toNat := by
  refine ⟨_, if_pos ⟨nonzero, fits⟩, ?_⟩
  rw [BitVec.toNat_ofNat, Nat.mod_eq_of_lt fits]

theorem upper_toNat (d : BitVec 64) : ((d >>> 32).setWidth 32).toNat = d.toNat / 2 ^ 32 := by
  have bound := d.isLt
  rw [BitVec.toNat_setWidth, BitVec.toNat_ushiftRight, Nat.shiftRight_eq_div_pow]
  omega

theorem toNat_pos {w : Nat} {x : BitVec w} (nonzero : x ≠ 0) : 0 < x.toNat := by
  apply Nat.pos_of_ne_zero
  intro zero
  exact nonzero (BitVec.eq_of_toNat_eq zero)

/-- Long division with two digits of base `b`. -/
theorem divide_digits (n b : Nat) {d : Nat} (positive : 0 < d) :
    (b * (n / b % d) + n % b) / d + b * (n / b / d) = n / d := by
  have digits : d * (b * (n / b / d)) + (b * (n / b % d) + n % b) = n := by
    calc d * (b * (n / b / d)) + (b * (n / b % d) + n % b)
        = b * (d * (n / b / d) + n / b % d) + n % b := by ring
      _ = n := by rw [Nat.div_add_mod, Nat.div_add_mod]
  rw [Nat.add_comm, ← Nat.mul_add_div positive, digits]

/-- A number from its two halves. -/
theorem join_toNat (high low : BitVec 32) :
    ((1 <<< 32 : BitVec 64) * high.setWidth 64 + low.setWidth 64).toNat =
      2 ^ 32 * high.toNat + low.toNat := by
  have bounds := And.intro high.isLt low.isLt
  have one : (1 <<< 32 : BitVec 64).toNat = 2 ^ 32 := rfl
  rw [BitVec.toNat_add, BitVec.toNat_mul, one, BitVec.toNat_setWidth, BitVec.toNat_setWidth]
  omega

/-- A divisor of 32 bits: the upper half first, then its remainder with the lower half. -/
theorem udiv64_small (nonzero : d ≠ 0) (small : d >>> 32 = 0) : udiv64 n d = some (n / d) := by
  have positive := toNat_pos nonzero
  have divisor : (d.setWidth 32).toNat = d.toNat := by
    have zero : d.toNat >>> 32 = 0 := congrArg BitVec.toNat small
    rw [Nat.shiftRight_eq_div_pow] at zero
    rw [BitVec.toNat_setWidth]
    omega
  have operand : ((1 <<< 32 : BitVec 64) * (((n >>> 32).setWidth 32) % d.setWidth 32).setWidth 64 +
      (n.setWidth 32).setWidth 64).toNat =
        2 ^ 32 * (n.toNat / 2 ^ 32 % d.toNat) + n.toNat % 2 ^ 32 := by
    rw [join_toNat, BitVec.toNat_umod, upper_toNat, divisor, BitVec.toNat_setWidth]
  have fits : (2 ^ 32 * (n.toNat / 2 ^ 32 % d.toNat) + n.toNat % 2 ^ 32) / d.toNat < 2 ^ 32 := by
    apply (Nat.div_lt_iff_lt_mul positive).mpr
    have remainder := Nat.mod_lt (n.toNat / 2 ^ 32) positive
    have room : 2 ^ 32 * (n.toNat / 2 ^ 32 % d.toNat + 1) ≤ 2 ^ 32 * d.toNat :=
      Nat.mul_le_mul_left _ remainder
    omega
  have nonzero' : d.setWidth 32 ≠ 0 := by
    intro zero
    rw [zero] at divisor
    exact nonzero (BitVec.eq_of_toNat_eq divisor.symm)
  obtain ⟨q, divided, value⟩ := divl_of_lt nonzero' (by rw [operand, divisor]; exact fits)
  unfold udiv64
  rw [if_pos small]
  dsimp only
  rw [divided]
  apply congrArg some
  apply BitVec.eq_of_toNat_eq
  rw [BitVec.add_comm, join_toNat, BitVec.toNat_udiv, upper_toNat, divisor, value, operand, divisor,
    Nat.add_comm, divide_digits n.toNat (2 ^ 32) positive, BitVec.toNat_udiv]

/-- The test that corrects an estimate that may be one too large. -/
theorem corrected_estimate {q : BitVec 64} (positive : 0 < d.toNat) (atLeast : d.toNat ≤ n.toNat)
    (low : n.toNat / d.toNat ≤ q.toNat) (high : q.toNat ≤ n.toNat / d.toNat + 1) :
    (if n - (q - 1) * d < d then q - 1 else q) = n / d := by
  have some_ : 1 ≤ n.toNat / d.toNat := (Nat.one_le_div_iff positive).mpr atLeast
  have fewer : (q - 1).toNat = q.toNat - 1 := BitVec.toNat_sub_of_le (by
    rw [BitVec.le_def]
    exact Nat.le_trans some_ low)
  have product : (q.toNat - 1) * d.toNat ≤ n.toNat :=
    Nat.le_trans (Nat.mul_le_mul_right _ (by omega)) (Nat.div_mul_le_self _ _)
  have bound := n.isLt
  have multiple : ((q - 1) * d).toNat = (q.toNat - 1) * d.toNat := by
    rw [BitVec.toNat_mul, fewer, Nat.mod_eq_of_lt (by omega)]
  have remainder : (n - (q - 1) * d).toNat = n.toNat - (q.toNat - 1) * d.toNat := by
    rw [← multiple]
    apply BitVec.toNat_sub_of_le
    rw [BitVec.le_def, multiple]
    exact product
  have test : n - (q - 1) * d < d ↔ n.toNat - (q.toNat - 1) * d.toNat < d.toNat := by
    rw [BitVec.lt_def, remainder]
  apply BitVec.eq_of_toNat_eq
  rw [BitVec.toNat_udiv]
  have parts := Nat.div_add_mod' n.toNat d.toNat
  have rest := Nat.mod_lt n.toNat positive
  obtain same | more : q.toNat = n.toNat / d.toNat ∨ q.toNat = n.toNat / d.toNat + 1 := by omega
  · have less : (n.toNat / d.toNat - 1) * d.toNat + d.toNat = n.toNat / d.toNat * d.toNat := by
      rw [← Nat.succ_mul]
      congr 1
      omega
    rw [if_neg (by rw [test, same]; omega), same]
  · rw [if_pos (by rw [test, more, Nat.add_sub_cancel]; omega), fewer, more, Nat.add_sub_cancel]

/-- The upper 32 bits of a divisor, after its leading zeros. -/
theorem normalized_toNat {s : Nat} (few : s ≤ 31) (below : d.toNat / 2 ^ 32 * 2 ^ s < 2 ^ 32) :
    (((d <<< s) >>> 32).setWidth 32).toNat = d.toNat / 2 ^ (32 - s) := by
  have whole : 2 ^ (32 - s) * 2 ^ s = 2 ^ 32 := by
    rw [← Nat.pow_add, Nat.sub_add_cancel (by omega)]
  have upper : d.toNat / 2 ^ 32 < 2 ^ (32 - s) := by
    apply Nat.lt_of_mul_lt_mul_right (a := 2 ^ s)
    rw [whole]
    exact below
  have small : d.toNat < 2 ^ (32 - s) * 2 ^ 32 :=
    (Nat.div_lt_iff_lt_mul (by omega)).mp upper
  have fits : d.toNat * 2 ^ s < 2 ^ 64 := by
    calc d.toNat * 2 ^ s < 2 ^ (32 - s) * 2 ^ 32 * 2 ^ s :=
          Nat.mul_lt_mul_of_pos_right small (Nat.two_pow_pos s)
      _ = 2 ^ (32 - s) * 2 ^ s * 2 ^ 32 := by ring
      _ = 2 ^ 64 := by rw [whole, ← Nat.pow_add]
  rw [upper_toNat, BitVec.toNat_shiftLeft, Nat.shiftLeft_eq, Nat.mod_eq_of_lt fits, ← whole,
    Nat.mul_div_mul_right _ _ (Nat.two_pow_pos s)]

/-- A longer divisor: the estimate from its upper 32 bits is corrected once. -/
theorem udiv64_large (large : d >>> 32 ≠ 0) : udiv64 n d = some (n / d) := by
  unfold udiv64
  rw [if_neg large]
  by_cases less : n < d
  · rw [if_pos less]
    apply congrArg some
    apply BitVec.eq_of_toNat_eq
    rw [BitVec.toNat_udiv, Nat.div_eq_of_lt (BitVec.lt_def.mp less)]
    rfl
  rw [if_neg less]
  dsimp only
  have atLeast : d.toNat ≤ n.toNat := BitVec.not_lt.mp less
  have upper : (d >>> 32).setWidth 32 ≠ 0 := by
    intro zero
    have value := upper_toNat d
    rw [zero] at value
    apply large
    apply BitVec.eq_of_toNat_eq
    rw [BitVec.toNat_ushiftRight, Nat.shiftRight_eq_div_pow]
    exact value.symm
  have one := toNat_pos upper
  obtain ⟨high, below⟩ := nlz_spec upper
  rw [upper_toNat] at one high below
  generalize nlz ((d >>> 32).setWidth 32) = s at high below ⊢
  have few : s ≤ 31 := by
    apply Nat.le_of_lt_succ
    apply (Nat.pow_lt_pow_iff_right (a := 2) (by omega)).mp
    exact Nat.lt_of_le_of_lt (Nat.le_mul_of_pos_left _ one) below
  have divisor := normalized_toNat few below
  have normal : 2 ^ 31 ≤ d.toNat / 2 ^ (32 - s) := by
    rw [Nat.le_div_iff_mul_le (Nat.two_pow_pos _)]
    calc 2 ^ 31 * 2 ^ (32 - s) ≤ d.toNat / 2 ^ 32 * 2 ^ s * 2 ^ (32 - s) :=
          Nat.mul_le_mul_right _ high
      _ = d.toNat / 2 ^ 32 * 2 ^ 32 := by
        rw [Nat.mul_assoc, ← Nat.pow_add, Nat.add_sub_cancel' (by omega)]
      _ ≤ d.toNat := Nat.div_mul_le_self _ _
  have bound := n.isLt
  have half : (n >>> 1).toNat = n.toNat / 2 := by
    rw [BitVec.toNat_ushiftRight, Nat.shiftRight_eq_div_pow]
  have nonzero : ((d <<< s) >>> 32).setWidth 32 ≠ 0 := by
    intro zero
    rw [zero] at divisor
    rw [← divisor] at normal
    exact absurd normal (by decide)
  have fits : (n >>> 1).toNat / (((d <<< s) >>> 32).setWidth 32).toNat < 4294967296 := by
    rw [half, divisor]
    apply (Nat.div_lt_iff_lt_mul (by omega)).mpr
    omega
  obtain ⟨q, divided, value⟩ := divl_of_lt nonzero fits
  have estimate : ((q >>> (31 - s)).setWidth 64).toNat =
      n.toNat / (d.toNat / 2 ^ (32 - s) * 2 ^ (32 - s)) := by
    have shifts : 2 * 2 ^ (31 - s) = 2 ^ (32 - s) := by
      rw [← Nat.pow_succ']
      congr 1
      omega
    have short : q.toNat / 2 ^ (31 - s) < 2 ^ 64 :=
      Nat.lt_of_le_of_lt (Nat.div_le_self _ _) (by omega)
    rw [BitVec.toNat_setWidth, BitVec.toNat_ushiftRight, Nat.shiftRight_eq_div_pow,
      Nat.mod_eq_of_lt short, value, half, divisor, Nat.div_div_eq_div_mul,
      Nat.div_div_eq_div_mul, ← shifts]
    congr 1
    ring
  obtain ⟨low, high⟩ := quotient_estimate (e := 32 - s) (by omega) bound normal
  rw [divided]
  apply congrArg some
  apply corrected_estimate (by omega) atLeast
  · rw [estimate]
    exact low
  · rw [estimate]
    exact high

theorem udiv64_eq (nonzero : d ≠ 0) : udiv64 n d = some (n / d) := by
  by_cases small : d >>> 32 = 0
  · exact udiv64_small nonzero small
  · exact udiv64_large small

/-- The truncated quotient; of the least number by `-1` it is the least number again. -/
theorem sdiv64_eq (nonzero : d ≠ 0) : sdiv64 n d = some (n.sdiv d) := by
  have negated : -d ≠ 0 := fun zero => nonzero (BitVec.neg_eq_zero_iff.mp zero)
  have nSign : n.msb = decide (n.toInt < 0) := BitVec.msb_eq_toInt
  have dSign : d.msb = decide (d.toInt < 0) := BitVec.msb_eq_toInt
  unfold sdiv64
  rw [BitVec.sdiv_eq, nSign, dSign]
  simp only [← Int.not_lt]
  by_cases nNeg : n.toInt < 0 <;> by_cases dNeg : d.toInt < 0
  · simp [nNeg, dNeg, udiv64_eq negated]
  · simp [nNeg, dNeg, udiv64_eq nonzero]
  · simp [nNeg, dNeg, udiv64_eq negated]
  · simp [nNeg, dNeg, udiv64_eq nonzero]

/-- The one quotient that is not a signed 64-bit number. -/
def QuotientFits (n d : BitVec 64) : Prop := (n.toInt, d.toInt) ≠ (-9223372036854775808, -1)

theorem sdiv_toInt (fits : QuotientFits n d) : (n.sdiv d).toInt = n.toInt.tdiv d.toInt := by
  apply BitVec.toInt_sdiv_of_ne_or_ne
  by_contra both
  push Not at both
  apply fits
  rw [both.1, both.2]
  decide

theorem division_correct (n d : BitVec 64) (nonzero : d ≠ 0) :
    (∃ q, udivdi3 n d = some q ∧ q.toNat = n.toNat / d.toNat) ∧
    ∃ q, divdi3 n d = some q ∧ (QuotientFits n d → q.toInt = n.toInt.tdiv d.toInt) :=
  ⟨⟨_, udiv64_eq nonzero, BitVec.toNat_udiv⟩, _, sdiv64_eq nonzero, sdiv_toInt⟩

/-- The largest number by a divisor of 33 bits, and a negative one by another. -/
theorem division_correct_large :
    (∃ q, udivdi3 18446744073709551615 4294967297 = some q ∧ q.toNat = 4294967295) ∧
    ∃ q, divdi3 (-9223372036854775808) 4294967297 = some q ∧ q.toInt = -2147483647 := by
  obtain ⟨⟨q, divided, value⟩, _⟩ :=
    division_correct 18446744073709551615 4294967297 (by decide)
  obtain ⟨_, q', divided', value'⟩ :=
    division_correct (-9223372036854775808) 4294967297 (by decide)
  exact ⟨⟨q, divided, value⟩, q', divided', value' (by unfold QuotientFits; decide)⟩

/-! ## Remainders -/

theorem sub_mul_udiv (n d : BitVec 64) : n - d * (n / d) = n % d := by
  have product : d.toNat * (n.toNat / d.toNat) ≤ n.toNat := Nat.mul_div_le _ _
  have multiple : (d * (n / d)).toNat = d.toNat * (n.toNat / d.toNat) := by
    rw [BitVec.toNat_mul, BitVec.toNat_udiv, Nat.mod_eq_of_lt (Nat.lt_of_le_of_lt product n.isLt)]
  apply BitVec.eq_of_toNat_eq
  rw [BitVec.toNat_sub_of_le (by rw [BitVec.le_def, multiple]; exact product), multiple,
    BitVec.toNat_umod]
  have parts := Nat.div_add_mod n.toNat d.toNat
  omega

theorem sub_mul_sdiv (fits : QuotientFits n d) : n - d * n.sdiv d = n.srem d := by
  apply BitVec.eq_of_toInt_eq
  rw [BitVec.toInt_sub, BitVec.toInt_mul, sdiv_toInt fits, Int.sub_bmod_bmod, ← Int.tmod_def,
    ← BitVec.toInt_srem, BitVec.toInt_bmod_cancel]

/-- The remainder passes through a `uint32_t`. -/
theorem umoddi3_eq (nonzero : d ≠ 0) :
    ∃ r, umoddi3 n d = some r ∧ r.toNat = n.toNat % d.toNat % 4294967296 := by
  unfold umoddi3 umod64
  rw [udiv64_eq nonzero]
  refine ⟨_, rfl, ?_⟩
  rw [sub_mul_udiv, BitVec.toNat_setWidth, BitVec.toNat_setWidth, BitVec.toNat_umod]
  omega

/-- The remainder passes through an `int32_t`. -/
theorem moddi3_eq (nonzero : d ≠ 0) (fits : QuotientFits n d) :
    ∃ r, moddi3 n d = some r ∧ r.toInt = (n.toInt.tmod d.toInt).bmod 4294967296 := by
  have width : 2 ^ min 64 32 = 4294967296 := by decide
  have divides : (4294967296 : Nat) ∣ 2 ^ 64 := by decide
  unfold moddi3 smod64
  rw [sdiv64_eq nonzero]
  refine ⟨_, rfl, ?_⟩
  rw [sub_mul_sdiv fits, BitVec.toInt_signExtend, BitVec.toInt_setWidth, ← BitVec.toInt_srem,
    BitVec.toInt_eq_toNat_bmod (n.srem d), Int.bmod_bmod_of_dvd divides, width]
  exact Int.bmod_bmod

/-- The remainders are right, and go with the quotients, exactly if they fit in 32 bits. -/
theorem remainder_correct_iff (n d : BitVec 64) (nonzero : d ≠ 0) :
    (∃ q r, udivdi3 n d = some q ∧ umoddi3 n d = some r ∧
      (r.toNat = n.toNat % d.toNat ↔ n.toNat % d.toNat < 4294967296) ∧
      (n.toNat = q.toNat * d.toNat + r.toNat ↔ n.toNat % d.toNat < 4294967296)) ∧
    (QuotientFits n d → ∃ q r, divdi3 n d = some q ∧ moddi3 n d = some r ∧
      (r.toInt = n.toInt - d.toInt * n.toInt.tdiv d.toInt ↔
        -2147483648 ≤ n.toInt.tmod d.toInt ∧ n.toInt.tmod d.toInt < 2147483648) ∧
      (n.toInt = q.toInt * d.toInt + r.toInt ↔
        -2147483648 ≤ n.toInt.tmod d.toInt ∧ n.toInt.tmod d.toInt < 2147483648)) := by
  constructor
  · obtain ⟨r, computed, value⟩ := umoddi3_eq (n := n) nonzero
    refine ⟨_, r, udiv64_eq nonzero, computed, ?_, ?_⟩
    · rw [value]
      omega
    · have parts := Nat.div_add_mod' n.toNat d.toNat
      rw [value, BitVec.toNat_udiv]
      omega
  · intro fits
    obtain ⟨r, computed, value⟩ := moddi3_eq nonzero fits
    have definition := Int.tmod_def n.toInt d.toInt
    have stored : (n.toInt.tmod d.toInt).bmod 4294967296 = n.toInt.tmod d.toInt ↔
        -2147483648 ≤ n.toInt.tmod d.toInt ∧ n.toInt.tmod d.toInt < 2147483648 := by
      rw [Int.bmod_def]
      split <;> omega
    refine ⟨_, r, sdiv64_eq nonzero, computed, ?_, ?_⟩
    · rw [value, ← definition]
      exact stored
    · rw [sdiv_toInt fits, value, ← stored, Int.mul_comm]
      omega

/-- Remainders that fit. -/
theorem remainder_correct_iff_fits : (∃ r, umoddi3 18446744073709551615 4294967295 = some r ∧
      r.toNat = 0) ∧
    ∃ r, moddi3 (-9223372036854775808) 4294967295 = some r ∧ r.toInt = -2147483648 := by
  obtain ⟨⟨_, r, _, computed, right, _⟩, _⟩ :=
    remainder_correct_iff 18446744073709551615 4294967295 (by decide)
  obtain ⟨_, signed⟩ := remainder_correct_iff (-9223372036854775808) 4294967295 (by decide)
  obtain ⟨_, r', _, computed', right', _⟩ := signed (by unfold QuotientFits; decide)
  exact ⟨⟨r, computed, right.mpr (by decide)⟩, r', computed', right'.mpr (by decide)⟩

/-- Both routines lose a remainder of 33 bits. -/
theorem remainder_truncated : umoddi3 4294967296 8589934592 = some 0 ∧
    moddi3 2147483648 4294967296 = some (-2147483648) := by
  decide +kernel

end Calendarizador.Guarantees
