import Calendarizador.Guarantees.FixedPoint
import Calendarizador.Invariant.MlfqsTick

/-!
# The range of the load average

The load average is a weighted mean of itself and the number of ready threads, so it stays
below the largest such number. Up to 2221 threads the product by 59 fits an `int`. The
coefficient of the decay is then below one, and the decay never moves a recent CPU time
away from zero.
-/
namespace Calendarizador.Guarantees
open Foundation Source

/-- `refresh_load_avg` without wrap-around: no result once an operation overflows. -/
def evaluateLoadAvg (k : Kernel) : Option Int := do
  let readyThreadCount ← word32 k.readyList.length
  let _ ← word32 (readyThreadCount + if k.idleThread ≠ some k.current then 1 else 0)
  let readyLength ← word32 k.readyList.length
  let weighted ← word32 (k.loadAvg * 59)
  let scaled ← word32 (readyLength * fpOne)
  word32 (weighted.tdiv 60 + scaled.tdiv 60)

/-- The factor by which `refresh_cpu` multiplies. -/
def decayFactor (loadAvg : Int) : Int := divFp (multInt loadAvg 2) (decayDivisor loadAvg)

/-- With the load average `load` the decay divides by a positive number and moves nothing
away from zero. -/
structure Contracts (load : Int) : Prop where
  divisor : decayDivisor load = 2 * load + fpOne ∧ 0 < decayDivisor load
  factor : 0 ≤ decayFactor load ∧ decayFactor load < fpOne
  decay : ∀ r, IsInt r → (multFp (decayFactor load) r).natAbs ≤ r.natAbs

theorem contracts_of_range (load : Int) (low : 0 ≤ load) (high : load ≤ 2221 * 16384) :
    Contracts load := by
  have double : multInt load 2 = 2 * load := by
    rw [multInt, i32_of_bounds _ (by omega) (by omega)]
    omega
  have divisor : decayDivisor load = 2 * load + 16384 := by
    rw [decayDivisor, double, addInt, i32_add_right, fpOne, i32_of_bounds _ (by omega) (by omega)]
    omega
  have factor : decayFactor load = 2 * load * 16384 / (2 * load + 16384) := by
    have nonneg : 0 ≤ 2 * load * 16384 := by omega
    have quotient : 2 * load * 16384 / (2 * load + 16384) ≤ 2 * load * 16384 :=
      Int.ediv_le_self _ nonneg
    have positive : 0 ≤ 2 * load * 16384 / (2 * load + 16384) :=
      Int.ediv_nonneg nonneg (by omega)
    have below : 2 * load * 16384 / (2 * load + 16384) < 16384 :=
      Int.ediv_lt_of_lt_mul (by omega) (by omega)
    rw [decayFactor, double, divisor, divFp, fpOne, i64_of_bounds _ (by omega) (by omega),
      tdiv_nonneg_eq _ _ nonneg, i32_of_bounds _ (by omega) (by omega)]
  have low' : 0 ≤ decayFactor load := by
    rw [factor]
    exact Int.ediv_nonneg (by omega) (by omega)
  have high' : decayFactor load < 16384 := by
    rw [factor]
    exact Int.ediv_lt_of_lt_mul (by omega) (by omega)
  refine ⟨⟨divisor, by omega⟩, ⟨low', high'⟩, fun r int => ?_⟩
  obtain ⟨least, most⟩ := product_bounds (decayFactor load) r ⟨by omega, by omega⟩ int
  have size : ((decayFactor load * r).tdiv 16384).natAbs ≤ 16383 * r.natAbs / 16384 := by
    rw [Int.natAbs_tdiv, Int.natAbs_mul]
    exact Nat.div_le_div_right (Nat.mul_le_mul_right _ (by omega))
  obtain ⟨lowest, highest⟩ := int
  rw [multFp, fpOne, i64_of_bounds _ least most, i32_of_bounds _ (by omega) (by omega)]
  omega

/-- The update in exact integers. -/
theorem refreshLoadAvg_eq (k : Kernel) (low : 0 ≤ k.loadAvg) (high : k.loadAvg ≤ 2221 * 16384)
    (ready : k.readyList.length ≤ 2221) :
    (refreshLoadAvg k).loadAvg = k.loadAvg * 59 / 60 + k.readyList.length * 16384 / 60 := by
  have count : i32 k.readyList.length = k.readyList.length :=
    i32_of_bounds _ (by omega) (by omega)
  have weighted : divInt (multInt k.loadAvg 59) 60 = k.loadAvg * 59 / 60 := by
    rw [multInt, i32_of_bounds _ (by omega) (by omega), divInt, tdiv_nonneg_eq _ _ (by omega)]
  have scaled : divInt (intToFp k.readyList.length) 60 = k.readyList.length * 16384 / 60 := by
    rw [intToFp, fpOne, i32_of_bounds _ (by omega) (by omega), divInt,
      tdiv_nonneg_eq _ _ (by omega)]
  rw [refreshLoadAvg, count, weighted, scaled, addFp, i32_of_bounds _ (by omega) (by omega)]

theorem evaluateLoadAvg_eq (k : Kernel) (low : 0 ≤ k.loadAvg) (high : k.loadAvg ≤ 2221 * 16384)
    (ready : k.readyList.length ≤ 2221) : evaluateLoadAvg k = some (refreshLoadAvg k).loadAvg := by
  have stored (x : Int) (nonneg : 0 ≤ x) (small : x < 2147483648) : word32 x = some x :=
    word32_of_bounds x (by omega) small
  have running : 0 ≤ (if k.idleThread ≠ some k.current then 1 else 0 : Int) ∧
      (if k.idleThread ≠ some k.current then 1 else 0 : Int) ≤ 1 := by
    split <;> decide
  rw [refreshLoadAvg_eq k low high ready, evaluateLoadAvg]
  generalize (if k.idleThread ≠ some k.current then 1 else 0 : Int) = more at running
  rw [stored k.readyList.length (by omega) (by omega), Option.bind_eq_bind, Option.bind_some,
    stored (k.readyList.length + more) (by omega) (by omega), Option.bind_some, Option.bind_some,
    stored (k.loadAvg * 59) (by omega) (by omega), Option.bind_some, fpOne,
    stored (k.readyList.length * 16384) (by omega) (by omega), Option.bind_some,
    tdiv_nonneg_eq _ _ (by omega), tdiv_nonneg_eq _ _ (by omega), stored _ (by omega) (by omega)]

/-- The load average of every run with at most `N` ready threads. -/
theorem reachable_load {N : Nat} (most : N ≤ 2221) {k : Kernel}
    (h : ReachableWhile (kernelSystem .mlfqs) (fun s _ => s.readyList.length ≤ N) k) :
    0 ≤ k.loadAvg ∧ k.loadAvg ≤ N * 16384 := by
  suffices bounded : Reachable (kernelSystem .mlfqs) k ∧
      0 ≤ k.loadAvg ∧ k.loadAvg ≤ (N : Int) * 16384 from bounded.2
  refine h.invariant (P := fun k => Reachable (kernelSystem .mlfqs) k ∧
      0 ≤ k.loadAvg ∧ k.loadAvg ≤ (N : Int) * 16384) ?_ ?_
  · rintro s ⟨values, booted⟩
    refine ⟨.initial ⟨values, booted⟩, ?_⟩
    rw [(threadInit_booted booted).loadAvg]
    omega
  · rintro s e after ⟨reached, before⟩ ready taken
    have inv := reachable_inv reached
    have mode := reachable_mode reached
    refine ⟨reached.step e taken, ?_⟩
    by_cases tick : e = .timer
    · subst tick
      rw [(timer_step_values inv mode taken).1, loadAfterTick]
      split
      · have length : (atTick s).readyList.length ≤ N := ready
        have bounds : 0 ≤ (atTick s).loadAvg ∧ (atTick s).loadAvg ≤ (N : Int) * 16384 := before
        rw [refreshLoadAvg_eq (atTick s) (by omega) (by omega) (by omega)]
        omega
      · exact before
    · rw [(step_averages inv mode tick taken).1]
      exact before

/-- The arithmetic of the load average and of the decay in every run in which at most `N`
threads are ready at a time: the bound, no overflow in `refresh_load_avg`, and a decay that
contracts, both with the load average at hand and with the one the update leaves. -/
theorem load_in_range (N : Nat) (most : N ≤ 2221) (k : Kernel)
    (h : ReachableWhile (kernelSystem .mlfqs) (fun s _ => s.readyList.length ≤ N) k)
    (ready : k.readyList.length ≤ N) :
    (0 ≤ k.loadAvg ∧ k.loadAvg ≤ N * fpOne) ∧
    evaluateLoadAvg k = some (refreshLoadAvg k).loadAvg ∧
    Contracts k.loadAvg ∧ Contracts (refreshLoadAvg k).loadAvg := by
  obtain ⟨low, high⟩ := reachable_load most h
  have value := refreshLoadAvg_eq k low (by omega) (by omega)
  refine ⟨⟨low, high⟩, evaluateLoadAvg_eq k low (by omega) (by omega),
    contracts_of_range _ low (by omega), contracts_of_range _ ?_ ?_⟩
  · omega
  · omega

/-- `main` sleeps for a second and is ready when the load is computed. -/
theorem load_in_range_one : ∃ k, k.loadAvg = 273 ∧ Contracts k.loadAvg ∧
    evaluateLoadAvg k = some (refreshLoadAvg k).loadAvg := by
  obtain ⟨k, reached, load, few⟩ := executeWhile_holds .mlfqs (fun s _ => s.readyList.length ≤ 1)
    (threadStart ++ [.sleep 99] ++ List.replicate 100 .timer)
    (P := fun k => k.loadAvg = 273 ∧ k.readyList.length ≤ 1) (by decide +kernel)
  obtain ⟨_, evaluated, contracts, _⟩ := load_in_range 1 (by decide) k reached few
  exact ⟨k, load, contracts, evaluated⟩

end Calendarizador.Guarantees
