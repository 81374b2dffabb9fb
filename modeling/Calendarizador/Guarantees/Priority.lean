import Calendarizador.Invariant.MlfqsTick

/-!
# The recalculation of priorities

Every fourth second each thread should get the priority that its recent CPU time and its
nice value determine. `thread_tick` does nothing while the ready list is empty, and
`refresh_priority` goes over the ready list, so blocked threads keep what they had, and
so does `initial_thread` unless it is running.
-/
namespace Calendarizador.Guarantees
open Foundation Source

/-- A quarter of a fixed-point number, rounded to the nearest integer and away from zero
on a tie. -/
def quarterRounded (recentCpu : Int) : Int :=
  if recentCpu ≥ 0 then (recentCpu + 32768) / 65536 else -((32768 - recentCpu) / 65536)

/-- The formula for priorities before it is clamped, without overflow. -/
def exactPriority (recentCpu nice : Int) : Int :=
  priMax - quarterRounded recentCpu - 2 * nice

/-- Every live thread but the idle one has the priority of the formula. -/
def PriorityLaw (k : Kernel) : Prop :=
  ∀ p, k.Live p → k.idleThread ≠ some p →
    (k.thread p).priority =
      clampPriority (exactPriority (k.thread p).recentCpu (k.thread p).nice)

/-- Truncating the quarter before rounding does no harm. -/
theorem fpToIntRound_quarter (recentCpu : Int) (low : -2147483648 ≤ recentCpu)
    (high : recentCpu < 2147483648) :
    fpToIntRound (divInt recentCpu 4) = quarterRounded recentCpu := by
  unfold fpToIntRound divInt quarterRounded fpOne
  by_cases nonneg : 0 ≤ recentCpu
  · rw [tdiv_nonneg_eq _ _ nonneg, if_pos (by omega), if_pos nonneg,
      i32_of_bounds _ (by omega) (by omega), tdiv_nonneg_eq _ _ (by omega)]
    omega
  · rw [tdiv_neg_eq _ _ (by omega), if_neg nonneg]
    split
    · rw [i32_of_bounds _ (by omega) (by omega), tdiv_nonneg_eq _ _ (by omega)]
      omega
    · rw [i32_of_bounds _ (by omega) (by omega), tdiv_neg_eq _ _ (by omega)]
      omega

/-- The code computes the formula up to the wrap-around of `int`. -/
theorem rawPriority_eq (recentCpu nice : Int) (low : -2147483648 ≤ recentCpu)
    (high : recentCpu < 2147483648) :
    rawPriority recentCpu nice = i32 (exactPriority recentCpu nice) := by
  rw [rawPriority, fpToIntRound_quarter recentCpu low high, exactPriority]
  unfold i32
  omega

/-- Right after a recalculation the law holds exactly if no overflow shows in the
priorities that were recalculated, and all others were already what they have to be. -/
theorem priority_recalculated (k ticked : Kernel) (h : Reachable (kernelSystem .mlfqs) k)
    (fourth : (k.ticks + 1) % (timerFreq * 4) = 0) (taken : threadTick (atTick k) = .ok ticked) :
    PriorityLaw ticked ↔ ∀ p, k.Live p → k.idleThread ≠ some p →
      let exact := exactPriority (cpuAfterTick (atTick k) p) (k.thread p).nice
      if k.readyList ≠ [] ∧ (p = k.current ∨ (p ∈ k.readyList ∧ p ≠ k.initialThread)) then
        clampPriority (i32 exact) = clampPriority exact
      else (k.thread p).priority = clampPriority exact := by
  have inv : Inv (atTick k) := (reachable_inv h).registers (k.ticks + 1) false
  have mode : k.mode = .mlfqs := reachable_mode h
  have values := threadTick_ticked inv mode taken
  have stored := (reachable_stored h).ticked.2
  have accounts := threadTick_accounting taken
  refine forall_congr' fun p => ?_
  rw [accounts.live, accounts.idleThread]
  refine forall_congr' fun live => forall_congr' fun ordinary => ?_
  have refreshed : Refreshed (atTick k) p ↔
      k.readyList ≠ [] ∧ (p = k.current ∨ (p ∈ k.readyList ∧ p ≠ k.initialThread)) :=
    ⟨fun all => ⟨all.1, all.2.2⟩, fun both => ⟨both.1, fourth, both.2⟩⟩
  have range := stored p
  rw [values.priority, values.recentCpu, values.nice, priorityAfterTick,
    rawPriority_eq _ _ range.1 range.2]
  simp only [refreshed]
  split <;> rfl

/-- `main` at priority 63 keeps the CPU for four seconds while another thread is ready:
both are recalculated. -/
theorem priority_recalculated_both : ∃ k ticked, threadTick (atTick k) = .ok ticked ∧
    (k.ticks, k.current, k.readyList) = (399, 0, [2]) ∧ PriorityLaw ticked := by
  obtain ⟨k, reached, clock, all, idle, initial, exact, ticked, taken, _⟩ := execute_holds .mlfqs
    (threadStart ++ [.setPriority 0, .create (some 2) ['a'] 31, .unblock 2] ++
      List.replicate 399 .timer) (P := fun k =>
      (k.ticks, k.current, k.readyList) = (399, 0, [2]) ∧ k.allList = [0, 1, 2] ∧
        k.idleThread = some 1 ∧ k.initialThread = 0 ∧
        (∀ p ∈ [0, 2],
          let exact := exactPriority (cpuAfterTick (atTick k) p) (k.thread p).nice
          clampPriority (i32 exact) = clampPriority exact) ∧
        ∃ ticked ∈ (threadTick (atTick k)).toOption, True) (by decide +kernel)
  have taken := toOption_eq_some taken
  refine ⟨k, ticked, taken, clock, ?_⟩
  simp only [Prod.mk.injEq] at clock
  obtain ⟨ticks, current, ready⟩ := clock
  refine (priority_recalculated k ticked reached (by rw [ticks]; decide) taken).mpr ?_
  intro p live ordinary
  have listed := ((reachable_inv reached).core.threads p).all.mpr live
  rw [all] at listed
  simp only [List.mem_cons, List.not_mem_nil, or_false] at listed
  rcases listed with rfl | rfl | rfl
  · rw [if_pos (by simp [ready, current])]
    exact exact 0 (by simp)
  · exact absurd idle ordinary
  · rw [if_pos (by simp [ready, initial])]
    exact exact 2 (by simp)

/-- `main` runs alone for four seconds: its priority stays 0, and the formula gives 63. -/
theorem priority_recalculated_alone : ∃ k ticked, Reachable (kernelSystem .mlfqs) k ∧
    threadTick (atTick k) = .ok ticked ∧ (k.ticks, k.current, k.readyList) = (399, 0, []) ∧
    ((ticked.thread 0).priority, (ticked.thread 0).recentCpu, (ticked.thread 0).nice) = (0, 0, 0) ∧
    clampPriority (exactPriority 0 0) = 63 ∧ ¬ PriorityLaw ticked := by
  obtain ⟨k, reached, clock, ticked, taken, live, idle, thread⟩ := execute_holds .mlfqs
    (threadStart ++ List.replicate 399 .timer) (P := fun k =>
      (k.ticks, k.current, k.readyList) = (399, 0, []) ∧
        ∃ ticked ∈ (threadTick (atTick k)).toOption, ticked.Live 0 ∧ ticked.idleThread ≠ some 0 ∧
          ((ticked.thread 0).priority, (ticked.thread 0).recentCpu, (ticked.thread 0).nice) =
            (0, 0, 0)) (by decide +kernel)
  refine ⟨k, ticked, reached, toOption_eq_some taken, clock, thread, by decide, fun law => ?_⟩
  simp only [Prod.mk.injEq] at thread
  have ruled := law 0 live idle
  rw [thread.1, thread.2.1, thread.2.2] at ruled
  cases ruled

end Calendarizador.Guarantees
