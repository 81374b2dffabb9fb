import Calendarizador.Invariant.MlfqsTick

/-!
# The recent CPU time

Every tick should be charged to the running thread, and once a second the recent CPU time
of every thread but the idle one should decay. `thread_tick` does neither while the ready
list is empty, and otherwise it charges the idle thread like any other.
-/
namespace Calendarizador.Guarantees
open Foundation Source
variable {k : Kernel}

/-- The value a live thread should have after an interrupt. The decay uses the load
average `load` of that second; it may come before or after the charge. -/
def PrescribedCpu (k : Kernel) (load : Int) (p : Page) (recentCpu : Int) : Prop :=
  let old := (k.thread p).recentCpu
  let nice := (k.thread p).nice
  if k.idleThread = some p then recentCpu = old
  else if (k.ticks + 1) % timerFreq = 0 then
    if p = k.current then recentCpu = addInt (decayedCpu load old nice) 1 ∨
      recentCpu = decayedCpu load (addInt old 1) nice
    else recentCpu = decayedCpu load old nice
  else if p = k.current then recentCpu = addInt old 1
  else recentCpu = old

def CpuLaw (k after : Kernel) : Prop :=
  ∀ p, k.Live p → PrescribedCpu k after.loadAvg p (after.thread p).recentCpu

/-- What a tick computes for a live thread while somebody is ready. -/
theorem cpuAfterTick_ready (someone : k.readyList ≠ []) {p : Page} (live : k.Live p) :
    let decayed := if (k.ticks + 1) % timerFreq = 0 ∧ k.idleThread ≠ some p then
        decayedCpu (loadAfterTick (atTick k)) (k.thread p).recentCpu (k.thread p).nice
      else (k.thread p).recentCpu
    cpuAfterTick (atTick k) p = if p = k.current then addInt decayed 1 else decayed := by
  have decays : cpuDecayed (atTick k) p =
      if (k.ticks + 1) % timerFreq = 0 ∧ k.idleThread ≠ some p then
        decayedCpu (loadAfterTick (atTick k)) (k.thread p).recentCpu (k.thread p).nice
      else (k.thread p).recentCpu := by
    change (if k.readyList ≠ [] ∧ (k.ticks + 1) % timerFreq = 0 ∧ k.Live p ∧
      k.idleThread ≠ some p then _ else _) = _
    simp only [someone, live, ne_eq, not_false_eq_true, true_and]
    rfl
  change (if k.readyList ≠ [] ∧ p = k.current then _ else _) = _
  rw [decays]
  simp only [someone, ne_eq, not_false_eq_true, true_and]

/-- While somebody is ready, every thread gets what is prescribed except the idle thread
on the CPU. -/
theorem prescribedCpu_ready (someone : k.readyList ≠ []) {p : Page} (live : k.Live p) :
    PrescribedCpu k (loadAfterTick (atTick k)) p (cpuAfterTick (atTick k) p) ↔
      ¬ (k.idleThread = some p ∧ p = k.current) := by
  rw [cpuAfterTick_ready someone live, PrescribedCpu]
  by_cases here : p = k.current
  · subst here
    by_cases idle : k.idleThread = some k.current
    · simp [idle, addInt_one_ne]
    · by_cases second : (k.ticks + 1) % timerFreq = 0 <;> simp [idle, second]
  · by_cases idle : k.idleThread = some p
    · simp [idle, here]
    · by_cases second : (k.ticks + 1) % timerFreq = 0 <;> simp [idle, here, second]

/-- Nothing changes while nobody is ready. -/
theorem cpuAfterTick_empty (nobody : k.readyList = []) (p : Page) :
    cpuAfterTick (atTick k) p = (k.thread p).recentCpu ∧
      loadAfterTick (atTick k) = k.loadAvg := by
  have none : ¬ (atTick k).readyList ≠ [] := not_not.mpr nobody
  refine ⟨?_, if_neg fun both => none both.1⟩
  exact (if_neg fun both => none both.1).trans (if_neg fun all => none all.1)

/-- The prescribed decay and charge would leave the value as it is. -/
def CpuAtRest (k : Kernel) (p : Page) : Prop :=
  let old := (k.thread p).recentCpu
  let nice := (k.thread p).nice
  if p = k.current then old = addInt (decayedCpu k.loadAvg old nice) 1 ∨
    old = decayedCpu k.loadAvg (addInt old 1) nice
  else old = decayedCpu k.loadAvg old nice

/-- An interrupt obeys the law exactly if somebody is ready and the idle thread is not
running, or nobody is ready and there is nothing to charge and nothing to decay. -/
theorem recent_cpu (k after : Kernel) (h : Reachable (kernelSystem .mlfqs) k)
    (taken : step k .timer = .ok after) :
    CpuLaw k after ↔
      (k.readyList ≠ [] ∧ k.idleThread ≠ some k.current) ∨
      (k.readyList = [] ∧ (k.ticks + 1) % timerFreq ≠ 0 ∧ k.idleThread = some k.current) ∨
      (k.readyList = [] ∧ (k.ticks + 1) % timerFreq = 0 ∧
        ∀ p, k.Live p → k.idleThread ≠ some p → CpuAtRest k p) := by
  have inv := reachable_inv h
  obtain ⟨load, cpu⟩ := timer_step_values inv (reachable_mode h) taken
  unfold CpuLaw
  simp only [load, cpu]
  by_cases nobody : k.readyList = []
  · have values := cpuAfterTick_empty nobody
    simp only [(values _).1, (values k.current).2, nobody, ne_eq, not_true_eq_false, false_and,
      true_and, false_or]
    by_cases second : (k.ticks + 1) % timerFreq = 0
    · simp only [second, not_true_eq_false, false_and, true_and, false_or]
      refine forall_congr' fun p => forall_congr' fun live => ?_
      by_cases idle : k.idleThread = some p
      · simp [PrescribedCpu, idle]
      · simp [PrescribedCpu, CpuAtRest, idle, second]
    · simp only [second, not_false_eq_true, true_and, false_and, or_false]
      constructor
      · intro law
        by_contra busy
        have charged := law k.current inv.live
        simp only [PrescribedCpu, busy, second, if_true, if_false] at charged
        exact addInt_one_ne _ charged.symm
      · intro idle p live
        by_cases here : p = k.current
        · simp [PrescribedCpu, here, idle]
        · simp [PrescribedCpu, here, second]
  · simp only [nobody, ne_eq, not_false_eq_true, true_and, false_and, or_false]
    constructor
    · intro law idle
      exact (prescribedCpu_ready nobody inv.live).mp (law k.current inv.live) ⟨idle, rfl⟩
    · intro busy p live
      refine (prescribedCpu_ready nobody live).mpr ?_
      rintro ⟨idle, rfl⟩
      exact busy idle

/-- `main` and a ready thread: the tick is charged to `main`. -/
theorem recent_cpu_main : ∃ k after, step k .timer = .ok after ∧
    ((k.thread 0).recentCpu, (after.thread 0).recentCpu) = (0, 16384) ∧ CpuLaw k after := by
  obtain ⟨k, reached, ready, running, before, after, taken, charged⟩ := execute_holds .mlfqs
    (threadStart ++ [.create (some 2) ['a'] 31, .unblock 2]) (P := fun k =>
      k.readyList ≠ [] ∧ k.idleThread ≠ some k.current ∧ (k.thread 0).recentCpu = 0 ∧
        ∃ after ∈ (step k .timer).toOption, (after.thread 0).recentCpu = 16384) (by decide +kernel)
  have taken := toOption_eq_some taken
  refine ⟨k, after, taken, by rw [before, charged], ?_⟩
  exact (recent_cpu k after reached taken).mpr (.inl ⟨ready, running⟩)

/-- `main` runs alone: its first tick is not charged. -/
theorem recent_cpu_alone : ∃ k after, Reachable (kernelSystem .mlfqs) k ∧
    step k .timer = .ok after ∧ (k.ticks, k.current, k.idleThread) = (0, 0, some 1) ∧
    ((k.thread 0).recentCpu, (after.thread 0).recentCpu) = (0, 0) ∧ ¬ CpuLaw k after := by
  obtain ⟨k, reached, clock, before, live, after, taken, unchanged⟩ := execute_holds .mlfqs
    threadStart (P := fun k => (k.ticks, k.current, k.idleThread) = (0, 0, some 1) ∧
      (k.thread 0).recentCpu = 0 ∧ k.Live 0 ∧
        ∃ after ∈ (step k .timer).toOption, (after.thread 0).recentCpu = 0) (by decide +kernel)
  refine ⟨k, after, reached, toOption_eq_some taken, clock, by rw [before, unchanged],
    fun law => ?_⟩
  simp only [Prod.mk.injEq] at clock
  have charged := law 0 live
  simp [PrescribedCpu, clock, before, unchanged, timerFreq] at charged
  cases charged

end Calendarizador.Guarantees
