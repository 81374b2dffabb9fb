import Calendarizador.Invariant.Estimates

/-!
# Learning burst times per name

An exiting thread averages its burst into its own `total_exec`, and the lookup loop that
follows reads the estimates from the records. The result reaches the estimate of the
name only if the exiting thread is itself the record: what later threads of the same
name measure is overwritten. The exact condition also shows where the 32-bit average
overflows.
-/
namespace Calendarizador.Guarantees
open Foundation Source

/-- The estimate after a burst: the burst itself if there was no estimate, and otherwise
the mean of the two to the nearest integer. -/
def Averaged (old recent value : Int) : Prop :=
  (old = 0 → value = recent) ∧
    (old ≠ 0 → -1 ≤ 2 * value - (old + recent) ∧ 2 * value - (old + recent) ≤ 1)

theorem newTotalExec_eq (old recent : Int) (known : old ≠ 0) :
    newTotalExec old recent = fpToIntRound (i32 (8192 * (old + recent))) := by
  have half : divInt (intToFp 1) 2 = 8192 := by decide
  have other : subFp (intToFp 1) 8192 = 8192 := by decide
  simp only [newTotalExec, if_neg known, half, other, multInt, addFp]
  rw [i32_add_left, i32_add_right]
  congr 2
  ring

/-- The average fits its registers on this range, and on one more sum by accident. -/
theorem averaged_iff (sum : Int) : (-1 ≤ 2 * fpToIntRound (i32 (8192 * sum)) - sum ∧
      2 * fpToIntRound (i32 (8192 * sum)) - sum ≤ 1) ↔
    sum = -262145 ∨ (-262144 < sum ∧ sum < 262143) := by
  unfold fpToIntRound fpOne
  split
  · rename_i nonneg
    by_cases wraps : i32 (i32 (8192 * sum) + 16384 / 2) < 0
    · rw [tdiv_neg_eq _ _ wraps]
      unfold i32 at *
      omega
    · rw [tdiv_nonneg_eq _ _ (by omega)]
      unfold i32 at *
      omega
  · rename_i negative
    by_cases wraps : i32 (i32 (8192 * sum) - 16384 / 2) < 0
    · rw [tdiv_neg_eq _ _ wraps]
      unfold i32 at *
      omega
    · rw [tdiv_nonneg_eq _ _ (by omega)]
      unfold i32 at *
      omega

/-- What an exit teaches under SJF. -/
theorem burst_learned (k : Kernel) (h : Reachable (kernelSystem .sjf) k) :
    ∃ after, learnBurst k = .ok after ∧
      (∀ q, (getTotalExec after q).1 = estimate after (after.thread q).name) ∧
      (∀ name, name ≠ (k.thread k.current).name → estimate after name = estimate k name) ∧
      (Averaged (k.thread k.current).totalExec (k.thread k.current).currExec
          (estimate after (k.thread k.current).name) ↔
        if recordOf k (k.thread k.current).name = some k.current then
          (k.thread k.current).totalExec = 0 ∨
          (k.thread k.current).totalExec + (k.thread k.current).currExec = -262145 ∨
          (-262144 < (k.thread k.current).totalExec + (k.thread k.current).currExec ∧
            (k.thread k.current).totalExec + (k.thread k.current).currExec < 262143)
        else if (k.thread k.current).totalExec = 0 then (k.thread k.current).currExec = 0
        else -1 ≤ (k.thread k.current).totalExec - (k.thread k.current).currExec ∧
          (k.thread k.current).totalExec - (k.thread k.current).currExec ≤ 1) := by
  have inv := reachable_inv h
  have estimated := reachable_estimated h
  have burst := learnBurst_eq k
  obtain ⟨value, _⟩ := learnBurst_estimate inv (reachable_mode h) estimated burst
  refine ⟨_, burst, fun q => getTotalExec_fst _ q, fun name other => ?_, ?_⟩
  · rw [value, if_neg]
    exact fun found => other (recordOf_mem found).2.symm
  · rw [value, ← estimated.current _ inv.live]
    generalize (k.thread k.current).totalExec = old
    generalize (k.thread k.current).currExec = recent
    split
    · by_cases known : old = 0
      · simp [Averaged, known, newTotalExec]
      · rw [Averaged, newTotalExec_eq old recent known, averaged_iff]
        simp [known]
    · unfold Averaged
      split <;> omega

/-- The first thread of a name: its first burst becomes the estimate. -/
theorem burst_learned_first : ∃ k after, learnBurst k = .ok after ∧
    ((k.thread k.current).name, (k.thread k.current).totalExec, (k.thread k.current).currExec) =
      (['a'], 0, 5) ∧ estimate after ['a'] = 5 := by
  obtain ⟨k, reached, name, old, recent, record⟩ := execute_holds .sjf (threadStart ++
    [.create (some 2) ['a'] 31, .unblock 2, .semaDown 0] ++ List.replicate 5 .timer) (P := fun k =>
      (k.thread k.current).name = ['a'] ∧ (k.thread k.current).totalExec = 0 ∧
        (k.thread k.current).currExec = 5 ∧ recordOf k (k.thread k.current).name = some k.current)
    (by decide +kernel)
  obtain ⟨after, burst, _, _, averaged⟩ := burst_learned k reached
  rw [old, recent, if_pos record, name] at averaged
  exact ⟨k, after, burst, by rw [name, old, recent], (averaged.mpr (.inl rfl)).1 rfl⟩

/-- A second thread of the same name runs for ten ticks after the first ran for five:
the estimate stays five, where the mean is seven and a half. -/
theorem burst_lost : ∃ k after, Reachable (kernelSystem .sjf) k ∧ learnBurst k = .ok after ∧
    ((k.thread k.current).name, (k.thread k.current).totalExec, (k.thread k.current).currExec) =
      (['a'], 5, 10) ∧ estimate after ['a'] = 5 ∧ ¬ Averaged 5 10 5 := by
  obtain ⟨k, reached, thread, after, burst, estimate⟩ := execute_holds .sjf (threadStart ++
    ([.create (some 2) ['a'] 31, .unblock 2, .semaDown 0] : List Event) ++
    List.replicate 5 Event.timer ++
    ([.yield, .semaUp 0, .exit, .exitFinish, .semaRetry,
      .create (some 3) ['a'] 31, .unblock 3, .semaDown 0] : List Event) ++
    List.replicate 10 Event.timer ++ ([.yield, .exit] : List Event)) (P := fun k =>
      ((k.thread k.current).name, (k.thread k.current).totalExec, (k.thread k.current).currExec) =
        (['a'], 5, 10) ∧ ∃ after ∈ (learnBurst k).toOption, estimate after ['a'] = 5)
    (by decide +kernel)
  refine ⟨k, after, reached, toOption_eq_some burst, thread, estimate, fun averaged => ?_⟩
  have mean := averaged.2 (by decide)
  omega

/-- The estimate that `calc_new_total_exec` leaves in the running thread. -/
def storedEstimate (k : Kernel) (old recent : Int) : Int :=
  ((calcNewTotalExec k old recent).thread k.current).totalExec

/-- The mean with halves rounded up, between its arguments, and no smaller than the value
stored for smaller arguments. -/
structure ExactMean (k : Kernel) (old recent : Int) : Prop where
  mean : storedEstimate k old recent = (old + recent + 1) / 2
  above : min old recent ≤ storedEstimate k old recent
  below : storedEstimate k old recent ≤ max old recent
  monotone : ∀ old' recent', 1 ≤ old' → old' ≤ old → 0 ≤ recent' → recent' ≤ recent →
    storedEstimate k old' recent' ≤ storedEstimate k old recent

theorem storedEstimate_eq (k : Kernel) (old recent : Int) (known : 1 ≤ old) :
    storedEstimate k old recent = fpToIntRound (i32 (8192 * (old + recent))) := by
  rw [storedEstimate, calcNewTotalExec, Kernel.upd_thread_self, Thread.setTotalExec_totalExec]
  exact newTotalExec_eq old recent (by omega)

theorem storedEstimate_mean (k : Kernel) (old recent : Int) (known : 1 ≤ old) (ran : 0 ≤ recent)
    (small : old + recent < 262143) : storedEstimate k old recent = (old + recent + 1) / 2 := by
  rw [storedEstimate_eq k old recent known, i32_of_bounds _ (by omega) (by omega), fpToIntRound,
    if_pos (by omega), fpOne, i32_of_bounds _ (by omega) (by omega),
    tdiv_nonneg_eq _ _ (by omega)]
  omega

/-- The mean is exact as long as the sum of the scaled halves fits its register. -/
theorem mean_exact (k : Kernel) (old recent : Int) (known : 1 ≤ old) (ran : 0 ≤ recent) :
    ExactMean k old recent ↔ old + recent < 262143 := by
  refine ⟨fun exact => ?_, fun small => ?_⟩
  · have mean := exact.mean
    rw [storedEstimate_eq k old recent known] at mean
    have close := (averaged_iff (old + recent)).mp (by omega)
    omega
  · have mean := storedEstimate_mean k old recent known ran small
    refine ⟨mean, ?_, ?_, fun old' recent' known' smaller ran' shorter => ?_⟩
    · omega
    · omega
    · rw [mean, storedEstimate_mean k old' recent' known' ran' (by omega)]
      omega

/-- Estimates of three and four ticks. -/
theorem mean_exact_ticks : ExactMean (blankKernel .sjf fun _ => 0) 3 4 :=
  (mean_exact _ 3 4 (by decide) (by decide)).mpr (by decide)

/-- A thread that was expected to run for one tick runs for 262142, three quarters of an
hour: the estimate becomes negative. -/
theorem mean_exact_overflow : storedEstimate (blankKernel .sjf fun _ => 0) 1 262142 = -131072 ∧
    ¬ ExactMean (blankKernel .sjf fun _ => 0) 1 262142 := by
  have stored : storedEstimate (blankKernel .sjf fun _ => 0) 1 262142 = -131072 := by decide
  refine ⟨stored, fun exact => ?_⟩
  have mean := exact.mean
  rw [stored] at mean
  exact absurd mean (by decide)

end Calendarizador.Guarantees
