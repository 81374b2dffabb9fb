import Calendarizador.Invariant.Counting

/-!
# The division in `thread_exit`

`thread_exit` divides the total wait of the running thread by `rep`, its own `repeat`
read a moment before. The first dispatch of a thread does not reach the increment, so
`rep` is one less than the number of dispatches, and a thread that exits in its first
time slice divides by zero.
-/
namespace Calendarizador.Guarantees
open Foundation Source

theorem learnAtExit_total (k : Kernel) : ∃ after, learnAtExit k = .ok after := by
  unfold learnAtExit
  split
  · obtain ⟨learned, burst⟩ : ∃ learned, learnBurst k = .ok learned :=
      foldlM_total (fun s t => ⟨storeTotalExec s t, rfl⟩) _ _
    exact ⟨_, by rw [burst]; rfl⟩
  · exact ⟨k, rfl⟩

/-- The exit of an ordinary thread faults exactly on the two quotients the processor
cannot compute. -/
theorem threadExit_divideError {k : Kernel} (rep : Int) (ordinary : k.current ≠ k.initialThread)
    (notIdle : k.idleThread ≠ some k.current) : threadExit k rep = .error .divideError ↔
      rep = 0 ∨ ((k.thread k.current).totalWait = -2147483648 ∧ rep = -1) := by
  obtain ⟨learned, learning⟩ := learnAtExit_total k
  have accounts := learnAtExit_accounting learning
  have waited : (learned.thread learned.current).totalWait = (k.thread k.current).totalWait := by
    rw [accounts.current]
    exact accounts.keeps (fun t => t.totalWait) (fun _ => rfl) k.current
  have ordinary' : learned.current ≠ learned.initialThread := by
    rwa [accounts.current, accounts.initialThread]
  have notIdle' : learned.idleThread ≠ some learned.current := by
    rwa [accounts.current, accounts.idleThread]
  rw [threadExit, learning]
  change (recordWait learned rep >>= _) = _ ↔ _
  rw [recordWait, if_pos ⟨ordinary', notIdle'⟩, waited, divide]
  split
  · rename_i bad
    exact ⟨fun _ => bad, fun _ => rfl⟩
  · rename_i fine
    exact ⟨fun fault => (by cases fault), fun bad => absurd bad fine⟩

/-- The wait of `main` is not counted. -/
theorem recordWait_ok {k : Kernel} {rep : Int} (safe : k.current = k.initialThread ∨
    ¬ (rep = 0 ∨ ((k.thread k.current).totalWait = -2147483648 ∧ rep = -1))) :
    ∃ counted, recordWait k rep = .ok counted := by
  unfold recordWait
  split
  · next ordinary =>
    rw [divide, if_neg (safe.resolve_left ordinary.1)]
    exact ⟨_, rfl⟩
  · exact ⟨k, rfl⟩

theorem exiting_not_idle {k : Kernel} {rep : Int} {seen : Nat} (inv : Inv k)
    (exiting : k.code k.current = .exiting rep seen) : k.idleThread ≠ some k.current := by
  intro idle
  rcases ((inv.core.threads k.current).idle.mp idle).2 with code | code <;>
    rw [exiting] at code <;> cases code

/-- At every exit `rep` is one less than the dispatches so far, as an `int`. So it is
positive, and the division is safe, exactly as stated here, and it is never the number
of dispatches itself. -/
theorem exit_repeat (mode : Mode) (k : Kernel) (rep : Int) (seen : Nat)
    (h : Reachable (kernelSystem mode) k) (exiting : k.code k.current = .exiting rep seen)
    (ordinary : k.current ≠ k.initialThread) :
    (1 ≤ rep ↔ 1 ≤ (seen - 1) % 4294967296 ∧ (seen - 1) % 4294967296 < 2147483648) ∧
    (opBody k .exitFinish = .error .divideError ↔ (seen - 1) % 4294967296 = 0 ∨
      ((k.thread k.current).totalWait = -2147483648 ∧ (seen - 1) % 4294967296 = 4294967295)) ∧
    1 ≤ seen ∧ seen ≤ (k.thread k.current).dispatches ∧ rep = i32 ((seen - 1 : Nat) : Int) ∧
    rep ≠ seen := by
  have inv := reachable_inv h
  obtain ⟨once, most, value⟩ :=
    (reachable_counted h).exits k.current rep seen inv.live ordinary exiting
  have count : ((seen - 1 : Nat) : Int) = (seen : Int) - 1 := by omega
  have notIdle := exiting_not_idle inv exiting
  have body : opBody k .exitFinish = threadExit k rep := by simp only [opBody, exiting]
  rw [← count] at value
  refine ⟨?_, ?_, once, most, value, ?_⟩
  · rw [value]
    exact i32_pos_iff (seen - 1)
  · rw [body, threadExit_divideError rep ordinary notIdle, value]
    unfold i32
    omega
  · rw [value]
    unfold i32
    omega

/-- A thread that is dispatched, waits once and is dispatched again exits safely. -/
theorem exit_repeat_second : ∃ k, k.code k.current = .exiting 1 2 ∧
    (1 ≤ (1 : Int) ↔ 1 ≤ (2 - 1) % 4294967296 ∧ (2 - 1) % 4294967296 < 2147483648) ∧
    opBody k .exitFinish ≠ .error .divideError := by
  obtain ⟨k, reached, other, code, waited⟩ := execute_holds .roundrobin (threadStart ++
    [.create (some 2) ['a'] 31, .unblock 2, .semaDown 0, .yield, .exit]) (P := fun k =>
      k.current ≠ k.initialThread ∧ k.code k.current = .exiting 1 2 ∧
        (k.thread k.current).totalWait = 0) (by decide +kernel)
  have result := exit_repeat .roundrobin k 1 2 reached code other
  refine ⟨k, code, result.1, fun fault => ?_⟩
  have bad := result.2.1.mp fault
  omega

/-- `main` creates a thread and waits; the thread exits in its first time slice. -/
theorem exit_first_slice : ∃ k, Reachable (kernelSystem .fcfs) k ∧
    (k.current, k.initialThread, k.idleThread) = (2, 0, some 1) ∧
    k.code k.current = .exiting 0 1 ∧ step k .exitFinish = .error .divideError := by
  have executed : (execute .fcfs (threadStart ++
      [.create (some 2) ['a'] 31, .unblock 2, .semaDown 0, .exit])).map
      (fun k => ((k.current, k.initialThread, k.idleThread), k.code k.current,
        match step k .exitFinish with
        | .error fault => some fault
        | .ok _ => none)) = .ok ((2, 0, some 1), .exiting 0 1, some .divideError) := by
    decide +kernel
  obtain ⟨k, ran, facts⟩ := map_eq_ok.mp executed
  simp only [Prod.mk.injEq] at facts
  refine ⟨k, execute_reachable ran, by simpa using facts.1, facts.2.1, ?_⟩
  have faulted := facts.2.2
  split at faulted
  · rename_i fault taken
    rw [taken, Option.some.inj faulted]
  · cases faulted

end Calendarizador.Guarantees
