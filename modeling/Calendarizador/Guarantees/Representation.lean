import Calendarizador.Invariant.Run

/-!
# What the scheduler's lists contain

The representation invariant in the terms of the source: which threads are on
`ready_list`, `all_list` and the `waiters` lists. `elem` links a thread into the run queue
or into one waiters list, `allelem` into `all_list`, so the statements about disjointness
are what makes the intrusive links usable at all.
-/
namespace Calendarizador.Guarantees
open Foundation Source

structure Represented (k : Kernel) : Prop where
  /-- Exactly one thread is running, and it is the current one. -/
  running : k.Live k.current ∧ ∀ p, k.Live p → (k.status p = .running ↔ p = k.current)
  ready_nodup : k.readyList.Nodup
  /-- The run queue holds exactly the ready threads other than `idle_thread`. -/
  ready : ∀ p, p ∈ k.readyList ↔ k.Live p ∧ k.status p = .ready ∧ k.idleThread ≠ some p
  /-- A live thread is on `all_list` exactly once, a dead one is not on it. -/
  all : ∀ p, k.allList.count p = if k.Live p then 1 else 0
  /-- A thread on the run queue waits for no semaphore. -/
  ready_waiters : ∀ p s, p ∈ k.readyList → p ∉ (k.sema s).waiters
  /-- A thread waits for at most one semaphore, and is on its list once. -/
  one_waiters : ∀ p s other, p ∈ (k.sema s).waiters → p ∈ (k.sema other).waiters → s = other
  waiters_nodup : ∀ s, (k.sema s).waiters.Nodup
  /-- The idle thread never enters the run queue. -/
  idle : ∀ p, k.idleThread = some p → p ∉ k.readyList
  /-- A freed page is on no list. -/
  freed : ∀ p, k.allocated p = false → p ∉ k.readyList ∧ p ∉ k.allList ∧ p ∉ k.allAllList ∧
    p ∉ k.waitList ∧ ∀ s, p ∉ (k.sema s).waiters

theorem represented_of_inv {k : Kernel} (h : Inv k) : Represented k := by
  have ok := h.core.threads
  have unused : ∀ p, k.allocated p = false → ¬ k.Live p := by
    intro p free alive
    rw [alive.1] at free
    cases free
  refine ⟨⟨h.live, fun p alive => ⟨(ok p).running alive, ?_⟩⟩, h.core.ready_nodup,
    fun p => (ok p).ready, fun p => ?_, fun p s ready waiting => ?_,
    fun p s other first second => ?_, h.core.waiters_nodup, fun p idle member => ?_,
    fun p free => ⟨?_, ?_, ?_, ?_, fun s member => ?_⟩⟩
  · rintro rfl
    exact h.running
  · split
    · rename_i alive
      exact List.count_eq_one_of_mem h.core.all_nodup ((ok p).all.mpr alive)
    · rename_i dead
      exact List.count_eq_zero_of_not_mem fun member => dead ((ok p).all.mp member)
  · have readied := ((ok p).ready.mp ready).2.1
    rw [(((ok p).waiters s).mp waiting).2.1] at readied
    cases readied
  · have down := (((ok p).waiters s).mp first).2.2
    rw [(((ok p).waiters other).mp second).2.2, Code.downing.injEq] at down
    exact down.symm
  · exact ((ok p).ready.mp member).2.2 idle
  · exact fun member => unused p free ((ok p).ready.mp member).1
  · exact fun member => unused p free ((ok p).all.mp member)
  · intro member
    rw [((ok p).record member).1] at free
    cases free
  · exact fun member => unused p free ((ok p).wait.mp member).1
  · exact unused p free (((ok p).waiters s).mp member).1

/-- In every mode, every reachable state is represented correctly. -/
theorem reachable_represented (mode : Mode) (k : Kernel)
    (h : Reachable (kernelSystem mode) k) : Represented k :=
  represented_of_inv (reachable_inv h)

/-- A state with a running, a ready, a waiting and a sleeping thread. -/
theorem reachable_represented_mixed : ∃ k, Reachable (kernelSystem .mlfqs) k ∧
    (k.current, k.readyList, k.waitList, (k.sema (.user 0)).waiters) = (3, [4], [2], [0]) ∧
    Represented k := by
  obtain ⟨k, reached, lists⟩ := execute_holds .mlfqs (threadStart ++
    [.create (some 2) ['a'] 31, .unblock 2, .create (some 3) ['b'] 31, .unblock 3,
      .create (some 4) ['c'] 31, .unblock 4, .semaDown 0, .sleep 5]) (P := fun k =>
      (k.current, k.readyList, k.waitList, (k.sema (.user 0)).waiters) = (3, [4], [2], [0]))
    (by decide +kernel)
  exact ⟨k, reached, lists, reachable_represented .mlfqs k reached⟩

end Calendarizador.Guarantees
