import Calendarizador.Invariant.Lock

/-!
# Mutual exclusion of locks

Any number of threads use one lock, directly or through a condition variable, and may be
preempted between the semaphore operation and the assignment to `holder`.
-/
namespace Calendarizador.Guarantees
open Foundation Source

/-- At every point at most one thread is between the success of its semaphore down and its
own up, the value of the semaphore and the number of these threads add up to one, `holder` is
null or such a thread, and `lock_release` finds the lock held. No assertion fails at all. -/
theorem lock_mutual_exclusion (m : Monitor) (h : Reachable monitorSystem m) :
    (∀ p q, (m.pc p).owns = true → (m.pc q).owns = true → p = q) ∧
    (∃ owners : List Page, owners.Nodup ∧ (∀ p, p ∈ owners ↔ (m.pc p).owns = true) ∧
      m.lock.value + owners.length = 1) ∧
    (∀ p, m.holder = some p → (m.pc p).owns = true) ∧
    (∀ t c, m.pc t = .releaseAssert c →
      m.step (.run t) = .ok (m.goto t (.releaseHolder c))) ∧
    ∀ e, m.step e ≠ .error .assertion := by
  obtain ⟨owner, ok⟩ := reachable_lockOk h
  refine ⟨fun p q => ok.unique, ⟨owner.toList, ?_, fun p => ?_, ok.owned.value⟩, fun p holds => ?_,
    fun t c place => ?_, ok.asserts⟩
  · cases owner <;> simp
  · rw [ok.owned.owned, Option.mem_toList]
  · exact MonitorPc.owns_of_holds ((ok.owned.holder p).mp holds)
  · have held : m.holder = some t := (ok.owned.holder t).mpr (by rw [place]; rfl)
    simp [Monitor.step, Monitor.statement, place, Monitor.assertHeld,
      Monitor.lockHeldByCurrentThread, held]

/-- Thread 2 has cleared `holder` and is preempted before its `sema_up`; thread 3 waits. -/
theorem lock_mutual_exclusion_release : ∃ m, Reachable monitorSystem m ∧ m.holder = none ∧
    m.lock = ⟨0, [3]⟩ ∧ (m.pc 2).owns = true ∧ ∀ q, (m.pc q).owns = true → q = 2 := by
  obtain ⟨m, reached, holder, lock, owns⟩ := run_holds monitorSystem .init rfl
    [.call 2 .lockAcquire, .run 2, .run 2, .call 3 .lockAcquire, .run 3, .run 3, .run 2,
      .call 2 .lockRelease, .run 2, .run 2]
    (P := fun m => m.holder = none ∧ m.lock = ⟨0, [3]⟩ ∧ (m.pc 2).owns = true) (by decide +kernel)
  obtain ⟨unique, _⟩ := lock_mutual_exclusion m reached
  exact ⟨m, reached, holder, lock, owns, fun q own => unique q 2 own owns⟩

end Calendarizador.Guarantees
