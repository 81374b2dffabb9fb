import Calendarizador.Invariant.SleepSteps

/-!
# `timer_sleep` against interrupts

`list_insert_ordered` is called with interrupts on. If the handler takes a thread off
`wait_list` while another one is being linked in front of it, the insertion completes on
an element that is no longer on the list and puts it back. Without such an interference
the queue stays in order and every call is upped once.
-/
namespace Calendarizador.Guarantees
open Foundation Source

/-- What interrupts must not break. The pointers are a list whenever no insertion is
between its last two writes. -/
structure SleepSafe (s : Sleeping) : Prop where
  queue : (∀ p before, s.pc p ≠ .beforePrev before) → ∃ list, Linked s.links list ∧
    (list.Pairwise fun a b => s.wakeupTime a ≤ s.wakeupTime b) ∧
    ∀ p, s.pc p = .waiting → p ∈ list
  /-- When the handler is through, everybody who is still blocked wakes up later. -/
  served : s.dueFront = none → ∀ p, s.pc p = .waiting → s.ticks < s.wakeupTime p
  ups : ∀ p, s.Upped p

theorem sleepSafe_of_ok {s : Sleeping} {list : List Page} {a : Page} (h : s.Ok list a) :
    SleepSafe s := by
  have blocked : ∀ p, s.pc p = .waiting → p ∈ list := by
    intro p pc
    have quiet := (h.threads p).quiet (by simp [pc]) (by simp [pc])
    exact (h.member p).mpr ⟨.inr (.inr pc), quiet.2⟩
  exact ⟨fun settled => ⟨list, h.held.linked (settled a), h.sorted, blocked⟩,
    fun early p pc => h.none_due early (blocked p pc), h.upped⟩

/-- In every run in which nobody else works on `wait_list` while a call is between its
`list_begin` and its last pointer write, the queue is safe and no assertion fails. -/
theorem sleep_undisturbed (s : Sleeping)
    (h : ReachableWhile sleepingSystem Sleeping.Undisturbed s) :
    SleepSafe s ∧ ∀ e fault, s.Undisturbed e → s.sleepStep e = .error fault →
      fault = .disabled := by
  obtain ⟨list, a, ok⟩ := Sleeping.reachable_ok h
  refine ⟨sleepSafe_of_ok ok, fun e fault undisturbed failed => ?_⟩
  rcases ok.step undisturbed with disabled | ⟨after, changed, _, stepped, _⟩
  · rw [disabled] at failed
    cases failed
    rfl
  · rw [stepped] at failed
    cases failed

/-- Threads 2 and 3 sleep for two ticks and for one. Thread 2 calls first and waits for thread 3
to be linked, and thread 3 blocks while thread 2 searches. -/
def overlappingSleeps : List SleepEvent :=
  [.call 2 2, .run 2, .call 3 1] ++ List.replicate 7 (.run 3) ++ [.run 2, .run 2, .run 3] ++
    List.replicate 7 (.run 2) ++ [.tick, .wake, .done, .run 3, .tick, .wake, .done, .run 2]

theorem sleep_undisturbed_overlapping : ∃ s,
    ReachableWhile sleepingSystem Sleeping.Undisturbed s ∧
    [2, 3].map s.pc = [.user, .user] ∧ [2, 3].map s.received = [[2], [1]] ∧ SleepSafe s := by
  obtain ⟨s, ran, places, ups⟩ := runWhile_holds sleepingSystem (fun s e => s.within 4 e = true)
    Sleeping.init rfl overlappingSleeps (P := fun s => [2, 3].map s.pc = [.user, .user] ∧
      [2, 3].map s.received = [[2], [1]]) (by decide +kernel)
  obtain ⟨reached, _⟩ := Sleeping.reachable_within ran
  exact ⟨s, reached, places, ups, (sleep_undisturbed s reached).1⟩

/-- Thread 2 falls asleep until tick 2; thread 3 is interrupted before its third write. -/
def relinkingRun : List SleepEvent :=
  [.call 2 2] ++ List.replicate 8 (.run 2) ++ [.tick, .done, .call 3 0] ++
    List.replicate 5 (.run 3) ++ [.tick, .wake, .done, .run 3, .run 3]

/-- Both downs, and the next interrupt. -/
def secondUp : List SleepEvent := [.run 3, .run 2, .tick, .wake, .wake, .done]

/-- Thread 2 sleeps until tick 2. At tick 1 thread 3 calls `timer_sleep (0)` and is about
to be linked in front of thread 2 when the second interrupt takes thread 2 off the list.
The last two writes put thread 2 back: the list is broken, and the third interrupt ups
thread 2 although its call has returned. -/
theorem sleep_relinked : ∃ broken double, Reachable sleepingSystem broken ∧
    (broken.pc 2, broken.pc 3) = (.downing, .downing) ∧
    (∀ list, ¬ Linked broken.links list) ∧ Reachable sleepingSystem double ∧
    (double.pc 2, double.calls 2, double.received 2) = (.user, 1, [2, 3]) ∧
    ¬ SleepSafe double := by
  have start : Reachable sleepingSystem Sleeping.init := .initial rfl
  have executed : (do
      let broken ← run sleepingSystem Sleeping.init relinkingRun
      let double ← run sleepingSystem broken secondUp
      .ok ([broken.pc 2, broken.pc 3, double.pc 2], double.calls 2, double.received 2,
        decide (broken.links.next (.head ()) = some (Cell.elem 3) ∧
          broken.links.prev (.tail ()) = some (Cell.head ())))) =
      .ok ([.downing, .downing, .user], 1, [2, 3], true) := by decide +kernel
  obtain ⟨broken, ran, executed⟩ := bind_eq_ok.mp executed
  obtain ⟨double, more, facts⟩ := bind_eq_ok.mp executed
  simp only [Except.ok.injEq, Prod.mk.injEq, List.cons.injEq, and_true, decide_eq_true_eq] at facts
  obtain ⟨⟨pc2, pc3, user⟩, calls, received, first, last⟩ := facts
  have reached := start.run _ ran
  refine ⟨broken, double, reached, by rw [pc2, pc3], fun list linked => ?_, reached.run _ more,
    by rw [user, calls, received], fun safe => ?_⟩
  · -- forward the pointers visit a thread, backward none
    have forward := linked.first
    have backward := linked.last
    rw [first] at forward
    rw [last] at backward
    rcases List.eq_nil_or_concat' list with rfl | ⟨most, a, rfl⟩
    · cases forward
    · rw [endCell_concat] at backward
      cases backward
  · have once := (safe.ups 2).once
    rw [received] at once
    simp at once

end Calendarizador.Guarantees
