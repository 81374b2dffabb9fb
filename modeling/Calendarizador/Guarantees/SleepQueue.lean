import Calendarizador.Invariant.Sleep

/-!
# Sleeping and waking

With every operation atomic, `timer_sleep` and the timer interrupt serve each call exactly
once and on time. The log of `sleepSystem` records when each call was made and when its
thread was made ready, over runs of all kernel operations.
-/
namespace Calendarizador.Guarantees
open Foundation Source

/-- Every logged call is pending before its due tick and served exactly once at it. -/
def CallsOnTime (k : Kernel) (log : SleepLog) : Prop :=
  ∀ p, ∀ c ∈ log.calls p,
    (c.woken = [c.called + max c.ticks 1] ∧ c.called + max c.ticks 1 ≤ k.ticks) ∨
    (c.woken = [] ∧ k.ticks < c.called + max c.ticks 1 ∧ p ∈ k.waitList ∧
      (k.thread p).wakeupTime = c.called + c.ticks)

/-- A timer interrupt splits the queue at its tick: the woken front goes to the end of the
run queue in the order of the queue, and whoever stays has a later wake-up time. -/
def InterruptServes (k : Kernel) (log : SleepLog) (after : Kernel) : Prop :=
  ∃ ticked woken, threadTick { k with ticks := k.ticks + 1 } = .ok ticked ∧
    ticked.readyList.Perm k.readyList ∧ k.waitList = woken ++ after.waitList ∧
    after.readyList = ticked.readyList ++ woken ∧ woken.Pairwise (Before k log) ∧
    (∀ p ∈ woken, (k.thread p).wakeupTime ≤ after.ticks) ∧
    ∀ p ∈ after.waitList, after.ticks < (k.thread p).wakeupTime

theorem callsOnTime_of_sleepOk {k : Kernel} {log : SleepLog} (ok : SleepOk k log) :
    CallsOnTime k log := by
  intro p c called
  by_cases asleep : p ∈ k.waitList
  · obtain ⟨d, rest, calls, pending, past⟩ := ok.asleep p asleep
    rw [calls, List.mem_cons] at called
    rcases called with rfl | old
    · exact .inr ⟨pending.woken, pending.due, asleep, pending.wakeup⟩
    · exact .inl (past c old)
  · exact .inl (ok.awake p asleep c called)

/-- The sleep queue in every reachable state, and at every timer interrupt in it. The
handler cannot fail unless the bookkeeping of the tick does. -/
theorem sleep_queue (mode : Mode) (k : Kernel) (log : SleepLog)
    (h : Reachable (sleepSystem mode) (k, log)) :
    k.waitList.Pairwise (Before k log) ∧
    (∀ p, p ∈ k.waitList ↔
      k.Live p ∧ k.status p = .blocked ∧ k.code p = .downing (.timer p)) ∧
    CallsOnTime k log ∧
    (∀ flag after, timerInterrupt { k with yieldOnReturn := flag } = .ok after →
      InterruptServes { k with yieldOnReturn := flag } log after) ∧
    ∀ flag ticked, threadTick { k with ticks := k.ticks + 1, yieldOnReturn := flag } = .ok ticked →
      ∃ after, timerInterrupt { k with yieldOnReturn := flag } = .ok after := by
  have inv := reachable_inv (sleepSystem_reachable h)
  have ok : SleepOk k log := reachable_sleepOk h
  refine ⟨ok.sorted, fun p => (inv.core.threads p).wait, callsOnTime_of_sleepOk ok,
    fun flag after taken => ?_, fun flag ticked counted => ?_⟩
  · obtain ⟨_, ticked, woken, counted, queue, ready, due, later⟩ :=
      timerInterrupt_woken (inv.registers k.ticks flag) ok.ordered taken
    have order : (woken ++ after.waitList).Pairwise (Before k log) := queue ▸ ok.sorted
    exact ⟨ticked, woken, counted, (threadTick_accounting counted).ready, queue, ready,
      (List.pairwise_append.mp order).1, due, later⟩
  · have kept := (inv.registers (k.ticks + 1) flag).accounting
      (threadTick_accounting counted)
    obtain ⟨after, woke⟩ := wakeSleepers_total ticked.waitList kept rfl
    exact ⟨after, bind_eq_ok.mpr ⟨ticked, counted, woke⟩⟩

/-- `main` sleeps for three ticks and another thread for one: after one tick the second
call is served and the first is pending. -/
theorem sleep_queue_two : ∃ k log, Reachable (sleepSystem .fcfs) (k, log) ∧
    (k.ticks, k.waitList, log.calls 0, log.calls 2) =
      (1, [0], [⟨0, 3, 0, []⟩], [⟨0, 1, 1, [1]⟩]) ∧ CallsOnTime k log := by
  obtain ⟨start, booted, found⟩ : ∃ start ∈ (threadInit .fcfs fun _ => 0).toOption,
      ∃ s ∈ (run (sleepSystem .fcfs) (start, ⟨fun _ => [], 0⟩) (threadStart ++
        [.create (some 2) ['a'] 31, .unblock 2, .sleep 3, .sleep 1, .timer])).toOption,
      (s.1.ticks, s.1.waitList, s.2.calls 0, s.2.calls 2) =
        (1, [0], [⟨0, 3, 0, []⟩], [⟨0, 1, 1, [1]⟩]) := by decide +kernel
  obtain ⟨⟨k, log⟩, reached, facts⟩ := run_holds (sleepSystem .fcfs) _
    ⟨⟨_, toOption_eq_some booted⟩, rfl⟩ _ found
  exact ⟨k, log, reached, facts, (sleep_queue .fcfs k log reached).2.2.1⟩

end Calendarizador.Guarantees
