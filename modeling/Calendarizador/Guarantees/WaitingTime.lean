import Calendarizador.Invariant.Waiting

/-!
# Waiting-time accounting

`recent_wait` holds the tick at which a thread was put on the ready list while it waits
there, and zero while it runs; `total_wait` adds up the differences. The log beside the run
says when each thread was put on the list and when it was dispatched.
-/
namespace Calendarizador.Guarantees
open Foundation Source

/-- While a thread other than `initial_thread` and `idle_thread` runs, its `total_wait` is the
time between being put on the ready list and being dispatched, summed over its dispatches,
and its `recent_wait` is zero. -/
theorem waiting_time (mode : Mode) (s : Kernel × (Page → ReadyLog))
    (h : Reachable ((kernelSystem mode).recording (fun _ => ReadyLog.empty) logReadying) s)
    (small : s.1.ticks < 2147483648) (p : Page) (alive : s.1.Live p)
    (running : s.1.status p = .running) (notIdle : s.1.idleThread ≠ some p)
    (notInitial : p ≠ s.1.initialThread) :
    (s.1.thread p).totalWait =
        ((s.2 p).waits.map fun wait => (wait.2 : Int) - wait.1).sum ∧
      (s.1.thread p).recentWait = 0 := by
  have waited := (reachable_waitsLogged h).2 small p alive ⟨notIdle, notInitial⟩
  exact ⟨waited.total, waited.running running⟩

/-- A thread that is readied at tick 1, dispatched at tick 3, blocks, is readied again at
tick 4 and dispatched at tick 6 has waited for four ticks. -/
theorem waiting_time_twice : ∃ s : Kernel × (Page → ReadyLog),
    Reachable ((kernelSystem .fcfs).recording (fun _ => ReadyLog.empty) logReadying) s ∧
    s.1.ticks = 6 ∧ s.1.status 2 = .running ∧ (s.2 2).waits = [(1, 3), (4, 6)] ∧
    (s.1.thread 2).totalWait = 4 ∧ (s.1.thread 2).recentWait = 0 := by
  obtain ⟨s, reached, ticks, live, running, idle, initial, waits⟩ := executeRecording_holds .fcfs
    (fun _ => ReadyLog.empty) logReadying (threadStart ++
      [.create (some 2) ['a'] 31, .timer, .unblock 2, .timer, .timer, .yield, .semaDown 0,
        .timer, .semaUp 0, .timer, .timer, .yield])
    (P := fun s => s.1.ticks = 6 ∧ s.1.Live 2 ∧ s.1.status 2 = .running ∧
      s.1.idleThread ≠ some 2 ∧ 2 ≠ s.1.initialThread ∧ (s.2 2).waits = [(1, 3), (4, 6)])
    (by decide +kernel)
  have result := waiting_time .fcfs s reached (by rw [ticks]; decide) 2 live running idle initial
  rw [waits] at result
  exact ⟨s, reached, ticks, running, waits, result.1, result.2⟩

end Calendarizador.Guarantees
