import Calendarizador.Invariant.Arrivals

/-!
# Round-Robin counters

Under Round-Robin `ticks` of a thread counts the timer ticks it was charged since the counter
last expired. `ticksAfter` says what an event does to every counter: the timer charges the
running thread and resets a counter that reaches the quantum, and a new thread starts with
zero. Nothing else writes a counter, and in particular no dispatch does.
-/
namespace Calendarizador.Source
open Foundation

/-- The counter of the running thread with one more tick. -/
def charge (k : Kernel) : Int := i32 ((k.thread k.current).ticks + 1)

def ticksAfter (k : Kernel) (p : Page) : Event → Int
  | .timer =>
    if p = k.current then if charge k ≥ quantum then 0 else charge k else (k.thread p).ticks
  | e => if e.creates.map Prod.fst = some p then 0 else (k.thread p).ticks

section
variable {k after : Kernel}

theorem threadUnblock_ticks {t : Page} (taken : threadUnblock k t = .ok after) (p : Page) :
    (after.thread p).ticks = (k.thread p).ticks :=
  (threadUnblock_effects taken).keeps (fun t => t.ticks) (fun _ _ => rfl) (fun _ _ => rfl) p

theorem setCode_ticks (k : Kernel) (q : Page) (c : Code) (p : Page) :
    ((k.setCode q c).thread p).ticks = (k.thread p).ticks :=
  Kernel.keeps_upd (fun t => t.ticks) k q (Thread.setCode c) (fun _ => rfl) p

theorem threadAllocate_ticks {t : Page} {name : Name} {priority : Int}
    (created : threadAllocate k t name priority = .ok after) (p : Page) :
    (after.thread p).ticks = if p = t then 0 else (k.thread p).ticks := by
  obtain ⟨_, _, _, effects⟩ := threadAllocate_effects created
  rw [effects.thread]
  split <;> rfl

theorem threadYield_ticks (k : Kernel) (p : Page) :
    ((threadYield k).kernel.thread p).ticks = (k.thread p).ticks :=
  threadYield_keeps (fun t => t.ticks) {} k p

theorem dispatch_counters (k : Kernel) (next p : Page) :
    ((dispatch k next).thread p).ticks = (k.thread p).ticks :=
  dispatch_keeps k next (fun t => t.ticks) {} p

theorem roundRobinTick_ticks (k : Kernel) (p : Page) :
    ((roundRobinTick (countTick (atTick k))).thread p).ticks = ticksAfter k p .timer := by
  change ((Kernel.upd _ k.current _).thread p).ticks = _
  rw [Kernel.upd_thread, ticksAfter]
  split <;> rfl

theorem roundRobinTick_yields (k : Kernel) :
    (roundRobinTick (countTick (atTick k))).yieldOnReturn = decide (charge k ≥ quantum) := by
  change (if charge k ≥ quantum then true else false) = _
  split <;> simp_all

theorem threadTick_roundrobin (mode : k.mode = .roundrobin) :
    threadTick (atTick k) = .ok (roundRobinTick (countTick (atTick k))) := by
  have mode' : (atTick k).mode = .roundrobin := mode
  simp only [threadTick, mode']

/-- The handler charges the tick and yields exactly if the quantum is used up. -/
theorem intrHandler_roundrobin (mode : k.mode = .roundrobin) {outcome : Outcome}
    (taken : intrHandler k = .ok outcome) :
    (∀ p, (outcome.kernel.thread p).ticks = ticksAfter k p .timer) ∧
      ((∃ ready, outcome = .schedules ready) ↔ charge k ≥ quantum) := by
  obtain ⟨handled, interrupted, ⟨⟩⟩ := bind_eq_ok.mp taken
  obtain ⟨ticked, counted, woke⟩ := bind_eq_ok.mp interrupted
  cases (threadTick_roundrobin mode).symm.trans counted
  obtain ⟨kept, _⟩ := wakeSleepers_keeps (fun t => t.ticks) {} _ woke
  have ticks : ∀ p, (handled.thread p).ticks = ticksAfter k p .timer :=
    fun p => (kept p).trans (roundRobinTick_ticks k p)
  have yields := (wakeSleepers_registers _ woke).2.trans (roundRobinTick_yields k)
  split
  · rename_i asked
    rw [yields, decide_eq_true_eq] at asked
    exact ⟨fun p => (threadYield_ticks handled p).trans (ticks p), fun _ => asked,
      fun _ => ⟨_, rfl⟩⟩
  · rename_i silent
    rw [yields, decide_eq_true_eq] at silent
    refine ⟨ticks, ?_, fun expired => absurd expired silent⟩
    rintro ⟨ready, no⟩
    cases no

theorem opBody_ticks (mode : k.mode = .roundrobin) {e : Event} {outcome : Outcome}
    (taken : opBody k e = .ok outcome) (p : Page) :
    (outcome.kernel.thread p).ticks = ticksAfter k p e := by
  cases opBody_performs taken with
  | startIdle allocates unblocks =>
    simp only [Outcome.kernel, setCode_ticks, threadUnblock_ticks unblocks,
      threadAllocate_ticks allocates, ticksAfter, Event.creates, Option.map_some,
      Option.some.injEq, eq_comm]
  | create allocates =>
    simp only [Outcome.kernel, threadAllocate_ticks allocates, ticksAfter, Event.creates,
      Option.map_some, Option.some.injEq, eq_comm]
  | exitFinish exiting exits =>
    obtain ⟨learned, total, learning, rfl⟩ := threadExit_effects exits
    rw [learnAtExit, if_neg (by simp [mode])] at learning
    cases learning
    exact Kernel.keeps_upd (fun t => t.ticks) k k.current (Thread.setStatus .dying) (fun _ => rfl) p
  | setPriority priority =>
    simp only [Outcome.kernel, threadSetPriority, Kernel.upd_mode, mode]
    exact Kernel.keeps_upd (fun t => t.ticks) k k.current (Thread.setPriority (i32 priority))
      (fun _ => rfl) p
  | setNice nice =>
    simp only [Outcome.kernel, threadSetNice, Kernel.upd_mode, mode]
    exact Kernel.keeps_upd (fun t => t.ticks) k k.current (Thread.setNice (i32 nice))
      (fun _ => rfl) p
  | timer handles => exact (intrHandler_roundrobin mode handles).1 p
  | _ => exact opBody_keeps (fun t => t.ticks) {} (fun _ _ => rfl) rfl taken p

end
end Calendarizador.Source
