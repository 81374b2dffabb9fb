import Calendarizador.Invariant.IdleOutput

/-!
# Output and the idle thread

`schedule` prints in the frame of the thread it has switched to, and that may be the idle
thread. Its `printf` takes `console_lock`, so the idle thread waits if the owner of the lock's
unit is blocked: for room in the transmit queue, or for the unit itself, if it was preempted
where it had the unit and was not the holder. The idle thread does not wait as long as no owner
gives up the processor before the table of ready threads has been printed; later it prints
nothing and blocked owners do no harm.
-/
namespace Calendarizador.Guarantees
open Foundation Source

/-- A console that nobody has used, on a kernel after `thread_init`. -/
def bootConsole (k : Kernel) : Console := ⟨k, false, none, 0, fun _ => []⟩

/-- The initial values of the semaphores: the lock is free. -/
def freeConsole (n : Nat) : Nat := if n = 0 then 1 else 0

theorem bootConsole_initial {mode : Mode} {k : Kernel}
    (booted : threadInit mode freeConsole = .ok k) : (consoleSystem mode).initial (bootConsole k) :=
  ⟨freeConsole, k, rfl, booted, rfl, rfl, rfl, fun _ => rfl⟩

/-- `thread_start` and a thread on page 2 that blocks, is unblocked from the idle thread and
calls `printf`. -/
def printsOnce : List ConsoleEvent :=
  [.kernel (.startIdle 1), .kernel .startDown, .kernel .idleSet, .kernel .idleUp,
    .kernel .idleBlock, .task, .task, .kernel .semaRetry, .kernel (.create (some 2) ['A'] 31),
    .kernel (.unblock 2), .kernel .block, .kernel .block, .task, .task, .kernel (.unblock 2),
    .kernel .idleBlock, .task, .task, .printf, .task, .task]

/-- The thread blocks with the lock, and the idle thread executes two tasks of the `schedule`
call it returns into. -/
def blocksHolding : List ConsoleEvent := [.kernel .block, .task, .task]

theorem idle_takes_no_lock (mode : Mode) (c : Console)
    (run : ReachableWhile (consoleSystem mode) HolderStays c) (i : Page)
    (set : c.kernel.idleThread = some i) :
    i ∉ c.kernel.readyList ∧ ∀ s, i ∉ (c.kernel.sema s).waiters := by
  have ok : ConsoleOk c :=
    run.invariant (fun s start => initial_consoleOk start) fun s e after before stays taken =>
      before.step stays taken
  have idle := ok.idle i set
  exact ⟨idle.placed.notReady, idle.placed.notWaiting⟩

/-- The idle thread prints the table, and later another thread blocks with the lock. -/
theorem idle_takes_no_lock_printed : ∃ c, ReachableWhile (consoleSystem .fcfs) HolderStays c ∧
    c.kernel.idleThread = some 1 ∧ c.kernel.current = 1 ∧ c.holder = some 2 ∧
    1 ∉ c.kernel.readyList ∧ ∀ s, 1 ∉ (c.kernel.sema s).waiters := by
  have found : ∃ start ∈ (threadInit .fcfs freeConsole).toOption,
      ∃ c ∈ runWhile (consoleSystem .fcfs) HolderStays (bootConsole start) (printsOnce ++
        ([.task, .task, .kernel .block, .task, .task, .task, .row, .task, .task, .task, .task,
          .task, .task, .task, .task, .task, .kernel (.unblock 2), .kernel .idleBlock, .task,
          .task, .printf, .task, .task] : List ConsoleEvent) ++ blocksHolding),
      c.kernel.idleThread = some 1 ∧ c.kernel.current = 1 ∧ c.holder = some 2 := by
    decide +kernel
  obtain ⟨start, booted, found⟩ := found
  obtain ⟨c, run, set, current, held⟩ := runWhile_holds _ _ _
    (bootConsole_initial (toOption_eq_some booted)) _ found
  exact ⟨c, run, set, current, held, idle_takes_no_lock .fcfs c run 1 set⟩

def IdleWaits (mode : Mode) : Prop :=
  ∃ c, Reachable (consoleSystem mode) c ∧
    c.kernel.idleThread = some c.kernel.current ∧
    c.kernel.current ∈ (c.kernel.sema consoleSema).waiters

/-- The thread on page 2 blocks with the lock. The idle thread returns into the `schedule` call
in which it switched to that thread, begins to print the table and waits for the lock; as
nobody is ready, it is dispatched again at once. -/
theorem idleWaits (mode : Mode) : IdleWaits mode := by
  have found : ∃ start ∈ (threadInit mode freeConsole).toOption, ∃ c ∈
      (run (consoleSystem mode) (bootConsole start) (printsOnce ++ blocksHolding)).toOption,
      c.kernel.idleThread = some c.kernel.current ∧
        c.kernel.current ∈ (c.kernel.sema consoleSema).waiters := by
    cases mode <;> decide +kernel
  obtain ⟨start, booted, found⟩ := found
  exact run_holds _ _ (bootConsole_initial (toOption_eq_some booted)) _ found

theorem idle_takes_no_lock_blocked :
    IdleWaits .fcfs ∧ IdleWaits .roundrobin ∧ IdleWaits .sjf ∧ IdleWaits .mlfqs :=
  ⟨idleWaits _, idleWaits _, idleWaits _, idleWaits _⟩

structure OutputExclusive (c : Console) : Prop where
  /-- Whoever is in the middle of a `printf` holds the lock, as its release asserts. -/
  holds : ∀ p masked, .body masked ∈ c.tasks p → c.holder = some p
  /-- `console_lock_depth` counts the calls inside the first one. -/
  depth : ∀ p, c.holder = some p → (c.tasks p).countP Task.isBody = c.depth + 1
  /-- One thread at most is between the `sema_down` and the `sema_up` of the lock. -/
  unique : ∀ p q, (∃ t ∈ c.tasks p, t.inside = true) → (∃ t ∈ c.tasks q, t.inside = true) → p = q
  /-- The unit is gone exactly if there is one. -/
  unit : (c.kernel.sema consoleSema).value = 0 ↔ ∃ p, ∃ t ∈ c.tasks p, t.inside = true

/-- Whoever blocks or is preempted inside the lock, no other thread prints. -/
theorem output_exclusive (mode : Mode) (c : Console) (run : Reachable (consoleSystem mode) c) :
    OutputExclusive c := by
  obtain ⟨owner, lock⟩ : ∃ owner, ConsoleLock c owner := by
    refine run.invariant (P := fun c => ∃ owner, ConsoleLock c owner)
      (fun _ start => ⟨none, initial_consoleLock start⟩) ?_
    rintro s e after _ ⟨owner, before⟩ taken
    exact before.step taken
  have holds : ∀ p masked, .body masked ∈ c.tasks p → c.holder = some p := by
    intro p masked inside
    by_contra other
    have outside := lock.bodies p
    rw [if_neg other, List.countP_eq_zero] at outside
    exact outside _ inside rfl
  have depth : ∀ p, c.holder = some p → (c.tasks p).countP Task.isBody = c.depth + 1 := by
    intro p here
    rw [lock.bodies, if_pos here]
  have inside (p : Page) : (∃ t ∈ c.tasks p, t.inside = true) ↔ owner = some p := by
    constructor
    · rintro ⟨t, member, inside⟩
      cases t with
      | body masked => exact lock.owned p (holds p masked member)
      | took | cleared => exact (lock.has_pending member rfl).2
      | _ => cases inside
    · intro has
      rcases Bool.or_eq_true_iff.mp ((lock.owns_iff p).mpr has) with held | pending
      · have begun : 0 < (c.tasks p).countP Task.isBody := by
          rw [depth p (of_decide_eq_true held)]
          exact Nat.succ_pos c.depth
        obtain ⟨t, member, body⟩ := List.countP_pos_iff.mp begun
        exact ⟨t, member, Bool.or_eq_true_iff.mpr (.inl body)⟩
      · obtain ⟨t, member, pending⟩ := List.any_eq_true.mp pending
        exact ⟨t, member, Bool.or_eq_true_iff.mpr (.inr pending)⟩
  refine ⟨holds, depth, fun p q first second => ?_, ?_⟩
  · exact Option.some.inj (((inside p).mp first).symm.trans ((inside q).mp second))
  · simp only [inside, lock.value]
    cases owner <;> simp

theorem output_exclusive_held : ∃ c, c.holder = some 2 ∧ OutputExclusive c := by
  have found : ∃ start ∈ (threadInit .fcfs freeConsole).toOption, ∃ c ∈
      (run (consoleSystem .fcfs) (bootConsole start) printsOnce).toOption, c.holder = some 2 := by
    decide +kernel
  obtain ⟨start, booted, found⟩ := found
  obtain ⟨c, reached, held⟩ := run_holds _ _ (bootConsole_initial (toOption_eq_some booted)) _ found
  exact ⟨c, held, output_exclusive .fcfs c reached⟩

end Calendarizador.Guarantees
