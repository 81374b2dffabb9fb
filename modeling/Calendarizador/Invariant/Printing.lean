import Calendarizador.Invariant.Estimates

/-!
# The flag `threads_print`

`schedule` stores the number of ready threads and prints a table of them while the flag is
set, and clears it. Nothing else writes the flag or the number.
-/
namespace Calendarizador.Source
open Foundation

/-- The flag, and the number that is stored with it. -/
def Kernel.table (k : Kernel) : Bool × Int := (k.threadsPrint, k.totalReadyThreads)

section
variable {k after : Kernel} {e : Event}

theorem setSema_table (k : Kernel) (s : SemaId) (v : Semaphore) :
    (k.setSema s v).table = k.table := by cases s <;> rfl

theorem threadUnblock_table {t : Page} (taken : threadUnblock k t = .ok after) :
    after.table = k.table := by
  unfold threadUnblock at taken
  split at taken
  · cases taken
    rfl
  · cases taken

theorem semaUp_table {s : SemaId} (taken : semaUp k s = .ok after) : after.table = k.table := by
  unfold semaUp wakeFirst at taken
  obtain ⟨woken, waking, ⟨⟩⟩ := bind_eq_ok.mp taken
  rw [setSema_table]
  split at waking
  · cases waking
    rfl
  · rw [threadUnblock_table waking, setSema_table]

theorem semaUp_print {s : SemaId} (taken : semaUp k s = .ok after) :
    after.threadsPrint = k.threadsPrint := congrArg (fun t => t.1) (semaUp_table taken)

theorem semaDown_table (k : Kernel) (s : SemaId) : (semaDown k s).kernel.table = k.table := by
  unfold semaDown
  split
  · exact setSema_table k s _
  · exact setSema_table k s _

theorem storeTotalExec_table (k : Kernel) (t : Page) : (storeTotalExec k t).table = k.table := by
  rw [storeTotalExec, getTotalExec_snd]
  rfl

theorem threadAllocate_table {t : Page} {name : Name} {priority : Int}
    (created : threadAllocate k t name priority = .ok after) : after.table = k.table := by
  unfold threadAllocate initThread at created
  split at created
  · cases created
  · split at created
    · cases created
      split
      · exact storeTotalExec_table _ t
      · rfl
    · cases created

theorem learnAtExit_table (taken : learnAtExit k = .ok after) : after.table = k.table := by
  have loop : ∀ s : Kernel, (k.allList.foldl storeTotalExec s).table = s.table := fun s =>
    List.foldlRecOn (motive := fun x => x.table = s.table) _ _ rfl fun x same t _ =>
      (storeTotalExec_table x t).trans same
  unfold learnAtExit at taken
  split at taken
  · obtain ⟨learned, learning, rfl⟩ := map_eq_ok.mp taken
    rw [learnBurst_eq, Except.ok.injEq] at learning
    subst learning
    exact loop _
  · cases taken
    rfl

theorem refreshCpu_table (list : List Page) (done : list.foldlM refreshCpu k = .ok after) :
    after.table = k.table := by
  refine foldlM_invariant (P := fun s => s.table = k.table) list ?_ rfl done
  intro s t next _ same one
  unfold refreshCpu at one
  split at one
  · cases one
    exact same
  · split at one
    · cases one
    · cases one
      exact same

theorem refreshPriority_table (k : Kernel) : (refreshPriority k).table = k.table := by
  rw [refreshPriority_eq]
  rfl

theorem threadTick_table (taken : threadTick k = .ok after) : after.table = k.table := by
  unfold threadTick at taken
  split at taken
  · cases taken
    rfl
  · cases taken
    rfl
  · unfold mlfqsTick refreshAverages at taken
    split at taken
    · cases taken
      rfl
    · obtain ⟨averaged, averaging, ⟨⟩⟩ := bind_eq_ok.mp taken
      have priorities : ∀ k, (recalculatePriorities k).table = k.table := by
        intro k
        unfold recalculatePriorities
        split
        · exact refreshPriority_table k
        · rfl
      have averages : averaged.table = k.table := by
        split at averaging
        · have loop : averaged.table = (refreshLoadAvg (countTick k)).table :=
            refreshCpu_table _ averaging
          exact loop
        · cases averaging
          rfl
      exact (priorities _).trans averages
  · cases taken
    rfl

theorem wakeSleepers_table (list : List Page) (woke : wakeSleepers list k = .ok after) :
    after.table = k.table :=
  wakeSleepers_invariant (P := fun s => s.table = k.table) list rfl
    (fun same upping => (semaUp_table upping).trans same) woke

theorem opBody_table {outcome : Outcome} (taken : opBody k e = .ok outcome) :
    outcome.kernel.table = k.table := by
  cases opBody_performs taken with
  | @startIdle p created unblocked allocates unblocks =>
    change unblocked.table = _
    rw [threadUnblock_table unblocks, threadAllocate_table allocates]
    rfl
  | create allocates => exact threadAllocate_table allocates
  | @unblock t unblocked unblocks =>
    change unblocked.table = _
    rw [threadUnblock_table unblocks]
  | startDown | semaDown | semaRetry | sleep => exact semaDown_table _ _
  | semaTryDown n =>
    simp only [Outcome.kernel, semaTryDown]
    split <;> rfl
  | semaUp ups => exact semaUp_table ups
  | exitFinish exiting exits =>
    obtain ⟨learned, total, learning, rfl⟩ := threadExit_effects exits
    change learned.table = _
    rw [learnAtExit_table learning]
  | setPriority | setNice =>
    simp only [Outcome.kernel, threadSetPriority, threadSetNice]
    split
    · exact refreshPriority_table _
    · rfl
  | @idleUp upped ups =>
    change upped.table = _
    rw [semaUp_table ups]
  | timer handles =>
    obtain ⟨handled, interrupted, ⟨⟩⟩ := bind_eq_ok.mp handles
    obtain ⟨ticked, counted, woke⟩ := bind_eq_ok.mp interrupted
    have same : handled.table = k.table := by
      rw [wakeSleepers_table _ woke, threadTick_table counted]
      rfl
    split
    · exact same
    · exact same
  | noPage | noSleep | block | yield | exit | idleSet | idleBlock => rfl

theorem opBody_print {outcome : Outcome} (taken : opBody k e = .ok outcome) :
    outcome.kernel.threadsPrint = k.threadsPrint := congrArg (fun t => t.1) (opBody_table taken)

/-- The table is taken once, by the first call of `schedule` that returns with an ordinary
thread in its variable `next`. -/
theorem step_table (taken : step k e = .ok after) :
    after.table = k.table ∨ (k.threadsPrint = true ∧ after.threadsPrint = false ∧
      after.totalReadyThreads = i32 after.readyList.length) := by
  obtain ⟨_, body | ⟨ready, body, switched⟩⟩ := step_effects taken
  · exact .inl (opBody_table body)
  · obtain ⟨_, next, rest, _, rfl⟩ := schedule_effects switched
    have same : ready.table = k.table := opBody_table body
    have flag : ready.threadsPrint = k.threadsPrint := congrArg (fun t => t.1) same
    rw [dispatch_readyList]
    unfold dispatch
    dsimp only
    split
    · rename_i remembered _
      by_cases first : ready.idleThread ≠ some remembered ∧ remembered ≠ ready.initialThread ∧
          ready.threadsPrint = true
      · refine .inr ⟨flag ▸ first.2.2, ?_, ?_⟩
        · exact if_pos (decide_eq_true first)
        · exact if_pos (decide_eq_true first)
      · left
        rw [← same]
        have silent : ¬ decide (ready.idleThread ≠ some remembered ∧
            remembered ≠ ready.initialThread ∧ ready.threadsPrint = true) = true := by
          rwa [decide_eq_true_eq]
        refine Prod.ext ?_ ?_
        · exact if_neg silent
        · exact if_neg silent
    · exact .inl same

end
end Calendarizador.Source
