import Calendarizador.Invariant.Ranked

/-!
# The ready list after a preemption

A tick that asks for a yield sorts the ready list, once or twice, by the priorities it
leaves behind, and the comparison that made it ask was with a thread on that list. The
yield on return appends the preempted thread after the sort, unless it is the idle thread,
which is never on the ready list.
-/
namespace Calendarizador.Guarantees
open Foundation Source List

variable {k after : Kernel}

/-- The averages do not touch the queue or the request. -/
theorem refreshAverages_queue (taken : refreshAverages k = .ok after) :
    after.readyList = k.readyList ∧ after.yieldOnReturn = k.yieldOnReturn := by
  unfold refreshAverages at taken
  split at taken
  · obtain ⟨_, _, yields, readyList, _⟩ := refreshCpu_loop_loadAvg _ taken
    exact ⟨readyList, yields⟩
  · cases taken
    exact ⟨rfl, rfl⟩

theorem recalculatePriorities_stable (k : Kernel) :
    Stable (priorityCmp (recalculatePriorities k)) k.readyList
      (recalculatePriorities k).readyList := by
  unfold recalculatePriorities
  split
  · have listed : (refreshPriority k).readyList = k.readyList := by rw [refreshPriority_eq]
    have sorted := naturalSort_stable (priorityCmp_weak (refreshPriority k))
      (refreshPriority k).readyList
    rw [listed] at sorted
    change Stable (priorityCmp (refreshPriority k)) k.readyList
      (naturalSort (priorityCmp (refreshPriority k)) (refreshPriority k).readyList)
    rw [listed]
    exact sorted
  · exact Stable.refl _ _

/-- A tick that asks for a yield leaves the queue sorted, in the order it had among equals,
and found the running thread no better than the thread that was in front. -/
theorem mlfqsTick_preempts {next : Page} {rest : List Page} (ready : k.readyList = next :: rest)
    (clear : k.yieldOnReturn = false) (taken : mlfqsTick k = .ok after)
    (asked : after.yieldOnReturn = true) : Stable (priorityCmp after) k.readyList after.readyList ∧
      Ordered (priorityCmp after) after.readyList ∧
      (after.thread k.current).priority ≤ (after.thread next).priority := by
  unfold mlfqsTick at taken
  rw [ready] at taken
  rw [bind_eq_ok] at taken
  obtain ⟨averaged, refreshed, ⟨⟩⟩ := taken
  obtain ⟨listed, unasked⟩ := refreshAverages_queue refreshed
  generalize same : recalculatePriorities (chargeRunning averaged) = ranked at asked ⊢
  have silent : ranked.yieldOnReturn = false := by
    rw [← same, (recalculatePriorities_values _).2.2.1]
    exact unasked.trans clear
  have current : ranked.current = k.current := by
    rw [← same, (recalculatePriorities_accounting _).current]
    exact (refreshAverages_accounting refreshed).current
  have recalculated : Stable (priorityCmp ranked) k.readyList ranked.readyList := by
    have once := recalculatePriorities_stable (chargeRunning averaged)
    rw [same] at once
    have charged : (chargeRunning averaged).readyList = k.readyList := listed
    rwa [charged] at once
  by_cases asks : (ranked.threadTicks + 1) % 4294967296 ≥ quantum ∧
      (ranked.thread ranked.current).priority ≤ (ranked.thread next).priority
  · have sorted : (decideYield ranked next).readyList =
        naturalSort (priorityCmp ranked) ranked.readyList := if_pos (decide_eq_true asks)
    rw [sorted]
    have weak := priorityCmp_weak ranked
    refine ⟨recalculated.trans (naturalSort_stable weak _), naturalSort_ordered weak _, ?_⟩
    rw [← current]
    exact asks.2
  · have kept : (decideYield ranked next).yieldOnReturn = ranked.yieldOnReturn :=
      if_neg (by simpa using asks)
    rw [kept, silent] at asked
    cases asked

/-- Nobody is woken by a tick that no sleeper waits for. -/
theorem wakeSleepers_early (list : List Page)
    (asleep : ∀ p ∈ list, (k.ticks : Int) < (k.thread p).wakeupTime) :
    wakeSleepers list k = .ok k := by
  cases list with
  | nil => rfl
  | cons front rest => exact if_pos (asleep front mem_cons_self)

theorem priorityCmp_kept (kept : Kernel.Keeps (fun t => t.priority) k after) :
    priorityCmp after = priorityCmp k := by
  funext left right
  have first : (after.thread left).priority = (k.thread left).priority := kept left
  have second : (after.thread right).priority = (k.thread right).priority := kept right
  rw [priorityCmp, priorityCmp, first, second]

/-- A tick in which nobody wakes ends in a yield only if `thread_tick` asked for it. -/
theorem intrHandler_yields {ready : Kernel}
    (asleep : ∀ p ∈ k.waitList, ((k.ticks + 1 : Nat) : Int) < (k.thread p).wakeupTime)
    (taken : intrHandler k = .ok (.schedules ready)) :
    ∃ ticked, threadTick (atTick k) = .ok ticked ∧ ticked.yieldOnReturn = true ∧
      threadYield ticked = .schedules ready := by
  unfold intrHandler timerInterrupt at taken
  rw [bind_eq_ok] at taken
  obtain ⟨woken, interrupted, returned⟩ := taken
  rw [bind_eq_ok] at interrupted
  obtain ⟨ticked, counted, woke⟩ := interrupted
  replace counted : threadTick (atTick k) = .ok ticked := counted
  have accounts := threadTick_accounting counted
  have early : ∀ p ∈ ticked.waitList, (ticked.ticks : Int) < (ticked.thread p).wakeupTime := by
    intro p member
    have listed : p ∈ k.waitList := accounts.waitList ▸ member
    have wakeup : (ticked.thread p).wakeupTime = (k.thread p).wakeupTime :=
      accounts.keeps (fun t => t.wakeupTime) (fun _ => rfl) p
    have clock : ticked.ticks = k.ticks + 1 := accounts.ticks
    rw [clock, wakeup]
    exact asleep p listed
  rw [wakeSleepers_early _ early, Except.ok.injEq] at woke
  rw [← woke] at returned
  by_cases asked : ticked.yieldOnReturn = true
  · rw [if_pos asked] at returned
    exact ⟨ticked, counted, asked, Except.ok.inj returned⟩
  · rw [if_neg asked] at returned
    cases returned

/-- The yield queues the running thread last and switches to the front. -/
theorem schedule_yield {ticked ready : Kernel} {next : Page} {rest : List Page}
    (yields : threadYield ticked = .schedules ready) (front : ticked.readyList = next :: rest) :
    ∃ after, schedule ready = .ok after ∧ after.current = next ∧
      after.readyList = rest ++ requeued ticked ∧
      Kernel.Keeps (fun t => t.priority) ticked after := by
  have yielded : ready = (threadYield ticked).kernel := by rw [yields]; rfl
  have queue : ready.readyList = next :: (rest ++ requeued ticked) := by
    rw [yielded]
    change (if ticked.idleThread ≠ some ticked.current then
      ticked.readyList ++ [ticked.current] else ticked.readyList) = _
    rw [requeued, front]
    split <;> simp
  have leaves : ready.status ready.current ≠ .running := by
    rw [yielded]
    change ((stampWait ticked ticked.current).setStatus ticked.current .ready).status
      ticked.current ≠ .running
    simp
  have switched : schedule ready =
      .ok (dispatch { ready with readyList := rest ++ requeued ticked } next) := by
    unfold schedule nextThreadToRun
    rw [queue]
    exact if_neg leaves
  refine ⟨_, switched, dispatch_current _ _, dispatch_readyList _ _, ?_⟩
  have kept : Kernel.Keeps (fun t => t.priority) ticked ready :=
    yielded ▸ threadYield_keeps _ {} ticked
  exact kept.trans (dispatch_keeps { ready with readyList := rest ++ requeued ticked } next
    (fun t => t.priority) {})

/-- A preemption that wakes nobody: the thread dispatched is no worse than any other, the
preempted thread is queued last unless it is the idle thread, and the rest of the queue is
the old one without the dispatched thread, sorted by descending priority with equals in
their old order. -/
theorem preemption_sound (k ready : Kernel) (mode : k.mode = .mlfqs) (someone : k.readyList ≠ [])
    (asleep : ∀ p ∈ k.waitList, ((k.ticks + 1 : Nat) : Int) < (k.thread p).wakeupTime)
    (taken : intrHandler k = .ok (.schedules ready)) :
    ∃ after rest, schedule ready = .ok after ∧
      (∀ p ∈ k.current :: after.readyList,
        (after.thread p).priority ≤ (after.thread after.current).priority) ∧
      after.readyList = rest ++ (if k.idleThread = some k.current then [] else [k.current]) ∧
      Stable (priorityCmp after) (k.readyList.erase after.current) rest ∧
      Ordered (priorityCmp after) rest := by
  obtain ⟨old, others, queue⟩ := exists_cons_of_ne_nil someone
  obtain ⟨ticked, counted, asked, yields⟩ := intrHandler_yields asleep taken
  have accounts := threadTick_accounting counted
  have current : ticked.current = k.current := accounts.current
  have requeues : requeued ticked =
      if k.idleThread = some k.current then [] else [k.current] := by
    have idle : ticked.idleThread = k.idleThread := accounts.idleThread
    rw [requeued, current, idle]
    split <;> simp_all
  have multilevel : (atTick k).mode = .mlfqs := mode
  rw [threadTick, multilevel] at counted
  have counting : (countTick (atTick k)).readyList = old :: others := queue
  obtain ⟨stable, ordered, notWorse⟩ := mlfqsTick_preempts counting rfl counted asked
  have member : old ∈ ticked.readyList := by
    have listed : old ∈ k.readyList := by simp [queue]
    exact stable.perm.mem_iff.mpr listed
  obtain ⟨next, rest, front⟩ := exists_cons_of_ne_nil (ne_nil_of_mem member)
  obtain ⟨after, switched, now, left, kept⟩ := schedule_yield yields front
  have same : priorityCmp after = priorityCmp ticked := priorityCmp_kept kept
  rw [front] at stable ordered member
  have behind : ∀ p ∈ next :: rest, (ticked.thread p).priority ≤ (ticked.thread next).priority := by
    intro p listed
    rcases mem_cons.mp listed with rfl | later
    · exact le_rfl
    · simpa [priorityCmp] using (pairwise_cons.mp ordered).1 p later
  -- the preempted thread was compared with the old front, which is behind the new one
  have preempted : (ticked.thread k.current).priority ≤ (ticked.thread next).priority :=
    notWorse.trans (behind old member)
  refine ⟨after, rest, switched, ?_, by rw [left, requeues], ?_, ?_⟩
  · intro p listed
    have levels : ∀ q, (after.thread q).priority = (ticked.thread q).priority := kept
    rw [now, levels, levels]
    rw [left, mem_cons, mem_append, requeues] at listed
    rcases listed with rfl | later | requeued
    · exact preempted
    · exact behind p (mem_cons_of_mem next later)
    · have here : p = k.current := by
        split at requeued
        · cases requeued
        · exact mem_singleton.mp requeued
      rw [here]
      exact preempted
  · rw [same, now]
    exact stable.front
  · rw [same]
    exact (pairwise_cons.mp ordered).2

/-- `main` yields at its seventh tick; of the two threads it created the second is better
and is dispatched, and `main` goes behind the first. -/
theorem preemption_sound_better : ∃ k ready after, Reachable (kernelSystem .mlfqs) k ∧
    k.readyList = [2, 3] ∧ intrHandler k = .ok (.schedules ready) ∧
    schedule ready = .ok after ∧ after.current = 3 ∧ after.readyList = [2, 0] ∧
    (∀ p ∈ k.current :: after.readyList,
      (after.thread p).priority ≤ (after.thread 3).priority) ∧
    Stable (priorityCmp after) (k.readyList.erase 3) [2] := by
  obtain ⟨k, reached, queue, sleepers, running, idle, ready, handled, after, switched, current,
      queued⟩ := execute_holds .mlfqs (threadStart ++
    [.create (some 2) ['a'] 31, .unblock 2, .create (some 3) ['b'] 40, .unblock 3] ++
    List.replicate 6 .timer) (P := fun k => k.readyList = [2, 3] ∧ k.waitList = [] ∧
      k.current = 0 ∧ k.idleThread = some 1 ∧ ∃ ready ∈ schedulesFrom k .timer,
        ∃ after ∈ (schedule ready).toOption, after.current = 3 ∧ after.readyList = [2, 0])
    (by decide +kernel)
  have handled := schedulesFrom_eq_some handled
  have switched := toOption_eq_some switched
  have mode : k.mode = .mlfqs := reachable_mode reached
  obtain ⟨same, rest, taken, best, left, stable, _⟩ := preemption_sound k ready mode
    (by simp [queue]) (by simp [sleepers]) handled
  rw [switched, Except.ok.injEq] at taken
  subst taken
  have others : rest = [2] := by
    rw [queued, idle, running] at left
    have cancel : rest ++ [0] = [2] ++ [0] := by simpa using left.symm
    exact append_cancel_right cancel
  rw [others, current] at stable
  rw [current] at best
  exact ⟨k, ready, after, reached, queue, handled, switched, current, queued, best, stable⟩

/-- The idle thread halts while a device handler readies a thread; preempted by the seventh
tick after that, it is not put on the ready list, which is left empty. -/
theorem preemption_sound_idle : ∃ k ready after, Reachable (kernelSystem .mlfqs) k ∧
    k.mode = .mlfqs ∧ k.readyList = [2] ∧ k.waitList = [] ∧ k.current = 1 ∧
    intrHandler k = .ok (.schedules ready) ∧ schedule ready = .ok after ∧
    after.current = 2 ∧ after.readyList.getLast? ≠ some k.current := by
  obtain ⟨k, reached, queue, sleepers, running, ready, handled, after, switched, current, left⟩ :=
    execute_holds .mlfqs (threadStart ++
      [.create (some 2) ['a'] 31, .semaDown 0, .unblock 2] ++ List.replicate 6 .timer)
    (P := fun k => k.readyList = [2] ∧ k.waitList = [] ∧ k.current = 1 ∧
      ∃ ready ∈ schedulesFrom k .timer, ∃ after ∈ (schedule ready).toOption,
        after.current = 2 ∧ after.readyList.getLast? ≠ some k.current) (by decide +kernel)
  exact ⟨k, ready, after, reached, reachable_mode reached, queue, sleepers, running,
    schedulesFrom_eq_some handled, toOption_eq_some switched, current, left⟩

end Calendarizador.Guarantees
