import Calendarizador.Invariant.Sleep

/-!
# One tick under the multilevel queues

What `thread_tick` computes, as functions of the state it starts from: the load average,
the recent CPU time and the priority of every thread, and the request to yield. The
statements about runs are read off these.
-/
namespace Calendarizador.Source
open Foundation List

/-- The state in which `thread_tick` is called by the handler. -/
def atTick (k : Kernel) : Kernel := { k with ticks := k.ticks + 1, yieldOnReturn := false }

/-- Nothing is computed while nobody is ready. -/
def loadAfterTick (k : Kernel) : Int :=
  if k.readyList ≠ [] ∧ k.ticks % timerFreq = 0 then (refreshLoadAvg k).loadAvg else k.loadAvg

/-- The decay at a full second, before the running thread is charged. -/
def cpuDecayed (k : Kernel) (p : Page) : Int :=
  if k.readyList ≠ [] ∧ k.ticks % timerFreq = 0 ∧ k.Live p ∧ k.idleThread ≠ some p then
    decayedCpu (loadAfterTick k) (k.thread p).recentCpu (k.thread p).nice
  else (k.thread p).recentCpu

def cpuAfterTick (k : Kernel) (p : Page) : Int :=
  if k.readyList ≠ [] ∧ p = k.current then addInt (cpuDecayed k p) 1 else cpuDecayed k p

/-- The threads whose priority a tick recomputes. -/
def Refreshed (k : Kernel) (p : Page) : Prop :=
  k.readyList ≠ [] ∧ k.ticks % (timerFreq * 4) = 0 ∧
    (p = k.current ∨ (p ∈ k.readyList ∧ p ≠ k.initialThread))

instance (k : Kernel) (p : Page) : Decidable (Refreshed k p) :=
  inferInstanceAs (Decidable (_ ∧ _))

def priorityAfterTick (k : Kernel) (p : Page) : Int :=
  if Refreshed k p then clampPriority (rawPriority (cpuAfterTick k p) (k.thread p).nice)
  else (k.thread p).priority

/-- The quantum is used up and the thread that was in front is not worse. -/
def AsksYield (k : Kernel) : Prop :=
  ∃ next rest, k.readyList = next :: rest ∧ quantum ≤ (k.threadTicks + 1) % 4294967296 ∧
    priorityAfterTick k k.current ≤ priorityAfterTick k next

instance (k : Kernel) : Decidable (AsksYield k) :=
  match ready : k.readyList with
  | [] => .isFalse (by simp [AsksYield, ready])
  | next :: _ => decidable_of_iff (quantum ≤ (k.threadTicks + 1) % 4294967296 ∧
      priorityAfterTick k k.current ≤ priorityAfterTick k next) (by simp [AsksYield, ready])

section
variable {k after : Kernel}

/-- The loop of `thread_foreach (refresh_cpu)`: every thread on the list but the idle
thread decays once. -/
theorem refreshCpu_loop (list : List Page) (nodup : list.Nodup)
    (taken : list.foldlM refreshCpu k = .ok after) (p : Page) : (after.thread p).recentCpu =
      if p ∈ list ∧ k.idleThread ≠ some p then
        decayedCpu k.loadAvg (k.thread p).recentCpu (k.thread p).nice
      else (k.thread p).recentCpu := by
  induction list generalizing k with
  | nil =>
    cases taken
    simp
  | cons t rest ih =>
    rw [foldlM_cons, bind_eq_ok] at taken
    obtain ⟨middle, first, more⟩ := taken
    obtain ⟨fresh, nodupRest⟩ := nodup_cons.mp nodup
    rw [ih nodupRest more]
    unfold refreshCpu at first
    split at first
    · rename_i idle
      cases first
      by_cases here : p = t
      · subst here
        simp [idle, fresh]
      · simp [here]
    · rename_i notIdle
      split at first
      · cases first
      · cases first
        by_cases here : p = t
        · subst here
          simp [fresh, notIdle]
        · simp [here]

theorem refreshCpu_loop_loadAvg (list : List Page) (taken : list.foldlM refreshCpu k = .ok after) :
    after.loadAvg = k.loadAvg ∧ after.threadTicks = k.threadTicks ∧
      after.yieldOnReturn = k.yieldOnReturn ∧ after.readyList = k.readyList ∧
      Kernel.Keeps (fun t => (t.nice, t.priority)) k after := by
  refine foldlM_invariant (P := fun s => s.loadAvg = k.loadAvg ∧ s.threadTicks = k.threadTicks ∧
      s.yieldOnReturn = k.yieldOnReturn ∧ s.readyList = k.readyList ∧
      Kernel.Keeps (fun t => (t.nice, t.priority)) k s) list ?_
    ⟨rfl, rfl, rfl, rfl, fun _ => rfl⟩ taken
  intro s t next _ before stored
  unfold refreshCpu at stored
  split at stored
  · cases stored
    exact before
  · split at stored
    · cases stored
    · cases stored
      exact ⟨before.1, before.2.1, before.2.2.1, before.2.2.2.1,
        before.2.2.2.2.trans (Kernel.keeps_upd (fun t => (t.nice, t.priority)) s t _ fun _ => rfl)⟩

theorem refreshPriorityThread_priority (k : Kernel) (t p : Page) :
    ((refreshPriorityThread k t).thread p).priority =
      if p = t then clampPriority (rawPriority (k.thread p).recentCpu (k.thread p).nice)
      else (k.thread p).priority := by
  by_cases here : p = t
  · subst here
    simp [refreshPriorityThread, Thread.refreshPriority]
  · simp [refreshPriorityThread, here]

/-- The loop over the ready list. -/
theorem refreshPriority_loop (list : List Page) (k : Kernel) (p : Page) :
    let done := list.foldl
      (fun k t => if t ≠ k.initialThread then refreshPriorityThread k t else k) k
    (done.thread p).priority =
      (if p ∈ list ∧ p ≠ k.initialThread then
        clampPriority (rawPriority (k.thread p).recentCpu (k.thread p).nice)
      else (k.thread p).priority) ∧
    (done.thread p).recentCpu = (k.thread p).recentCpu ∧
    (done.thread p).nice = (k.thread p).nice ∧ done.current = k.current := by
  induction list generalizing k with
  | nil => simp
  | cons t rest ih =>
    rw [foldl_cons]
    by_cases initial : t = k.initialThread
    · obtain ⟨priority, cpu, nice, current⟩ := ih k
      rw [if_neg (not_not.mpr initial)]
      refine ⟨?_, cpu, nice, current⟩
      rw [priority]
      by_cases here : p = t
      · simp [here, initial]
      · simp [here]
    · obtain ⟨priority, cpu, nice, current⟩ := ih (refreshPriorityThread k t)
      have kept : Kernel.Keeps (fun t => (t.recentCpu, t.nice)) k (refreshPriorityThread k t) :=
        Kernel.keeps_upd (fun t => (t.recentCpu, t.nice)) k t _ fun _ => rfl
      have sameCpu := congrArg (fun s => s.1) (kept p)
      have sameNice := congrArg (fun s => s.2) (kept p)
      dsimp only at sameCpu sameNice
      rw [if_pos initial]
      refine ⟨?_, cpu.trans sameCpu, nice.trans sameNice, current⟩
      rw [priority, sameCpu, sameNice, refreshPriorityThread_priority]
      change (if p ∈ rest ∧ p ≠ k.initialThread then _ else _) = _
      by_cases here : p = t
      · subst here
        simp [initial]
      · simp [here]

/-- `refresh_priority`: ready threads other than `initial_thread`, and the running one. -/
theorem refreshPriority_priority (k : Kernel) (p : Page) : ((refreshPriority k).thread p).priority =
      if p = k.current ∨ (p ∈ k.readyList ∧ p ≠ k.initialThread) then
        clampPriority (rawPriority (k.thread p).recentCpu (k.thread p).nice)
      else (k.thread p).priority := by
  obtain ⟨priority, cpu, nice, current⟩ := refreshPriority_loop k.readyList k p
  rw [refreshPriority, refreshPriorityThread_priority, cpu, nice, priority, current]
  by_cases here : p = k.current <;> simp [here]

/-- What a tick computes. -/
structure Ticked (k after : Kernel) : Prop where
  loadAvg : after.loadAvg = loadAfterTick k
  recentCpu : ∀ p, (after.thread p).recentCpu = cpuAfterTick k p
  nice : ∀ p, (after.thread p).nice = (k.thread p).nice
  priority : ∀ p, (after.thread p).priority = priorityAfterTick k p
  threadTicks : k.readyList ≠ [] → after.threadTicks = (k.threadTicks + 1) % 4294967296
  asks : after.yieldOnReturn = true ↔ AsksYield k ∨ k.yieldOnReturn = true
  /-- The ready list is sorted by a request to yield and by a recalculation. -/
  queue : Ordered (priorityCmp after) after.readyList ∨
    (¬ AsksYield k ∧ k.ticks % (timerFreq * 4) ≠ 0 ∧ after.readyList = k.readyList)

theorem refreshAverages_values (h : Inv k) (someone : k.readyList ≠ [])
    (taken : refreshAverages k = .ok after) : after.loadAvg = loadAfterTick k ∧
    (∀ p, (after.thread p).recentCpu = cpuDecayed k p) ∧
    Kernel.Keeps (fun t => (t.nice, t.priority)) k after ∧
    after.threadTicks = k.threadTicks ∧ after.yieldOnReturn = k.yieldOnReturn ∧
    after.readyList = k.readyList := by
  unfold refreshAverages at taken
  split at taken
  · rename_i second
    have load : loadAfterTick k = (refreshLoadAvg k).loadAvg := if_pos ⟨someone, second⟩
    obtain ⟨loadAvg, threadTicks, yields, readyList, kept⟩ := refreshCpu_loop_loadAvg _ taken
    refine ⟨loadAvg.trans load.symm, fun p => ?_, kept, threadTicks, yields, readyList⟩
    rw [refreshCpu_loop _ h.core.all_nodup taken p, cpuDecayed, load]
    have listed : p ∈ k.allList ↔ k.Live p := (h.core.threads p).all
    by_cases decays : k.Live p ∧ k.idleThread ≠ some p
    · exact (if_pos ⟨listed.mpr decays.1, decays.2⟩).trans
        (if_pos ⟨someone, second, decays⟩).symm
    · exact (if_neg fun both => decays ⟨listed.mp both.1, both.2⟩).trans
        (if_neg fun all => decays all.2.2).symm
  · rename_i other
    cases taken
    have same : ∀ p, cpuDecayed k p = (k.thread p).recentCpu :=
      fun p => if_neg fun all => other all.2.1
    exact ⟨(if_neg fun both => other both.2).symm, fun p => (same p).symm, fun _ => rfl, rfl, rfl,
      rfl⟩

theorem chargeRunning_recentCpu (running : k.status k.current = .running) (p : Page) :
    ((chargeRunning k).thread p).recentCpu =
      if p = k.current then addInt (k.thread p).recentCpu 1 else (k.thread p).recentCpu := by
  rw [Kernel.status] at running
  by_cases here : p = k.current
  · rw [here]
    simp [chargeRunning, running]
  · simp [chargeRunning, here]

theorem recalculatePriorities_values (k : Kernel) : (recalculatePriorities k).loadAvg = k.loadAvg ∧
    (recalculatePriorities k).threadTicks = k.threadTicks ∧
    (recalculatePriorities k).yieldOnReturn = k.yieldOnReturn ∧
    Kernel.Keeps (fun t => (t.nice, t.recentCpu)) k (recalculatePriorities k) ∧
    (∀ p, ((recalculatePriorities k).thread p).priority =
      if k.ticks % (timerFreq * 4) = 0 ∧
        (p = k.current ∨ (p ∈ k.readyList ∧ p ≠ k.initialThread)) then
        clampPriority (rawPriority (k.thread p).recentCpu (k.thread p).nice)
      else (k.thread p).priority) ∧
    (Ordered (priorityCmp (recalculatePriorities k)) (recalculatePriorities k).readyList ∨
      (k.ticks % (timerFreq * 4) ≠ 0 ∧ (recalculatePriorities k).readyList = k.readyList)) := by
  unfold recalculatePriorities
  split
  · rename_i fourth
    have kept := refreshPriority_keeps (fun t => (t.nice, t.recentCpu)) (fun _ => rfl) k
    refine ⟨?_, ?_, ?_, kept, fun p => ?_, .inl ?_⟩
    · change (refreshPriority k).loadAvg = _
      rw [refreshPriority_eq]
    · change (refreshPriority k).threadTicks = _
      rw [refreshPriority_eq]
    · change (refreshPriority k).yieldOnReturn = _
      rw [refreshPriority_eq]
    · change ((refreshPriority k).thread p).priority = _
      rw [refreshPriority_priority]
      simp [fourth]
    · exact naturalSort_ordered (priorityCmp_weak (refreshPriority k)) _
  · rename_i other
    exact ⟨rfl, rfl, rfl, fun _ => rfl, fun p => (if_neg fun both => other both.1).symm,
      .inr ⟨other, rfl⟩⟩

/-- The values that the last part of the tick decides on. -/
theorem mlfqsTick_values (h : Inv k) {next : Page} {rest : List Page}
    (ready : k.readyList = next :: rest) (taken : mlfqsTick k = .ok after) :
    ∃ ranked, after = decideYield ranked next ∧ ranked.loadAvg = loadAfterTick k ∧
      (∀ p, (ranked.thread p).recentCpu = cpuAfterTick k p) ∧
      (∀ p, (ranked.thread p).nice = (k.thread p).nice) ∧
      (∀ p, (ranked.thread p).priority = priorityAfterTick k p) ∧
      ranked.threadTicks = k.threadTicks ∧ ranked.yieldOnReturn = k.yieldOnReturn ∧
      ranked.current = k.current ∧ (Ordered (priorityCmp ranked) ranked.readyList ∨
        (k.ticks % (timerFreq * 4) ≠ 0 ∧ ranked.readyList = k.readyList)) := by
  have someone : k.readyList ≠ [] := by simp [ready]
  unfold mlfqsTick at taken
  rw [ready] at taken
  rw [bind_eq_ok] at taken
  obtain ⟨averaged, refreshed, ⟨⟩⟩ := taken
  have accounts := refreshAverages_accounting refreshed
  obtain ⟨load, cpu, kept, used, yields, readyList⟩ := refreshAverages_values h someone refreshed
  have running : averaged.status averaged.current = .running := by
    rw [accounts.status, accounts.current]
    exact h.running
  have charged : ∀ p, ((chargeRunning averaged).thread p).recentCpu = cpuAfterTick k p := by
    intro p
    rw [chargeRunning_recentCpu running, cpu, accounts.current, cpuAfterTick]
    simp [someone]
  have keptCharge : Kernel.Keeps (fun t => (t.nice, t.priority)) averaged
      (chargeRunning averaged) := Kernel.keeps_upd _ _ _ _ fun _ => rfl
  have nices := fun p => congrArg (fun s => s.1) (kept.trans keptCharge p)
  have priorities := fun p => congrArg (fun s => s.2) (kept.trans keptCharge p)
  dsimp only at nices priorities
  obtain ⟨load', used', yields', kept', ranks, queue⟩ :=
    recalculatePriorities_values (chargeRunning averaged)
  refine ⟨_, rfl, load'.trans load, fun p => ?_, fun p => ?_, fun p => ?_, used'.trans used,
    yields'.trans yields, ?_, queue.imp id fun ⟨other, same⟩ => ⟨?_, same.trans readyList⟩⟩
  · exact (congrArg (fun s => s.2) (kept' p)).trans (charged p)
  · exact (congrArg (fun s => s.1) (kept' p)).trans (nices p)
  · rw [ranks, charged, nices, priorities, priorityAfterTick]
    have same : (Refreshed k p ↔ (chargeRunning averaged).ticks % (timerFreq * 4) = 0 ∧
        (p = (chargeRunning averaged).current ∨
          (p ∈ (chargeRunning averaged).readyList ∧
            p ≠ (chargeRunning averaged).initialThread))) := by
      change _ ↔ averaged.ticks % (timerFreq * 4) = 0 ∧ (p = averaged.current ∨
        (p ∈ averaged.readyList ∧ p ≠ averaged.initialThread))
      rw [accounts.ticks, accounts.current, readyList, accounts.initialThread, Refreshed]
      exact and_iff_right someone
    simp only [same]
  · rw [(recalculatePriorities_accounting _).current]
    exact accounts.current
  · rw [← accounts.ticks]
    exact other

theorem mlfqsTick_ticked (h : Inv k) (taken : mlfqsTick k = .ok after) : Ticked k after := by
  cases ready : k.readyList with
  | nil =>
    rw [mlfqsTick, ready] at taken
    cases taken
    have nobody : ¬ k.readyList ≠ [] := not_not.mpr ready
    have cpu : ∀ p, cpuAfterTick k p = (k.thread p).recentCpu := fun p =>
      (if_neg fun both => nobody both.1).trans (if_neg fun all => nobody all.1)
    have silent : ¬ AsksYield k := by
      rintro ⟨next, rest, someone, _⟩
      rw [ready] at someone
      cases someone
    exact {
      loadAvg := (if_neg fun both => nobody both.1).symm
      recentCpu := fun p => (cpu p).symm
      nice := fun _ => rfl
      priority := fun p => (if_neg fun refreshed => nobody refreshed.1).symm
      threadTicks := fun someone => absurd someone nobody
      asks := (or_iff_right silent).symm
      queue := .inl (ready ▸ List.Pairwise.nil) }
  | cons next rest =>
    obtain ⟨ranked, rfl, load, cpu, nices, priorities, used, yields, current, queue⟩ :=
      mlfqsTick_values h ready taken
    have asks : AsksYield k ↔ (ranked.threadTicks + 1) % 4294967296 ≥ quantum ∧
        (ranked.thread ranked.current).priority ≤ (ranked.thread next).priority := by
      rw [used, current, priorities, priorities]
      constructor
      · rintro ⟨front, others, someone, enough, better⟩
        rw [ready] at someone
        cases someone
        exact ⟨enough, better⟩
      · rintro ⟨enough, better⟩
        exact ⟨next, rest, ready, enough, better⟩
    refine ⟨load, cpu, nices, priorities, fun _ => by rw [← used]; rfl, ?_, ?_⟩
    · rw [asks, ← yields]
      simp only [decideYield, decide_eq_true_eq]
      split
      · rename_i yes
        exact ⟨fun _ => .inl yes, fun _ => rfl⟩
      · rename_i no
        exact ⟨.inr, fun either => either.resolve_left no⟩
    · by_cases asked : AsksYield k
      · have sorted : (decideYield ranked next).readyList =
            listSort (priorityCmp ranked) ranked.readyList :=
          if_pos (decide_eq_true (asks.mp asked))
        rw [sorted]
        exact .inl (naturalSort_ordered (priorityCmp_weak ranked) _)
      · have same : (decideYield ranked next).readyList = ranked.readyList :=
          if_neg (by simpa using fun enough better => asked (asks.mpr ⟨enough, better⟩))
        rw [same]
        exact queue.imp id (.intro asked)

theorem threadTick_ticked (h : Inv k) (mode : k.mode = .mlfqs)
    (taken : threadTick k = .ok after) : Ticked k after := by
  rw [threadTick, mode] at taken
  have counted : Inv (countTick k) := h.accounting { Accounting.refl k with }
  exact { mlfqsTick_ticked counted taken with }

theorem wakeSleepers_registers (list : List Page) (taken : wakeSleepers list k = .ok after) :
    after.loadAvg = k.loadAvg ∧ after.yieldOnReturn = k.yieldOnReturn := by
  refine wakeSleepers_invariant (P := fun s => s.loadAvg = k.loadAvg ∧
    s.yieldOnReturn = k.yieldOnReturn) list ⟨rfl, rfl⟩ ?_ taken
  rintro s upped t rest ⟨load, yields⟩ upping
  have globals := semaUp_globals upping
  exact ⟨globals.loadAvg.trans load, globals.yieldOnReturn.trans yields⟩

/-- The sleepers the handler takes off the queue. -/
def dueSleepers (k : Kernel) : List Page :=
  k.waitList.takeWhile fun p => (k.thread p).wakeupTime ≤ k.ticks

/-- What the multilevel queues keep about a thread. -/
def Thread.levels (t : Thread) : Int × Int × Int := (t.recentCpu, t.nice, t.priority)

/-- After `thread_tick` the handler only appends the sleepers it wakes. -/
theorem timerInterrupt_ticked (h : Inv k)
    (taken : timerInterrupt { k with yieldOnReturn := false } = .ok after) :
    ∃ ticked, threadTick (atTick k) = .ok ticked ∧ after.loadAvg = ticked.loadAvg ∧
      after.yieldOnReturn = ticked.yieldOnReturn ∧ Kernel.Keeps Thread.levels ticked after ∧
      after.readyList = ticked.readyList ++ dueSleepers (atTick k) ∧
      after.current = k.current ∧ after.idleThread = k.idleThread := by
  unfold timerInterrupt at taken
  rw [bind_eq_ok] at taken
  obtain ⟨ticked, counted, woke⟩ := taken
  replace counted : threadTick (atTick k) = .ok ticked := counted
  have accounts := threadTick_accounting counted
  have inv : Inv ticked := (h.registers (k.ticks + 1) false).accounting accounts
  obtain ⟨load, yields⟩ := wakeSleepers_registers _ woke
  obtain ⟨kept, lists, _, _⟩ := wakeSleepers_keeps Thread.levels {} _ woke
  obtain ⟨woken, split, ready, due, first⟩ := wakeSleepers_woken ticked.waitList inv rfl woke
  have wakeup : ∀ p, (ticked.thread p).wakeupTime = ((atTick k).thread p).wakeupTime :=
    accounts.keeps (fun t => t.wakeupTime) fun _ => rfl
  have clock : ticked.ticks = (atTick k).ticks := accounts.ticks
  have taken : dueSleepers (atTick k) = woken := by
    have queue : (atTick k).waitList = woken ++ after.waitList := accounts.waitList.symm.trans split
    have stops : after.waitList.takeWhile
        (fun p => decide (((atTick k).thread p).wakeupTime ≤ (atTick k).ticks)) = [] := by
      cases rest : after.waitList with
      | nil => rfl
      | cons front others =>
        have later := first front (by simp [rest])
        rw [wakeup, clock] at later
        exact takeWhile_cons_of_neg (by simpa using later)
    rw [dueSleepers, queue, takeWhile_append_of_pos, stops, append_nil]
    intro p member
    have time := due p member
    rw [wakeup, clock] at time
    exact decide_eq_true time
  exact ⟨ticked, counted, load, yields, kept, by rw [ready, taken],
    lists.current.trans accounts.current, lists.idleThread.trans accounts.idleThread⟩

/-- The handler clears the flag before the tick. -/
theorem Ticked.yield_iff (values : Ticked (atTick k) after) :
    after.yieldOnReturn = true ↔ AsksYield (atTick k) :=
  values.asks.trans (or_iff_left Bool.false_ne_true)

/-- What a preempted thread adds to the run queue. -/
def requeued (k : Kernel) : List Page :=
  if k.idleThread ≠ some k.current then [k.current] else []

/-- The handler switches exactly if the tick asked for it. -/
theorem intrHandler_ticked (h : Inv k) (mode : k.mode = .mlfqs) {outcome : Outcome}
    (taken : intrHandler k = .ok outcome) :
    ∃ ticked, threadTick (atTick k) = .ok ticked ∧ Ticked (atTick k) ticked ∧
      outcome.kernel.loadAvg = ticked.loadAvg ∧
      Kernel.Keeps Thread.levels ticked outcome.kernel ∧
      ((¬ AsksYield (atTick k) ∧ outcome = .returns outcome.kernel ∧
          outcome.kernel.readyList = ticked.readyList ++ dueSleepers (atTick k)) ∨
        (AsksYield (atTick k) ∧ outcome = .schedules outcome.kernel ∧
          outcome.kernel.readyList =
            ticked.readyList ++ dueSleepers (atTick k) ++ requeued k)) := by
  unfold intrHandler at taken
  rw [bind_eq_ok] at taken
  obtain ⟨handled, interrupted, ⟨⟩⟩ := taken
  obtain ⟨ticked, counted, load, yields, kept, ready, current, idle⟩ :=
    timerInterrupt_ticked h interrupted
  have values : Ticked (atTick k) ticked :=
    threadTick_ticked (h.registers (k.ticks + 1) false) mode counted
  have asks : handled.yieldOnReturn = true ↔ AsksYield (atTick k) := by
    rw [yields, values.yield_iff]
  refine ⟨ticked, counted, values, ?_⟩
  split
  · rename_i asked
    have yielded : Kernel.Keeps Thread.levels handled (threadYield handled).kernel :=
      threadYield_keeps _ {} handled
    refine ⟨load, kept.trans yielded, .inr ⟨asks.mp asked, rfl, ?_⟩⟩
    change (if handled.idleThread ≠ some handled.current then
      handled.readyList ++ [handled.current] else handled.readyList) = _
    rw [ready, idle, current, requeued]
    split <;> simp
  · rename_i silent
    exact ⟨load, kept, .inl ⟨fun asked => silent (asks.mpr asked), rfl, ready⟩⟩

/-- What a timer interrupt leaves of the averages, also if it ends with a switch to
another thread. -/
theorem timer_step_values (h : Inv k) (mode : k.mode = .mlfqs) (taken : step k .timer = .ok after) :
    after.loadAvg = loadAfterTick (atTick k) ∧
      ∀ p, (after.thread p).recentCpu = cpuAfterTick (atTick k) p := by
  obtain ⟨outcome, body, load, kept⟩ : ∃ outcome, intrHandler k = .ok outcome ∧
      after.loadAvg = outcome.kernel.loadAvg ∧
      Kernel.Keeps Thread.levels outcome.kernel after := by
    obtain ⟨_, body | ⟨ready, body, switched⟩⟩ := step_effects taken
    · exact ⟨_, body, rfl, fun _ => rfl⟩
    · obtain ⟨_, next, rest, _, rfl⟩ := schedule_effects switched
      refine ⟨_, body, dispatch_loadAvg _ _, ?_⟩
      exact dispatch_keeps _ _ Thread.levels {}
  obtain ⟨ticked, _, values, ticked_load, ticked_kept, _⟩ := intrHandler_ticked h mode body
  refine ⟨load.trans (ticked_load.trans values.loadAvg), fun p => ?_⟩
  exact (congrArg (fun s => s.1) (ticked_kept.trans kept p)).trans (values.recentCpu p)

end

section
variable {k after : Kernel}

/-- Only a tick computes averages; a new thread starts at zero. -/
theorem opBody_averages (h : Inv k) (mode : k.mode = .mlfqs) {e : Event}
    (enabled : e.enabled k = true) (other : e ≠ .timer) {outcome : Outcome}
    (taken : opBody k e = .ok outcome) : outcome.kernel.loadAvg = k.loadAvg ∧
      ∀ p, ((outcome.kernel.thread p).recentCpu = (k.thread p).recentCpu ∧
          (outcome.kernel.Live p → k.Live p)) ∨ (outcome.kernel.thread p).recentCpu = 0 := by
  have good := (opBody_inv h e enabled taken).core
  have live := live_of_allList h.core good
  rcases opBody_effects h enabled taken with ⟨_, _, calm⟩ | ⟨t, name, _, born⟩ |
    ⟨rfl, rep, seen, code, exits⟩ | ⟨n, rfl, _, rfl⟩ | ⟨rfl, handled⟩
  · exact ⟨calm.loadAvg, fun p => .inl ⟨congrArg (fun s => s.2.2.2.2.2.2) (calm.kept p),
      live (calm.allList ▸ fun _ => id) p⟩⟩
  · refine ⟨born.loadAvg, fun p => ?_⟩
    by_cases here : p = t
    · rw [here]
      exact .inr (congrArg (fun s => s.2.2.2.2.2.2) born.fresh)
    · refine .inl ⟨congrArg (fun s => s.2.2.2.2.2.2) (born.kept p here), fun alive => ?_⟩
      have member := (good.threads p).all.mpr alive
      rw [born.allList, mem_append, mem_singleton] at member
      exact (h.core.threads p).all.mp (member.resolve_right here)
  · obtain ⟨learned, total, learning, rfl⟩ := threadExit_effects exits
    rw [learnAtExit, mode] at learning
    cases learning
    refine ⟨rfl, fun p => .inl ⟨Kernel.keeps_upd (fun t => t.recentCpu) k k.current
      (Thread.setStatus .dying) (fun _ => rfl) p, live ?_ p⟩⟩
    exact fun _ => mem_of_mem_erase
  · have globals := blockOn_globals (enterWaitList k n) (.timer k.current)
    refine ⟨globals.loadAvg, fun p => .inl ⟨?_, live (globals.allList ▸ fun _ => id) p⟩⟩
    exact opBody_keeps (fun t => t.recentCpu) {} (fun _ _ => rfl) rfl taken p
  · exact absurd rfl other

theorem step_averages (h : Inv k) (mode : k.mode = .mlfqs) {e : Event} (other : e ≠ .timer)
    (taken : step k e = .ok after) : after.loadAvg = k.loadAvg ∧
      ∀ p, ((after.thread p).recentCpu = (k.thread p).recentCpu ∧ (after.Live p → k.Live p)) ∨
        (after.thread p).recentCpu = 0 := by
  obtain ⟨enabled, body | ⟨ready, body, switched⟩⟩ := step_effects taken
  · exact opBody_averages h mode enabled other body
  · have core : Core ready := (opBody_inv h e enabled body).core
    obtain ⟨_, next, rest, picked, rfl⟩ := schedule_effects switched
    obtain ⟨load, cpu⟩ := opBody_averages h mode enabled other body
    refine ⟨(dispatch_loadAvg _ _).trans load, fun p => ?_⟩
    have kept := dispatch_keeps { ready with readyList := rest } next (fun t => t.recentCpu) {} p
    have alive : Kernel.Live { ready with readyList := rest } next := core.picked_live picked
    exact (cpu p).imp (fun same => ⟨kept.trans same.1, fun live =>
      same.2 ((dispatch_live alive p).mp live)⟩) kept.trans

end

/-- The averages are values of type `int`. -/
structure Stored (k : Kernel) : Prop where
  loadAvg : -2147483648 ≤ k.loadAvg ∧ k.loadAvg < 2147483648
  recentCpu : ∀ p, -2147483648 ≤ (k.thread p).recentCpu ∧ (k.thread p).recentCpu < 2147483648

/-- Whatever a tick computes, it stores through an `int`. -/
theorem Stored.ticked {k : Kernel} (h : Stored k) :
    (-2147483648 ≤ loadAfterTick (atTick k) ∧ loadAfterTick (atTick k) < 2147483648) ∧
    ∀ p, -2147483648 ≤ cpuAfterTick (atTick k) p ∧ cpuAfterTick (atTick k) p < 2147483648 := by
  refine ⟨?_, fun p => ?_⟩
  · rw [loadAfterTick]
    split
    · exact i32_bounds _
    · exact h.loadAvg
  · have decayed : -2147483648 ≤ cpuDecayed (atTick k) p ∧
        cpuDecayed (atTick k) p < 2147483648 := by
      unfold cpuDecayed
      split
      · exact i32_bounds _
      · exact h.recentCpu p
    rw [cpuAfterTick]
    split
    · exact i32_bounds _
    · exact decayed

theorem reachable_stored {k : Kernel} (h : Reachable (kernelSystem .mlfqs) k) : Stored k := by
  refine h.invariant (P := Stored) ?_ ?_
  · rintro s ⟨values, booted⟩
    have start := threadInit_booted booted
    refine ⟨by rw [start.loadAvg]; omega, fun p => ?_⟩
    rw [start.recentCpu]
    omega
  · intro s e after reached before taken
    have inv := reachable_inv reached
    have mode := reachable_mode reached
    by_cases tick : e = .timer
    · subst tick
      obtain ⟨load, cpu⟩ := timer_step_values inv mode taken
      exact ⟨load ▸ before.ticked.1, fun p => cpu p ▸ before.ticked.2 p⟩
    · obtain ⟨load, cpu⟩ := step_averages inv mode tick taken
      refine ⟨load ▸ before.loadAvg, fun p => ?_⟩
      rcases cpu p with ⟨same, _⟩ | zero
      · rw [same]
        exact before.recentCpu p
      · rw [zero]
        omega

end Calendarizador.Source
