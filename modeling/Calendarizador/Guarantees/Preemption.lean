import Calendarizador.Invariant.Ranked

/-!
# Dispatching by priority

Under the multilevel queues the CPU should go to a ready thread of the highest priority,
and a thread that used up its quantum should give way to any ready thread that is not
worse. `schedule` takes the front of the ready list, which is sorted only at some ticks,
and `thread_tick` compares the running thread with the old front alone.
-/
namespace Calendarizador.Guarantees
open Foundation Source List

section
variable {k ready after : Kernel} {e : Event}

/-- The ready list at the `schedule` call of an operation of the running thread. -/
def queueAtSchedule (k : Kernel) : Event → List Page
  | .yield => k.readyList ++ requeued k
  | _ => k.readyList

/-- The running thread gives up the CPU without touching a priority, and the only thread
it may add to the ready list is itself. -/
theorem opBody_schedules (mode : k.mode = .mlfqs) (own : e ≠ .timer)
    (body : opBody k e = .ok (.schedules ready)) :
    ready.readyList = queueAtSchedule k e ∧ Kernel.Keeps (fun t => t.priority) k ready := by
  have plain : e.plain = true → queueAtSchedule k e = k.readyList ++ enqueues k e →
      ready.readyList = queueAtSchedule k e ∧ Kernel.Keeps (fun t => t.priority) k ready := by
    intro plain queue
    rw [queue]
    exact ⟨plain_enqueues plain body, opBody_keeps _ {} (fun _ _ => rfl) plain body⟩
  generalize same : Outcome.schedules ready = outcome at body
  cases opBody_performs body with
  | exitFinish exiting exits =>
    obtain ⟨learned, total, learning, rfl⟩ := threadExit_effects exits
    rw [learnAtExit, mode] at learning
    cases learning
    cases same
    exact ⟨rfl, Kernel.keeps_upd (fun t => t.priority) k k.current (Thread.setStatus .dying)
      fun _ => rfl⟩
  | timer => exact absurd rfl own
  | startDown | semaDown | semaRetry | block | idleBlock | sleep =>
    exact plain rfl (List.append_nil _).symm
  | yield => exact plain rfl rfl
  | _ => cases same

/-- Nobody on the list has a higher priority than its front. -/
def FrontBest (priority : Page → Int) (list : List Page) : Prop :=
  ∀ next ∈ list.head?, ∀ p ∈ list, priority p ≤ priority next

/-- The thread that `schedule` puts on the CPU is the best of those ready at the call. -/
def DispatchesBest (ready after : Kernel) : Prop :=
  ready.readyList ≠ [] → ∀ p ∈ ready.readyList,
    (ready.thread p).priority ≤ (ready.thread after.current).priority

theorem dispatchesBest_iff (switched : schedule ready = .ok after) : DispatchesBest ready after ↔
      FrontBest (fun p => (ready.thread p).priority) ready.readyList := by
  obtain ⟨_, next, rest, front | ⟨empty, _⟩, rfl⟩ := schedule_effects switched
  · simp [DispatchesBest, FrontBest, front]
  · simp [DispatchesBest, FrontBest, empty]

theorem frontBest_congr {f g : Page → Int} {list : List Page} (same : ∀ p ∈ list, f p = g p) :
    FrontBest f list ↔ FrontBest g list := by
  refine forall₂_congr fun next first => forall₂_congr fun p member => ?_
  rw [same p member, same next (mem_of_mem_head? first)]

/-- The front of a sorted list is best; threads appended to it have to be compared. -/
theorem frontBest_sorted {sorted more : List Page} (someone : sorted ≠ [])
    (ordered : Ordered (priorityCmp k) sorted) :
    FrontBest (fun p => (k.thread p).priority) (sorted ++ more) ↔
      ∀ p ∈ more, ∃ q ∈ sorted, (k.thread p).priority ≤ (k.thread q).priority := by
  cases sorted with
  | nil => exact absurd rfl someone
  | cons next rest =>
    have best : ∀ q ∈ rest, (k.thread q).priority ≤ (k.thread next).priority := by
      intro q member
      simpa [priorityCmp] using (pairwise_cons.mp ordered).1 q member
    simp only [FrontBest, cons_append, List.head?_cons, Option.mem_some_iff]
    constructor
    · rintro front p member
      exact ⟨next, mem_cons_self, front next rfl p (by simp [member])⟩
    · rintro matched _ rfl p member
      rcases mem_cons.mp member with rfl | member
      · exact le_rfl
      · rcases mem_append.mp member with behind | added
        · exact best p behind
        · obtain ⟨q, listed, better⟩ := matched p added
          rcases mem_cons.mp listed with rfl | listed
          · exact better
          · exact better.trans (best q listed)

/-- The threads that have to be best at the front for a dispatch to be right: at a yield
on return from the timer interrupt the list has just been sorted, and only the sleepers
woken by the same interrupt can be better. -/
def DispatchCondition (k : Kernel) : Event → Prop
  | .timer => ∀ p ∈ dueSleepers (atTick k), ∃ q ∈ k.readyList,
      priorityAfterTick (atTick k) p ≤ priorityAfterTick (atTick k) q
  | .yield => FrontBest (fun p => (k.thread p).priority) (k.readyList ++ requeued k)
  | _ => FrontBest (fun p => (k.thread p).priority) k.readyList

/-- The thread that is preempted is no better than the old front, so it does not count. -/
theorem frontBest_timer {ticked : Kernel} (counted : threadTick (atTick k) = .ok ticked)
    (values : Ticked (atTick k) ticked) (asks : AsksYield (atTick k)) :
    FrontBest (fun p => (ticked.thread p).priority)
      (ticked.readyList ++ (dueSleepers (atTick k) ++ requeued k)) ↔
      DispatchCondition k .timer := by
  have listed : ∀ q, q ∈ ticked.readyList ↔ q ∈ k.readyList :=
    fun q => (threadTick_accounting counted).ready.mem_iff
  have sorted := values.queue.resolve_right fun unsorted => unsorted.1 asks
  obtain ⟨front, rest, someone, _, notWorse⟩ := asks
  have member : front ∈ k.readyList := by
    change k.readyList = front :: rest at someone
    simp [someone]
  rw [frontBest_sorted (ne_nil_of_mem ((listed front).mpr member)) sorted]
  simp only [DispatchCondition, listed, values.priority]
  constructor
  · exact fun all p due => all p (mem_append_left _ due)
  · intro sleepers p added
    rcases mem_append.mp added with due | preempted
    · exact sleepers p due
    · have here : p = k.current := by
        unfold requeued at preempted
        split at preempted
        · exact mem_singleton.mp preempted
        · cases preempted
      exact ⟨front, member, here ▸ notWorse⟩

/-- The exact condition on the state in which an operation starts. -/
theorem dispatchesBest_condition (mode : k.mode = .mlfqs) (inv : Inv k)
    (body : opBody k e = .ok (.schedules ready)) (switched : schedule ready = .ok after) :
    DispatchesBest ready after ↔ DispatchCondition k e := by
  rw [dispatchesBest_iff switched]
  by_cases own : e = .timer
  · subst own
    obtain ⟨ticked, counted, values, _, kept, ⟨_, returned, _⟩ | ⟨asks, _, queue⟩⟩ :=
      intrHandler_ticked inv mode body
    · cases returned
    · have same : ∀ p, (ready.thread p).priority = (ticked.thread p).priority :=
        fun p => congrArg (fun s => s.2.2) (kept p)
      change ready.readyList = _ at queue
      rw [frontBest_congr fun p _ => same p, queue, append_assoc]
      exact frontBest_timer counted values asks
  · obtain ⟨queue, kept⟩ := opBody_schedules mode own body
    rw [frontBest_congr fun p _ => kept p, queue]
    cases e with
    | timer => exact absurd rfl own
    | _ => rfl

theorem frontBest_ranked {rank : Page → Int} {list : List Page} (h : Ranked rank list) :
    FrontBest rank list := by
  cases list with
  | nil => simp [FrontBest]
  | cons next rest =>
    rintro front first p member
    rw [List.head?_cons, Option.mem_some_iff] at first
    subst first
    rcases mem_cons.mp member with rfl | behind
    · exact le_rfl
    · exact (pairwise_cons.mp h).1 p behind

/-- A dispatch is right exactly as its condition says, and every dispatch is right in a
run in which nothing better is appended to the ready list than what is there, and no
recalculation outside the tick changes the order of the list. -/
theorem dispatch_by_priority (k ready after : Kernel) (e : Event)
    (h : Reachable (kernelSystem .mlfqs) k) (body : opBody k e = .ok (.schedules ready))
    (switched : schedule ready = .ok after) :
    (DispatchesBest ready after ↔ DispatchCondition k e) ∧
    (ReachableWhile (kernelSystem .mlfqs) InOrder k → InOrder k e →
      DispatchesBest ready after) := by
  have mode : k.mode = .mlfqs := reachable_mode h
  have inv := reachable_inv h
  refine ⟨dispatchesBest_condition mode inv body switched, fun orderly order => ?_⟩
  have ranked : Ranked ready.priority ready.readyList :=
    opBody_ranked inv mode (reachable_ranked orderly).2 order body
  exact (dispatchesBest_iff switched).mpr (frontBest_ranked ranked)

/-- After seven ticks `main` yields to the thread it created, which is better. -/
theorem dispatch_by_priority_yield : ∃ k ready after,
    ReachableWhile (kernelSystem .mlfqs) InOrder k ∧ opBody k .timer = .ok (.schedules ready) ∧
    schedule ready = .ok after ∧ ready.readyList = [2, 0] ∧ DispatchCondition k .timer ∧
    DispatchesBest ready after := by
  obtain ⟨k, orderly, order, ready, schedules, after, switched, queue⟩ :=
    executeWhile_holds .mlfqs InOrder (threadStart ++
      [.create (some 2) ['a'] 31, .unblock 2] ++ List.replicate 6 .timer) (P := fun k =>
      InOrder k .timer ∧ ∃ ready ∈ schedulesFrom k .timer, ∃ after ∈ (schedule ready).toOption,
        ready.readyList = [2, 0]) (by decide +kernel)
  have body := schedulesFrom_eq_some schedules
  have switched := toOption_eq_some switched
  have result := dispatch_by_priority k ready after .timer (reachable_ranked orderly).1 body
    switched
  have best := result.2 orderly order
  exact ⟨k, ready, after, orderly, body, switched, queue, result.1.mp best, best⟩

/-- `main` creates a thread of priority 10, then one of priority 20, and waits: the first
one is dispatched. -/
theorem dispatch_by_priority_wait : ∃ k ready after, Reachable (kernelSystem .mlfqs) k ∧
    opBody k (.semaDown 0) = .ok (.schedules ready) ∧ schedule ready = .ok after ∧
    ready.readyList = [2, 3] ∧ after.current = 2 ∧
    ((ready.thread 2).priority, (ready.thread 3).priority) = (10, 20) ∧
    ¬ DispatchesBest ready after := by
  obtain ⟨k, reached, ready, body, after, switched, queue, current, low, high⟩ :=
    execute_holds .mlfqs (threadStart ++
      [.create (some 2) ['a'] 10, .unblock 2, .create (some 3) ['b'] 20, .unblock 3]) (P := fun k =>
      ∃ ready ∈ schedulesFrom k (.semaDown 0), ∃ after ∈ (schedule ready).toOption,
        ready.readyList = [2, 3] ∧ after.current = 2 ∧ (ready.thread 2).priority = 10 ∧
          (ready.thread 3).priority = 20) (by decide +kernel)
  refine ⟨k, ready, after, reached, schedulesFrom_eq_some body, toOption_eq_some switched, queue,
    current, by rw [low, high], fun best => ?_⟩
  have worse := best (by simp [queue]) 3 (by simp [queue])
  rw [current, low, high] at worse
  omega

/-- A thread that used up its quantum is asked to yield if some ready thread is not worse,
by the priorities after the tick. -/
def PreemptsFairly (ticked : Kernel) : Prop :=
  quantum ≤ ticked.threadTicks → (∃ q ∈ ticked.readyList,
    (ticked.thread ticked.current).priority ≤ (ticked.thread q).priority) →
  ticked.yieldOnReturn = true

/-- Between threads of one priority, the quantum of seven ticks is enough to owe a yield. -/
example : ¬ PreemptsFairly { blankKernel .mlfqs id with readyList := [1], threadTicks := 7 } ∧
    PreemptsFairly { blankKernel .mlfqs id with readyList := [1], threadTicks := 6 } := by
  unfold PreemptsFairly
  decide +kernel

/-- A tick asks for every yield that is due exactly if the quantum is not used up, all
ready threads are worse, or the one that was at the front is not. -/
theorem preemption_complete (k ticked : Kernel) (h : Reachable (kernelSystem .mlfqs) k)
    (someone : k.readyList ≠ []) (taken : threadTick (atTick k) = .ok ticked) :
    PreemptsFairly ticked ↔
      (k.threadTicks + 1) % 4294967296 < quantum ∨
      (∀ q ∈ k.readyList,
        priorityAfterTick (atTick k) q < priorityAfterTick (atTick k) k.current) ∨
      ∃ front ∈ k.readyList.head?,
        priorityAfterTick (atTick k) k.current ≤ priorityAfterTick (atTick k) front := by
  have inv : Inv (atTick k) := (reachable_inv h).registers (k.ticks + 1) false
  have mode : k.mode = .mlfqs := reachable_mode h
  have values := threadTick_ticked inv mode taken
  have accounts := threadTick_accounting taken
  have listed : ∀ q, q ∈ ticked.readyList ↔ q ∈ k.readyList := fun q => accounts.ready.mem_iff
  have current : ticked.current = k.current := accounts.current
  have used : ticked.threadTicks = (k.threadTicks + 1) % 4294967296 := values.threadTicks someone
  have asks : ticked.yieldOnReturn = true ↔ quantum ≤ (k.threadTicks + 1) % 4294967296 ∧
      ∃ front ∈ k.readyList.head?,
        priorityAfterTick (atTick k) k.current ≤ priorityAfterTick (atTick k) front := by
    rw [values.yield_iff]
    constructor
    · rintro ⟨front, rest, ready, enough, better⟩
      change k.readyList = front :: rest at ready
      exact ⟨enough, front, by simp [ready], better⟩
    · rintro ⟨enough, front, first, better⟩
      obtain ⟨rest, ready⟩ := List.head?_eq_some_iff.mp first
      exact ⟨front, rest, ready, enough, better⟩
  unfold PreemptsFairly
  rw [asks, used, current]
  simp only [listed, values.priority]
  constructor
  · intro fair
    by_contra missed
    push Not at missed
    obtain ⟨enough, ⟨q, member, better⟩, front⟩ := missed
    obtain ⟨_, next, first, notWorse⟩ := fair enough ⟨q, member, better⟩
    exact absurd notWorse (not_le.mpr (front next first))
  · rintro (early | worse | front) enough ⟨q, member, better⟩
    · omega
    · exact absurd better (not_le.mpr (worse q member))
    · exact ⟨enough, front⟩

/-- The seventh tick of `main` next to a better thread. -/
theorem preemption_complete_better : ∃ k ticked, threadTick (atTick k) = .ok ticked ∧
    ticked.threadTicks = 7 ∧ ticked.yieldOnReturn = true ∧ PreemptsFairly ticked := by
  obtain ⟨k, reached, ready, better, ticked, taken, used, asked⟩ := execute_holds .mlfqs
    (threadStart ++ [.create (some 2) ['a'] 31, .unblock 2] ++ List.replicate 6 .timer)
    (P := fun k => k.readyList = [2] ∧
      priorityAfterTick (atTick k) k.current ≤ priorityAfterTick (atTick k) 2 ∧
        ∃ ticked ∈ (threadTick (atTick k)).toOption,
          ticked.threadTicks = 7 ∧ ticked.yieldOnReturn = true) (by decide +kernel)
  have taken := toOption_eq_some taken
  refine ⟨k, ticked, taken, used, asked, ?_⟩
  exact (preemption_complete k ticked reached (by simp [ready]) taken).mpr
    (.inr (.inr ⟨2, by simp [ready], better⟩))

/-- `main` at priority 63 keeps the CPU at its seventh tick: the front of the ready list
has priority 10, and the thread behind it has priority 63. -/
theorem preemption_missed : ∃ k ticked, Reachable (kernelSystem .mlfqs) k ∧
    threadTick (atTick k) = .ok ticked ∧ ticked.readyList = [2, 3] ∧ ticked.threadTicks = 7 ∧
    [ticked.current, 2, 3].map (fun p => (ticked.thread p).priority) = [63, 10, 63] ∧
    ¬ PreemptsFairly ticked := by
  obtain ⟨k, reached, ticked, taken, ready, used, silent, priorities⟩ := execute_holds .mlfqs
    (threadStart ++ [.setPriority 0, .create (some 2) ['a'] 10, .unblock 2,
      .create (some 3) ['b'] 63, .unblock 3] ++ List.replicate 6 .timer) (P := fun k =>
      ∃ ticked ∈ (threadTick (atTick k)).toOption, ticked.readyList = [2, 3] ∧
        ticked.threadTicks = 7 ∧ ticked.yieldOnReturn = false ∧
          [ticked.current, 2, 3].map (fun p => (ticked.thread p).priority) = [63, 10, 63])
    (by decide +kernel)
  refine ⟨k, ticked, reached, toOption_eq_some taken, ready, used, priorities, fun fair => ?_⟩
  simp only [map_cons, map_nil, List.cons.injEq] at priorities
  have asked := fair (by rw [used]; decide) ⟨3, by simp [ready], by omega⟩
  rw [silent] at asked
  cases asked

end
end Calendarizador.Guarantees
