import Calendarizador.Guarantees.Exit
import Calendarizador.Invariant.Arrivals
import Calendarizador.Invariant.Estimates

/-!
# The ready list at an exit under SJF

An exit gives every live thread the estimate of its name and then sorts the ready list.
The sort is stable, so jobs of one length stay in the order in which they became ready,
and `schedule` takes the front, unless the division of the wait traps before that.
-/
namespace Calendarizador.Guarantees
open Foundation Source

/-- The ready list of `k` in the order of the estimates an exit leaves in `sorted`. -/
structure ExitOrder (k sorted : Kernel) : Prop where
  estimates : ∀ p, k.Live p → ∃ r, recordOf sorted (sorted.thread p).name = some r ∧
    (sorted.thread p).totalExec = (sorted.thread r).totalExec
  perm : sorted.readyList.Perm k.readyList
  ascending : sorted.readyList.Pairwise fun p q =>
    (sorted.thread p).totalExec ≤ (sorted.thread q).totalExec
  /-- The threads of every one estimate are in their old order. -/
  stable : ∀ length : Int,
    sorted.readyList.filter (fun p => (sorted.thread p).totalExec = length) =
      k.readyList.filter fun p => (sorted.thread p).totalExec = length

section
variable {k burst sorted ready : Kernel}

/-- Threads compare alike exactly if their estimates are equal. -/
theorem alike_durationCmp (k : Kernel) (p q : Page) :
    alike (durationCmp k) p q = decide ((k.thread q).totalExec = (k.thread p).totalExec) := by
  unfold alike durationCmp
  rw [Bool.eq_iff_iff]
  simp only [Bool.and_eq_true, Bool.not_eq_true', decide_eq_false_iff_not, decide_eq_true_eq]
  omega

/-- A sort by estimate keeps the order of the threads of any one estimate. -/
theorem listSort_durations (k : Kernel) (list : List Page) (length : Int) :
    (listSort (durationCmp k) list).filter (fun p => (k.thread p).totalExec = length) =
      list.filter fun p => (k.thread p).totalExec = length := by
  by_cases someone : ∃ p ∈ list, (k.thread p).totalExec = length
  · obtain ⟨p, _, rfl⟩ := someone
    have kept := (naturalSort_stable (durationCmp_weak k) list).alike p
    rw [funext (alike_durationCmp k p)] at kept
    exact kept
  · have none : ∀ q ∈ list, ¬ (k.thread q).totalExec = length := fun q member here =>
      someone ⟨q, member, here⟩
    have before : list.filter (fun p => (k.thread p).totalExec = length) = [] :=
      List.filter_eq_nil_iff.mpr (by simpa using none)
    rw [before, List.filter_eq_nil_iff]
    intro q member
    simpa using none q ((listSort_perm _ list).mem_iff.mp member)

/-- The lookup loop does not touch the ready list. -/
theorem storeTotalExec_readyList (list : List Page) (k : Kernel) :
    (list.foldl storeTotalExec k).readyList = k.readyList := by
  induction list generalizing k with
  | nil => rfl
  | cons t rest ih =>
    rw [List.foldl_cons, ih, storeTotalExec, Kernel.upd_readyList, getTotalExec_snd]

/-- What `thread_exit` has done before it counts the wait. -/
theorem learnAtExit_order (h : Inv k) (sjf : k.mode = .sjf) (estimated : Estimated k)
    (learning : learnAtExit k = .ok sorted) : ExitOrder k sorted := by
  rw [learnAtExit, if_pos sjf] at learning
  obtain ⟨burst, learned, rfl⟩ := map_eq_ok.mp learning
  have accounts := learnBurst_accounting sjf learned
  have now := (learnBurst_estimate h sjf estimated learned).2
  have ordered : Ordered (durationCmp burst) (listSort (durationCmp burst) burst.readyList) :=
    naturalSort_ordered (durationCmp_weak burst) _
  have queue : burst.readyList = k.readyList := by
    rw [learnBurst_eq, Except.ok.injEq] at learned
    rw [← learned, storeTotalExec_readyList]
    rfl
  refine ⟨fun p alive => ?_, ?_, ?_, fun length => ?_⟩
  · have live := (accounts.live p).mpr alive
    obtain ⟨r, found⟩ := Option.ne_none_iff_exists'.mp (now.named p live)
    exact ⟨r, found, (now.current p live).trans (estimate_of_record found)⟩
  · exact (listSort_perm _ _).trans accounts.ready
  · refine ordered.imp ?_
    intro p q behind
    have notLess : ¬ (burst.thread q).totalExec < (burst.thread p).totalExec := by
      simpa [durationCmp] using behind
    exact not_lt.mp notLess
  · exact (listSort_durations burst burst.readyList length).trans (by rw [queue]; rfl)

/-- Only names, estimates, records and the list itself matter. -/
theorem ExitOrder.congr (h : ExitOrder k sorted)
    (kept : Kernel.Keeps (fun t => (t.name, t.totalExec)) sorted ready)
    (records : ready.allAllList = sorted.allAllList) (queue : ready.readyList = sorted.readyList) :
    ExitOrder k ready := by
  have names : ∀ p, (ready.thread p).name = (sorted.thread p).name :=
    fun p => congrArg (fun s => s.1) (kept p)
  have exec : ∀ p, (ready.thread p).totalExec = (sorted.thread p).totalExec :=
    fun p => congrArg (fun s => s.2) (kept p)
  refine ⟨fun p alive => ?_, queue ▸ h.perm, ?_, fun length => ?_⟩
  · obtain ⟨r, found, same⟩ := h.estimates p alive
    refine ⟨r, ?_, by rw [exec, exec, same]⟩
    rw [recordOf_congr records fun r _ => names r, names, found]
  · simpa only [queue, exec] using h.ascending
  · simpa only [queue, exec] using h.stable length

/-- The end of `thread_exit` under SJF: `schedule` puts the front of the sorted list on the CPU,
or the idle thread if nobody is ready. -/
structure Dispatches (k ready after : Kernel) : Prop where
  exits : opBody k .exitFinish = .ok (.schedules ready)
  order : ExitOrder k ready
  switches : schedule ready = .ok after
  front : ∀ front rest, ready.readyList = front :: rest → after.current = front
  idle : k.readyList = [] → k.idleThread = some after.current

/-- If the wait can be counted, the exit comes to its `schedule`. -/
theorem dispatches_of_recordWait {counted : Kernel} {rep : Int} {seen : Nat}
    (h : Reachable (kernelSystem .sjf) k) (exiting : k.code k.current = .exiting rep seen)
    (learning : learnAtExit k = .ok sorted) (order : ExitOrder k sorted)
    (counts : recordWait sorted rep = .ok counted) : ∃ ready after, Dispatches k ready after := by
  obtain ⟨total, rfl⟩ := recordWait_effects counts
  obtain ⟨ready, made⟩ : ∃ ready, ready = ({ sorted with
      totalWaitTime := total
      allList := sorted.allList.erase sorted.current }.setStatus sorted.current .dying) := ⟨_, rfl⟩
  have exits : opBody k .exitFinish = .ok (.schedules ready) := by
    simp only [opBody, exiting, made]
    exact bind_eq_ok.mpr ⟨sorted, learning, bind_eq_ok.mpr ⟨_, counts, rfl⟩⟩
  have idle : ready.idleThread = k.idleThread := by
    rw [made]
    exact (learnAtExit_accounting learning).idleThread
  have leaves : ready.status ready.current ≠ .running := by
    rw [made]
    simp
  have ordered : ExitOrder k ready := by
    rw [made]
    exact order.congr (Kernel.keeps_upd (fun t => (t.name, t.totalExec)) _ _ _ fun _ => rfl) rfl rfl
  refine ⟨ready, ?_⟩
  cases queue : ready.readyList with
  | nil =>
    obtain ⟨next, set⟩ := Option.ne_none_iff_exists'.mp (exiting_idle h exiting)
    refine ⟨dispatch ready next, exits, ordered, ?_, by simp [queue], fun _ => ?_⟩
    · rw [schedule, nextThreadToRun, queue, idle, set]
      exact if_neg leaves
    · rw [dispatch_current, set]
  | cons front rest =>
    refine ⟨dispatch { ready with readyList := rest } front, exits, ordered, ?_, ?_, fun none => ?_⟩
    · rw [schedule, nextThreadToRun, queue]
      exact if_neg leaves
    · intro _ _ same
      rw [dispatch_current, (List.cons.inj (queue.symm.trans same)).1]
    · have same := ordered.perm
      rw [none, queue] at same
      cases same.eq_nil

/-- An exit under SJF: the estimates are those of the names, and the ready list is sorted by them
stably. The front of that list, or the idle thread if nobody is ready, is dispatched exactly if
the division of the wait does not trap: `main` exits, or the quotient by `rep` exists. -/
theorem exit_reorders (k : Kernel) (rep : Int) (seen : Nat) (h : Reachable (kernelSystem .sjf) k)
    (exiting : k.code k.current = .exiting rep seen) :
    ∃ sorted, learnAtExit k = .ok sorted ∧ ExitOrder k sorted ∧
      ((∃ ready after, Dispatches k ready after) ↔ k.current = k.initialThread ∨
        rep ≠ 0 ∧ ¬ ((k.thread k.current).totalWait = -2147483648 ∧ rep = -1)) := by
  have inv := reachable_inv h
  obtain ⟨sorted, learning⟩ := learnAtExit_total k
  have accounts := learnAtExit_accounting learning
  have order := learnAtExit_order inv (reachable_mode h) (reachable_estimated h) learning
  refine ⟨sorted, learning, order, ?_⟩
  rw [← not_or]
  constructor
  · rintro ⟨ready, after, dispatches⟩
    refine or_iff_not_imp_left.mpr fun ordinary traps => ?_
    have fault := (threadExit_divideError rep ordinary (exiting_not_idle inv exiting)).mpr traps
    have exits := dispatches.exits
    simp only [opBody, exiting, fault] at exits
    cases exits
  · intro safe
    have waited : (sorted.thread k.current).totalWait = (k.thread k.current).totalWait :=
      accounts.keeps (fun t => t.totalWait) (fun _ => rfl) k.current
    rw [← waited, ← accounts.current, ← accounts.initialThread] at safe
    obtain ⟨counted, counts⟩ := recordWait_ok safe
    exact dispatches_of_recordWait h exiting learning order counts

/-- `a` has run for two ticks when `main` creates a second `a` and then `b`, and exits: `b`
comes first. -/
theorem exit_reorders_new : ∃ k ready after, Reachable (kernelSystem .sjf) k ∧
    k.readyList = [3, 4] ∧ Dispatches k ready after ∧ ready.readyList = [4, 3] ∧
    after.current = 4 := by
  obtain ⟨k, reached, queue, exiting, learned, learning, sortedQueue⟩ :=
    execute_holds .sjf (threadStart ++ [.create (some 2) ['a'] 0, .unblock 2, .block,
      .timer, .timer, .yield, .exit, .exitFinish, .unblock 0, .idleBlock,
      .create (some 3) ['a'] 0, .unblock 3, .create (some 4) ['b'] 0, .unblock 4, .exit])
    (P := fun k => k.readyList = [3, 4] ∧ k.code k.current = .exiting 2 2 ∧
      ∃ sorted ∈ (learnAtExit k).toOption, sorted.readyList = [4, 3]) (by decide +kernel)
  obtain ⟨_, _, _, dispatched⟩ := exit_reorders k 2 2 reached exiting
  obtain ⟨ready, after, dispatches⟩ := dispatched.mpr (.inr (by simp))
  have same : ready.readyList = learned.readyList := by
    cases opBody_performs dispatches.exits with
    | exitFinish place exited =>
      obtain ⟨again, total, relearned, schedules⟩ := threadExit_effects exited
      obtain rfl := Except.ok.inj ((toOption_eq_some learning).symm.trans relearned)
      obtain rfl := Outcome.schedules.inj schedules
      rfl
  rw [sortedQueue] at same
  exact ⟨k, ready, after, reached, queue, dispatches, same, dispatches.front 4 [3] same⟩

end

/-- `main` creates `a` and `b` and waits; `a` exits in its first time slice and traps, so `b` is
not dispatched. -/
theorem sjf_exit_traps : ∃ k, Reachable (kernelSystem .sjf) k ∧ k.readyList = [3] ∧
    k.code k.current = .exiting 0 1 ∧ step k .exitFinish = .error .divideError ∧
    ¬ ∃ ready after, Dispatches k ready after := by
  obtain ⟨k, reached, queue, exiting, enabled, ordinary, notIdle⟩ := execute_holds .sjf
    (threadStart ++ [.create (some 2) ['a'] 31, .unblock 2, .create (some 3) ['b'] 31,
      .unblock 3, .semaDown 0, .exit]) (P := fun k => k.readyList = [3] ∧
        k.code k.current = .exiting 0 1 ∧ Event.enabled k .exitFinish = true ∧
        k.current ≠ k.initialThread ∧ k.idleThread ≠ some k.current) (by decide +kernel)
  have fault : opBody k .exitFinish = .error .divideError := by
    simp only [opBody, exiting]
    exact (threadExit_divideError 0 ordinary notIdle).mpr (.inl rfl)
  refine ⟨k, reached, queue, exiting, ?_, ?_⟩
  · rw [step, if_pos enabled, fault]
    rfl
  · rintro ⟨ready, after, dispatches⟩
    cases fault.symm.trans dispatches.exits

end Calendarizador.Guarantees
