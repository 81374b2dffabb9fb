import Calendarizador.Guarantees.Preemption
import Calendarizador.Invariant.Estimates

/-!
# Shortest job first

Under SJF `schedule` should dispatch a ready thread with the smallest estimate `total_exec`.
Only `thread_exit` changes estimates, and it sorts the ready list afterwards; every other
operation appends to the list and lets `schedule` take its front. A dispatch at an exit is
therefore always right, and the others are right in runs in which nothing is appended behind
a longer job.
-/
namespace Calendarizador.Guarantees
open Foundation Source

/-- The shorter the estimate, the better. -/
def shortness (k : Kernel) (p : Page) : Int := -(k.thread p).totalExec

/-- What the event appends to the ready list has no smaller estimate than what is there. The
idle thread is created before anybody is ready. -/
def InDurationOrder (k : Kernel) : Event → Prop
  | .startIdle _ => True
  | e => Ranked (shortness k) (enqueues k e) ∧
      ∀ t ∈ enqueues k e, ∀ p ∈ k.readyList, (k.thread p).totalExec ≤ (k.thread t).totalExec

instance (k : Kernel) (e : Event) : Decidable (InDurationOrder k e) := by
  apply @Event.casesOn _ e <;> intros <;> dsimp only [InDurationOrder] <;> infer_instance

section
variable {k ready after : Kernel} {e : Event} {outcome : Outcome}

/-- Only `thread_exit` changes the estimate of an existing thread. -/
theorem opBody_totalExec (h : Inv k) (sjf : k.mode = .sjf) (enabled : e.enabled k = true)
    (stays : e ≠ .exitFinish) (taken : opBody k e = .ok outcome) {p : Page}
    (used : k.allocated p = true) :
    (outcome.kernel.thread p).totalExec = (k.thread p).totalExec := by
  rcases opBody_effects h enabled taken with ⟨_, _, calm⟩ | ⟨t, name, _, born⟩ |
    ⟨exits, _⟩ | ⟨n, rfl, _, rfl⟩ | ⟨rfl, handled⟩
  · exact congrArg (fun s => s.2.2.2.2.2.1) (calm.kept p)
  · have other : p ≠ t := by
      rintro rfl
      cases born.free.symm.trans used
    exact congrArg (fun s => s.2.2.2.2.2.1) (born.kept p other)
  · exact absurd exits stays
  · exact opBody_keeps (fun t => t.totalExec) {} (fun _ _ => rfl) rfl taken p
  · exact congrArg Prod.snd ((intrHandler_sjf sjf handled).1 p)

/-- Threads on the ready list at the end of a call existed before it. -/
theorem enqueued_used (h : Inv k) (sjf : k.mode = .sjf) (enabled : e.enabled k = true)
    (stays : e ≠ .exitFinish) (started : ∀ q, e ≠ .startIdle q) (taken : opBody k e = .ok outcome)
    {p : Page} (member : p ∈ k.readyList ++ enqueues k e) : k.allocated p = true := by
  have listed : p ∈ outcome.kernel.readyList := by
    rwa [opBody_enqueues h (.inr sjf) (fun _ => stays) taken]
  have core := (opBody_inv h e enabled taken).core
  rcases (opBody_live h enabled taken).1 p ((core.threads p).ready.mp listed).1 with
    was | ⟨_, name, creates⟩
  · exact was.1
  · -- A thread that `thread_create` has just made is not unblocked yet.
    cases e with
    | startIdle q => exact absurd rfl (started q)
    | create q _ _ =>
      have before : p ∈ k.readyList := by simpa [enqueues] using member
      exact ((h.core.threads p).ready.mp before).1.1
    | _ => cases creates

/-- `thread_exit` calls `schedule` with a sorted list. -/
theorem exit_sorts (sjf : k.mode = .sjf) (taken : opBody k .exitFinish = .ok outcome) :
    Ranked (shortness outcome.kernel) outcome.kernel.readyList := by
  cases opBody_performs taken with
  | exitFinish exiting exits =>
    obtain ⟨learned, total, learning, rfl⟩ := threadExit_effects exits
    rw [learnAtExit, if_pos sjf] at learning
    obtain ⟨burst, _, rfl⟩ := map_eq_ok.mp learning
    have sorted : Ordered (durationCmp burst) (listSort (durationCmp burst) burst.readyList) :=
      naturalSort_ordered (durationCmp_weak burst) _
    have ranked : Ranked (shortness burst) (listSort (durationCmp burst) burst.readyList) := by
      refine List.Pairwise.imp ?_ sorted
      intro a b behind
      simpa [durationCmp, shortness] using behind
    refine ranked.congr fun p _ => ?_
    exact congrArg Neg.neg (Kernel.keeps_upd (fun t => t.totalExec) _ _ (Thread.setStatus .dying)
      (fun _ => rfl) p)

/-- Nobody is ready when `main` creates the idle thread. -/
theorem startIdle_alone (h : Inv k) (boot : Booting k) {q : Page}
    (enabled : Event.enabled k (.startIdle q) = true) : k.readyList = [] := by
  have early : k.code k.current = .start := of_decide_eq_true enabled
  obtain ⟨initial, none, noEntry⟩ := h.core.start k.current h.live early
  have starting : k.Starting := by
    rw [Kernel.Starting, ← initial, early]
    rfl
  refine List.eq_nil_iff_forall_not_mem.mpr fun p member => ?_
  obtain ⟨live, ready, _⟩ := (h.core.threads p).ready.mp member
  have other : p ≠ k.initialThread := by
    rintro rfl
    rw [← initial, h.running] at ready
    cases ready
  have isIdle : ¬ (k.code p).isIdle := by
    intro idle
    cases none.symm.trans ((h.core.threads p).idle.mpr ⟨live, idle⟩)
  rcases boot.others starting p live other with entry | up | loop
  · exact noEntry p live entry
  · exact isIdle (.inl up)
  · exact isIdle (.inr loop)

/-- Every event that is in order keeps the list sorted up to its `schedule` call. -/
theorem opBody_shortest (h : Inv k) (boot : Booting k) (sjf : k.mode = .sjf)
    (ranked : Ranked (shortness k) k.readyList) (order : InDurationOrder k e)
    (enabled : e.enabled k = true) (taken : opBody k e = .ok outcome) :
    Ranked (shortness outcome.kernel) outcome.kernel.readyList := by
  by_cases exits : e = .exitFinish
  · subst exits
    exact exit_sorts sjf taken
  · have queue := opBody_enqueues h (.inr sjf) (fun _ => exits) taken
    rw [queue]
    by_cases starts : ∃ q, e = .startIdle q
    · obtain ⟨q, rfl⟩ := starts
      rw [startIdle_alone h boot enabled]
      exact List.pairwise_singleton _ _
    · have started : ∀ q, e ≠ .startIdle q := fun q same => starts ⟨q, same⟩
      obtain ⟨added, last⟩ : Ranked (shortness k) (enqueues k e) ∧ ∀ t ∈ enqueues k e,
          ∀ p ∈ k.readyList, (k.thread p).totalExec ≤ (k.thread t).totalExec := by
        cases e with
        | startIdle q => exact absurd rfl (started q)
        | _ => exact order
      refine Ranked.congr (ranked.append added fun t new p old => ?_) fun p member => ?_
      · have longer := last t new p old
        rw [shortness, shortness]
        omega
      · rw [shortness, shortness, opBody_totalExec h sjf enabled exits taken
          (enqueued_used h sjf enabled exits started taken member)]

/-- A run whose steps are all in order keeps the ready list sorted. -/
theorem reachable_shortest (h : ReachableWhile (kernelSystem .sjf) InDurationOrder k) :
    Reachable (kernelSystem .sjf) k ∧ Ranked (shortness k) k.readyList := by
  refine reachableWhile_ranked shortness (fun k rest next p => ?_) ?_ h
  · exact congrArg Neg.neg
      (dispatch_keeps { k with readyList := rest } next (fun t => t.totalExec) {} p)
  · intro k e outcome reached ranked order enabled body
    exact opBody_shortest (reachable_inv reached) (reachable_booting reached)
      (reachable_mode reached) ranked order enabled body

/-- A job that yields to a longer one is out of order, and one that yields to its like is not. -/
example : ¬ InDurationOrder ({ blankKernel .sjf id with readyList := [1] }.upd 1
      fun t => { t with totalExec := 5 }) .yield ∧
    InDurationOrder { blankKernel .sjf id with readyList := [1] } .yield := by
  decide +kernel

/-- The thread that `schedule` puts on the CPU has the smallest estimate of those ready at
the call. -/
def DispatchesShortest (ready after : Kernel) : Prop :=
  ready.readyList ≠ [] → ∀ p ∈ ready.readyList,
    (ready.thread after.current).totalExec ≤ (ready.thread p).totalExec

theorem dispatchesShortest_iff (switched : schedule ready = .ok after) :
    DispatchesShortest ready after ↔ FrontBest (shortness ready) ready.readyList := by
  obtain ⟨_, next, rest, front | ⟨empty, _⟩, rfl⟩ := schedule_effects switched
  · simp [DispatchesShortest, FrontBest, front, shortness]
  · simp [DispatchesShortest, FrontBest, empty]

/-- The state in which an operation starts decides: the thread at the front, with a thread
that yields at the end of the list, has the smallest estimate. -/
def ShortestCondition (k : Kernel) : Event → Prop
  | .exitFinish => True
  | e => FrontBest (shortness k) (k.readyList ++ enqueues k e)

theorem dispatchesShortest_condition (h : Inv k) (sjf : k.mode = .sjf)
    (enabled : e.enabled k = true) (body : opBody k e = .ok (.schedules ready))
    (switched : schedule ready = .ok after) :
    DispatchesShortest ready after ↔ ShortestCondition k e := by
  rw [dispatchesShortest_iff switched]
  by_cases exits : e = .exitFinish
  · subst exits
    exact iff_of_true (frontBest_ranked (exit_sorts sjf body)) trivial
  · have own : e ≠ .timer := by
      rintro rfl
      obtain ⟨handled, no, _⟩ := intrHandler_returns h (.inr sjf) body
      cases no
    have stops := opBody_givesUp own body
    have started : ∀ q, e ≠ .startIdle q := by
      rintro q rfl
      exact stops
    have queue : ready.readyList = k.readyList ++ enqueues k e :=
      opBody_enqueues h (.inr sjf) (fun _ => exits) body
    have kept : ∀ p ∈ k.readyList ++ enqueues k e, shortness ready p = shortness k p := by
      intro p member
      exact congrArg Neg.neg (opBody_totalExec h sjf enabled exits body
        (enqueued_used h sjf enabled exits started body member))
    rw [queue, frontBest_congr kept]
    cases e with
    | exitFinish => exact absurd rfl exits
    | _ => rfl

/-- A dispatch is right exactly as its condition says, at an exit always, and every dispatch
is right in a run in which nothing is appended to the ready list behind a longer job. -/
theorem dispatch_by_duration (k ready after : Kernel) (e : Event)
    (h : Reachable (kernelSystem .sjf) k) (enabled : e.enabled k = true)
    (body : opBody k e = .ok (.schedules ready)) (switched : schedule ready = .ok after) :
    (DispatchesShortest ready after ↔ ShortestCondition k e) ∧
    (ReachableWhile (kernelSystem .sjf) InDurationOrder k → InDurationOrder k e →
      DispatchesShortest ready after) := by
  have sjf : k.mode = .sjf := reachable_mode h
  have inv := reachable_inv h
  refine ⟨dispatchesShortest_condition inv sjf enabled body switched, fun orderly order => ?_⟩
  have ranked : Ranked (shortness ready) ready.readyList := opBody_shortest inv
    (reachable_booting h) sjf (reachable_shortest orderly).2 order enabled body
  exact (dispatchesShortest_iff switched).mpr (frontBest_ranked ranked)

/-- A run in which the thread `a` takes two ticks and exits, and `main` creates threads with
the given names on pages 3 and 4. -/
def secondJobs (first second : Name) : List Event :=
  threadStart ++ [.create (some 2) ['a'] 0, .unblock 2, .block, .timer, .timer, .yield, .exit,
    .exitFinish, .unblock 0, .idleBlock, .create (some 3) first 0, .unblock 3,
    .create (some 4) second 0, .unblock 4]

/-- With the new job in front, `main` waits and it is dispatched. -/
theorem dispatch_by_duration_order : ∃ k ready after,
    ReachableWhile (kernelSystem .sjf) InDurationOrder k ∧
    opBody k (.semaDown 0) = .ok (.schedules ready) ∧ schedule ready = .ok after ∧
    ready.readyList = [3, 4] ∧ DispatchesShortest ready after := by
  obtain ⟨k, orderly, order, enabled, ready, schedules, after, switched, queue⟩ :=
    executeWhile_holds .sjf InDurationOrder (secondJobs ['b'] ['a']) (P := fun k =>
      InDurationOrder k (.semaDown 0) ∧ Event.enabled k (.semaDown 0) = true ∧
        ∃ ready ∈ schedulesFrom k (.semaDown 0), ∃ after ∈ (schedule ready).toOption,
          ready.readyList = [3, 4]) (by decide +kernel)
  have body := schedulesFrom_eq_some schedules
  have switched := toOption_eq_some switched
  have right := (dispatch_by_duration k ready after (.semaDown 0) orderly.reachable enabled body
    switched).2 orderly order
  exact ⟨k, ready, after, orderly, body, switched, queue, right⟩

/-- With the job of known length in front it is dispatched before the new one, whose estimate
is zero. -/
theorem dispatch_by_duration_wait : ∃ k ready after, Reachable (kernelSystem .sjf) k ∧
    opBody k (.semaDown 0) = .ok (.schedules ready) ∧ schedule ready = .ok after ∧
    ready.readyList = [3, 4] ∧ after.current = 3 ∧
    ((ready.thread 3).totalExec, (ready.thread 4).totalExec) = (2, 0) ∧
    ¬ DispatchesShortest ready after := by
  obtain ⟨k, reached, ready, schedules, after, switched, queue, current, lengths⟩ :=
    execute_holds .sjf (secondJobs ['a'] ['b']) (P := fun k =>
      ∃ ready ∈ schedulesFrom k (.semaDown 0), ∃ after ∈ (schedule ready).toOption,
        ready.readyList = [3, 4] ∧ after.current = 3 ∧
          ((ready.thread 3).totalExec, (ready.thread 4).totalExec) = (2, 0)) (by decide +kernel)
  refine ⟨k, ready, after, reached, schedulesFrom_eq_some schedules, toOption_eq_some switched,
    queue, current, lengths, fun shortest => ?_⟩
  obtain ⟨long, short⟩ := Prod.mk.injEq .. ▸ lengths
  have worse := shortest (by simp [queue]) 4 (by simp [queue])
  rw [current, long, short] at worse
  omega

end
end Calendarizador.Guarantees
