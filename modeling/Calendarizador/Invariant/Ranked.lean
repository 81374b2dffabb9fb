import Calendarizador.Invariant.Arrivals

/-!
# Runs that keep the ready list in order of priority

`thread_unblock`, `thread_yield` and the wake-ups of the timer append to the ready list
whatever the priority, and `thread_set_priority` and `thread_set_nice` recompute the
priorities of ready threads without sorting. `InOrder` asks of one step that this does no
harm; a run of such steps keeps the list ranked, so that its front is always best.
-/
namespace Calendarizador.Source
open Foundation List

/-- Nobody stands behind a thread of lower priority. -/
def Ranked (rank : Page → Int) (list : List Page) : Prop :=
  list.Pairwise fun a b => rank b ≤ rank a

def Kernel.priority (k : Kernel) (p : Page) : Int := (k.thread p).priority

/-- The priority a ready thread gets when the running thread changes its own settings. -/
def recalculated (k : Kernel) (p : Page) : Int :=
  if p = k.initialThread then k.priority p
  else clampPriority (rawPriority (k.thread p).recentCpu (k.thread p).nice)

/-- `t` is no better than anybody on the ready list. -/
def Last (k : Kernel) (t : Page) : Prop := ∀ p ∈ k.readyList, k.priority t ≤ k.priority p

/-- What the event appends to the ready list is no better than what is there, and no
recalculation outside the tick changes the order. -/
def InOrder (k : Kernel) : Event → Prop
  | .startIdle _ => ∀ p ∈ k.readyList, priMin ≤ k.priority p
  | .unblock t => Last k t
  | .semaUp n => ∀ t ∈ (k.sema (.user n)).waiters.head?, Last k t
  | .idleUp => ∀ t ∈ (k.sema .idleStarted).waiters.head?, Last k t
  | .yield => k.idleThread ≠ some k.current → Last k k.current
  | .setPriority _ | .setNice _ => Ranked (recalculated k) k.readyList
  | .timer =>
    let rank := priorityAfterTick (atTick k)
    let due := dueSleepers (atTick k)
    Ranked rank due ∧ (∀ t ∈ due, ∀ p ∈ k.readyList, rank t ≤ rank p) ∧
      (AsksYield (atTick k) → ∀ t ∈ requeued k, ∀ p ∈ k.readyList ++ due, rank t ≤ rank p)
  | _ => True

instance (rank : Page → Int) (list : List Page) : Decidable (Ranked rank list) :=
  inferInstanceAs (Decidable (list.Pairwise _))

instance (k : Kernel) (t : Page) : Decidable (Last k t) :=
  inferInstanceAs (Decidable (∀ _ ∈ _, _))

instance (k : Kernel) (e : Event) : Decidable (InOrder k e) := by
  apply @Event.casesOn _ e <;> intros <;> dsimp only [InOrder] <;> infer_instance

section
variable {f g : Page → Int} {list : List Page} {t : Page}

theorem Ranked.congr (h : Ranked f list) (same : ∀ p ∈ list, g p = f p) : Ranked g list := by
  refine List.Pairwise.imp_of_mem ?_ h
  intro a b memberA memberB order
  rwa [same a memberA, same b memberB]

theorem Ranked.append {more : List Page} (h : Ranked f list) (ranked : Ranked f more)
    (last : ∀ t ∈ more, ∀ p ∈ list, f t ≤ f p) : Ranked f (list ++ more) :=
  pairwise_append.mpr ⟨h, ranked, fun p member t added => last t added p member⟩

theorem Ranked.append_one (h : Ranked f list) (last : ∀ p ∈ list, f t ≤ f p) :
    Ranked f (list ++ [t]) := by
  refine h.append (pairwise_singleton _ t) fun s member => ?_
  rw [mem_singleton.mp member]
  exact last

end

section
variable {k after : Kernel}

/-- A thread was appended and no priority changed. -/
theorem Ranked.appended {t : Page} (h : Ranked k.priority k.readyList) (last : Last k t)
    (ready : after.readyList = k.readyList ++ [t])
    (kept : ∀ p, after.priority p = k.priority p) : Ranked after.priority after.readyList := by
  rw [ready]
  exact (h.append_one last).congr fun p _ => kept p

theorem Ranked.keep (h : Ranked k.priority k.readyList) (ready : after.readyList = k.readyList)
    (kept : ∀ p ∈ k.readyList, after.priority p = k.priority p) :
    Ranked after.priority after.readyList := by
  rw [ready]
  exact h.congr kept

theorem upd_priority (p : Page) (change : Thread → Thread)
    (ignores : ∀ t, (change t).priority = t.priority) (q : Page) :
    (k.upd p change).priority q = k.priority q :=
  Kernel.keeps_upd (fun t => t.priority) k p change ignores q

theorem requeued_ranked (k : Kernel) : Ranked f (requeued k) := by
  unfold requeued
  split
  · exact pairwise_singleton _ _
  · exact List.Pairwise.nil

/-- A plain event appends one thread at most. -/
theorem enqueues_ranked {e : Event} (plain : e.plain = true) : Ranked f (enqueues k e) := by
  cases e with
  | startIdle | timer => cases plain
  | unblock t => exact pairwise_singleton _ _
  | semaUp | idleUp =>
    unfold enqueues
    cases List.head? _ <;> simp [Ranked]
  | yield => exact requeued_ranked k
  | _ => exact List.Pairwise.nil

theorem InOrder.last {e : Event} (order : InOrder k e) (plain : e.plain = true) {t : Page}
    (added : t ∈ enqueues k e) : Last k t := by
  cases e with
  | startIdle | timer => cases plain
  | unblock =>
    rw [mem_singleton.mp added]
    exact order
  | semaUp | idleUp => exact order t (Option.mem_toList.mp added)
  | yield =>
    change t ∈ requeued k at added
    unfold requeued at added
    split at added
    · rename_i idle
      rw [mem_singleton.mp added]
      exact order idle
    · cases added
  | _ => cases added

/-- A new thread is not on the ready list. -/
theorem Ranked.allocates (used : ∀ p ∈ k.readyList, k.allocated p = true)
    (h : Ranked k.priority k.readyList) {t : Page} {name : Name} {priority : Int}
    (created : threadAllocate k t name priority = .ok after) :
    Ranked after.priority after.readyList ∧ after.readyList = k.readyList ∧
      after.priority t = priority ∧ ∀ p ∈ k.readyList, after.priority p = k.priority p := by
  obtain ⟨free, _, _, effects⟩ := threadAllocate_effects created
  have others : ∀ p ∈ k.readyList, after.priority p = k.priority p := by
    intro p member
    have other : p ≠ t := by
      rintro rfl
      exact free (used p member)
    rw [Kernel.priority, effects.thread, if_neg other]
    rfl
  refine ⟨h.keep effects.ready others, effects.ready, ?_, others⟩
  rw [Kernel.priority, effects.thread, if_pos rfl]
  rfl

/-- The running thread changes its settings: ready threads other than `initial_thread`
are recalculated. -/
theorem Ranked.recalculates (h : Ranked (recalculated k) k.readyList) (inv : Inv k)
    (mode : k.mode = .mlfqs) (change : Thread → Thread) :
    let set := k.upd k.current change
    let after := if set.mode = .mlfqs then refreshPriority set else set
    Ranked after.priority after.readyList := by
  dsimp only
  rw [if_pos (show (k.upd k.current change).mode = .mlfqs from mode)]
  have list : (refreshPriority (k.upd k.current change)).readyList = k.readyList := by
    rw [refreshPriority_eq]
    rfl
  rw [list]
  refine h.congr fun p member => ?_
  have other : p ≠ k.current := by
    rintro rfl
    have ready := ((inv.core.threads k.current).ready.mp member).2.1
    rw [inv.running] at ready
    cases ready
  rw [Kernel.priority, refreshPriority_priority, recalculated]
  by_cases initial : p = k.initialThread
  · simp [initial, Kernel.priority, initial ▸ other]
  · simp [initial, other, member]

/-- The timer interrupt: the list is as it was or newly sorted, and sleepers and the
preempted thread go to its end. -/
theorem Ranked.interrupts (h : Ranked k.priority k.readyList) (inv : Inv k) (mode : k.mode = .mlfqs)
    (order : InOrder k .timer) {outcome : Outcome} (taken : intrHandler k = .ok outcome) :
    Ranked outcome.kernel.priority outcome.kernel.readyList := by
  obtain ⟨dueRanked, dueLast, preempted⟩ := order
  obtain ⟨ticked, counted, values, _, kept, queue⟩ := intrHandler_ticked inv mode taken
  have priorities : ∀ p, outcome.kernel.priority p = priorityAfterTick (atTick k) p :=
    fun p => (congrArg (fun s => s.2.2) (kept p)).trans (values.priority p)
  have listed : ∀ p, p ∈ ticked.readyList ↔ p ∈ k.readyList :=
    fun p => (threadTick_accounting counted).ready.mem_iff
  have base : Ranked (priorityAfterTick (atTick k)) ticked.readyList := by
    rcases values.queue with sorted | ⟨_, other, same⟩
    · refine List.Pairwise.imp ?_ sorted
      intro a b behind
      simpa [priorityCmp, values.priority] using behind
    · rw [same]
      refine h.congr fun p _ => ?_
      exact if_neg fun refreshed => other refreshed.2.1
  have woken : Ranked (priorityAfterTick (atTick k))
      (ticked.readyList ++ dueSleepers (atTick k)) :=
    base.append dueRanked fun t due p member => dueLast t due p ((listed p).mp member)
  rcases queue with ⟨_, _, list⟩ | ⟨asks, _, list⟩
  · rw [list]
    exact woken.congr fun p _ => priorities p
  · rw [list]
    refine Ranked.congr (woken.append (requeued_ranked k) fun t added p member => ?_)
      fun p _ => priorities p
    refine preempted asks t added p ?_
    simpa only [mem_append, listed] using member

/-- Every event that is in order keeps the list ranked up to its `schedule` call. -/
theorem opBody_ranked (inv : Inv k) (mode : k.mode = .mlfqs) (h : Ranked k.priority k.readyList)
    {e : Event} (order : InOrder k e) {outcome : Outcome} (body : opBody k e = .ok outcome) :
    Ranked outcome.kernel.priority outcome.kernel.readyList := by
  have used : ∀ p ∈ k.readyList, k.allocated p = true :=
    fun p member => ((inv.core.threads p).ready.mp member).1.1
  cases opBody_performs body with
  | @startIdle t created unblocked allocates unblocks =>
    have begun : ∀ q, (k.setCode k.current .startWait).priority q = k.priority q :=
      upd_priority k.current (Thread.setCode .startWait) fun _ => rfl
    have ranked : Ranked (k.setCode k.current .startWait).priority k.readyList :=
      h.congr fun q _ => begun q
    obtain ⟨still, list, lowest, others⟩ :=
      Ranked.allocates (k := k.setCode k.current .startWait) used ranked allocates
    have effects := threadUnblock_effects unblocks
    refine still.appended (t := t) (fun q member => ?_) effects.ready fun q => ?_
    · rw [list] at member
      rw [lowest, others q member, begun]
      exact order q member
    · exact (upd_priority t (Thread.setCode .idleEntry) (fun _ => rfl) q).trans
        (effects.keeps (fun t => t.priority) (fun _ _ => rfl) (fun _ _ => rfl) q)
  | create allocates => exact (h.allocates used allocates).1
  | exitFinish exiting exits =>
    obtain ⟨learned, total, learning, rfl⟩ := threadExit_effects exits
    rw [learnAtExit, mode] at learning
    cases learning
    exact h.keep rfl fun p _ => upd_priority k.current (Thread.setStatus .dying) (fun _ => rfl) p
  | setPriority | setNice => exact Ranked.recalculates order inv mode _
  | timer handles => exact h.interrupts inv mode order handles
  | _ =>
    have kept := opBody_keeps (fun t => t.priority) {} (fun _ _ => rfl) rfl body
    rw [plain_enqueues rfl body]
    have longer := h.append (enqueues_ranked rfl) fun t added => order.last rfl added
    exact longer.congr fun p _ => kept p

/-- `schedule` removes at most the front of the list. -/
theorem Ranked.schedules (rank : Kernel → Page → Int)
    (kept : ∀ rest next p, rank (dispatch { k with readyList := rest } next) p = rank k p)
    (h : Ranked (rank k) k.readyList) (taken : schedule k = .ok after) :
    Ranked (rank after) after.readyList := by
  obtain ⟨_, next, rest, list, rfl⟩ := schedule_effects taken
  rw [dispatch_readyList]
  refine Ranked.congr ?_ fun p _ => kept rest next p
  rcases list with front | ⟨_, rfl, _⟩
  · rw [front] at h
    exact (pairwise_cons.mp h).2
  · exact List.Pairwise.nil

/-- A rank that `schedule` does not change orders the ready list along a whole run if every
operation keeps the order up to its `schedule` call. -/
theorem reachableWhile_ranked {mode : Mode} {allowed : Kernel → Event → Prop}
    (rank : Kernel → Page → Int)
    (kept : ∀ k rest next p, rank (dispatch { k with readyList := rest } next) p = rank k p)
    (calls : ∀ {k e outcome}, Reachable (kernelSystem mode) k → Ranked (rank k) k.readyList →
      allowed k e → e.enabled k = true → opBody k e = .ok outcome →
      Ranked (rank outcome.kernel) outcome.kernel.readyList)
    (h : ReachableWhile (kernelSystem mode) allowed k) :
    Reachable (kernelSystem mode) k ∧ Ranked (rank k) k.readyList := by
  refine h.invariant (P := fun k => Reachable (kernelSystem mode) k ∧
    Ranked (rank k) k.readyList) ?_ ?_
  · rintro s ⟨values, booted⟩
    refine ⟨.initial ⟨values, booted⟩, ?_⟩
    rw [(threadInit_booted booted).readyList]
    exact List.Pairwise.nil
  · rintro s e after ⟨reached, ranked⟩ order taken
    refine ⟨reached.step e taken, ?_⟩
    obtain ⟨enabled, body | ⟨ready, body, switched⟩⟩ := step_effects taken
    · exact calls reached ranked order enabled body
    · have before : Ranked (rank ready) ready.readyList := calls reached ranked order enabled body
      exact before.schedules rank (kept ready) switched

/-- A run whose steps are all in order keeps the ready list ranked. -/
theorem reachable_ranked (h : ReachableWhile (kernelSystem .mlfqs) InOrder k) :
    Reachable (kernelSystem .mlfqs) k ∧ Ranked k.priority k.readyList := by
  refine reachableWhile_ranked Kernel.priority (fun k rest next => ?_) ?_ h
  · exact dispatch_keeps { k with readyList := rest } next (fun t => t.priority) {}
  · intro k e outcome reached ranked order _ body
    exact opBody_ranked (reachable_inv reached) (reachable_mode reached) ranked order body

end
end Calendarizador.Source
