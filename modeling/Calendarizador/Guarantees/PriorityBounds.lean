import Calendarizador.Invariant.MlfqsTick

/-!
# Priorities and their history under the multilevel queues

`refresh_priority_thread` clamps what it stores in `priority` and appends the unclamped
value to `prio`, an array of ten entries, at the index `pos`. Every write to the array records
its index, and a thread keeps the record as long as it has its page.
-/
namespace Calendarizador.Guarantees
open Foundation Source List
variable {k : Kernel}

/-- What the bounds are about. -/
def ranks (t : Thread) : Int × Nat × History := (t.priority, t.pos, t.prio)

/-- A history that ends inside the array and was written inside it only. -/
structure HistoryOk (t : Thread) : Prop where
  pos : t.pos ≤ 10
  written : ∀ i ∈ t.prio.written, i < 10

structure InBounds (t : Thread) : Prop extends HistoryOk t where
  priority : priMin ≤ t.priority ∧ t.priority ≤ priMax

/-- From `k` to `after` no recorded write is lost, except that a free page may have got a new
thread. -/
def RecordKept (k after : Kernel) : Prop := ∀ p,
  (k.thread p).prio.written <:+ (after.thread p).prio.written ∨ k.allocated p = false

theorem clampPriority_range (pri : Int) :
    priMin ≤ clampPriority pri ∧ clampPriority pri ≤ priMax := by
  unfold clampPriority priMin priMax
  split
  · omega
  · split <;> omega

/-- One call of `refresh_priority_thread`. -/
theorem HistoryOk.refresh {t : Thread} (ok : HistoryOk t) : HistoryOk t.refreshPriority ∧
    t.prio.written <:+ t.refreshPriority.prio.written := by
  have pos := ok.pos
  unfold Thread.refreshPriority
  dsimp only [Thread.setPrio]
  by_cases room : t.pos ≠ 10
  · rw [if_pos room, if_pos room, History.write_written]
    exact ⟨⟨by dsimp only; omega, forall_mem_cons.mpr ⟨by omega, ok.written⟩⟩, suffix_cons _ _⟩
  · rw [if_neg room, if_neg room]
    exact ⟨⟨pos, ok.written⟩, suffix_rfl⟩

/-- `refresh_priority` from a state whose priorities are in range, except perhaps that of
the running thread: it is recomputed in any case. -/
theorem refreshPriority_recorded
    (range : ∀ p, p ≠ k.current → priMin ≤ (k.thread p).priority ∧ (k.thread p).priority ≤ priMax)
    (ok : ∀ p, HistoryOk (k.thread p)) : (∀ p, InBounds ((refreshPriority k).thread p)) ∧
      RecordKept k (refreshPriority k) := by
  have history : ∀ p, HistoryOk ((refreshPriority k).thread p) ∧
      (k.thread p).prio.written <:+ ((refreshPriority k).thread p).prio.written := by
    refine refreshPriority_invariant (P := fun s => ∀ p, HistoryOk (s.thread p) ∧
      (k.thread p).prio.written <:+ (s.thread p).prio.written)
      (fun p => ⟨ok p, suffix_rfl⟩) fun s t before p => ?_
    by_cases here : p = t
    · subst here
      obtain ⟨inside, longer⟩ := (before p).1.refresh
      simpa [refreshPriorityThread] using And.intro inside ((before p).2.trans longer)
    · simpa [refreshPriorityThread, here] using before p
  refine ⟨fun p => ⟨(history p).1, ?_⟩, fun p => .inl (history p).2⟩
  rw [refreshPriority_priority]
  split
  · exact clampPriority_range _
  · rename_i other
    exact range p fun here => other (.inl here)

section
variable {k middle after : Kernel}

theorem inBounds_of_keeps (kept : Kernel.Keeps ranks k after)
    (bounds : ∀ p, InBounds (k.thread p)) (p : Page) : InBounds (after.thread p) := by
  have same := kept p
  simp only [ranks, Prod.mk.injEq] at same
  obtain ⟨priority, pos, prio⟩ := same
  exact ⟨⟨pos ▸ (bounds p).pos, prio ▸ (bounds p).written⟩, priority ▸ (bounds p).priority⟩

theorem RecordKept.of_keeps (kept : Kernel.Keeps ranks k after) : RecordKept k after := fun p =>
  .inl (congrArg (fun s : Int × Nat × History => s.2.2.written) (kept p) ▸ suffix_rfl)

/-- Steps that leave the ranks alone may come before and after a write. -/
theorem RecordKept.congr {first last : Kernel} (h : RecordKept first last)
    (before : Kernel.Keeps ranks k first) (later : Kernel.Keeps ranks last after)
    (same : first.allocated = k.allocated) : RecordKept k after := by
  intro p
  have old : (first.thread p).prio = (k.thread p).prio := congrArg (fun s => s.2.2) (before p)
  have new : (after.thread p).prio = (last.thread p).prio := congrArg (fun s => s.2.2) (later p)
  rw [new, ← old, ← same]
  exact h p

theorem refreshAverages_ranks (taken : refreshAverages k = .ok after) :
    Kernel.Keeps ranks k after := by
  unfold refreshAverages at taken
  split at taken
  · refine foldlM_invariant (P := fun s => Kernel.Keeps ranks k s) k.allList ?_
      (s := refreshLoadAvg k) (fun _ => rfl) taken
    intro s t next _ before stored
    unfold refreshCpu at stored
    split at stored
    · cases stored
      exact before
    · split at stored
      · cases stored
      · cases stored
        exact before.trans (Kernel.keeps_upd _ s t _ fun _ => rfl)
  · cases taken
    exact fun _ => rfl

theorem mlfqsTick_recorded (bounds : ∀ p, InBounds (k.thread p)) (taken : mlfqsTick k = .ok after) :
    (∀ p, InBounds (after.thread p)) ∧ RecordKept k after := by
  unfold mlfqsTick at taken
  split at taken
  · cases taken
    exact ⟨bounds, .of_keeps fun _ => rfl⟩
  · obtain ⟨averaged, refreshed, ⟨⟩⟩ := bind_eq_ok.mp taken
    have kept : Kernel.Keeps ranks k (chargeRunning averaged) :=
      (refreshAverages_ranks refreshed).trans (Kernel.keeps_upd _ _ _ _ fun _ => rfl)
    have charged := inBounds_of_keeps kept bounds
    -- the decision to yield changes no thread
    by_cases fourth : (chargeRunning averaged).ticks % (timerFreq * 4) = 0
    · rw [recalculatePriorities, if_pos fourth]
      obtain ⟨inside, recorded⟩ := refreshPriority_recorded (fun p _ => (charged p).priority)
        fun p => (charged p).toHistoryOk
      exact ⟨inside, recorded.congr kept (fun _ => rfl)
        (refreshAverages_accounting refreshed).allocated⟩
    · rw [recalculatePriorities, if_neg fourth]
      exact ⟨charged, .of_keeps kept⟩

theorem intrHandler_recorded (mode : k.mode = .mlfqs) (bounds : ∀ p, InBounds (k.thread p))
    {outcome : Outcome} (taken : intrHandler k = .ok outcome) :
    (∀ p, InBounds (outcome.kernel.thread p)) ∧ RecordKept k outcome.kernel := by
  obtain ⟨handled, interrupted, ⟨⟩⟩ := bind_eq_ok.mp taken
  obtain ⟨ticked, counted, woke⟩ := bind_eq_ok.mp interrupted
  replace counted : threadTick (atTick k) = .ok ticked := counted
  have mode' : (atTick k).mode = .mlfqs := mode
  rw [threadTick, mode'] at counted
  obtain ⟨inside, recorded⟩ := mlfqsTick_recorded (k := countTick (atTick k)) bounds counted
  have woken : Kernel.Keeps ranks ticked handled :=
    (wakeSleepers_keeps _ {} _ woke).1
  have finished : Kernel.Keeps ranks ticked
      (if handled.yieldOnReturn = true then threadYield handled else .returns handled).kernel := by
    split
    · exact woken.trans (threadYield_keeps _ {} handled)
    · exact woken
  exact ⟨inBounds_of_keeps finished inside, recorded.congr (fun _ => rfl) finished rfl⟩

/-- The history of a new thread holds one entry at most. -/
theorem setFirstPrio_history {name : Name} {priority : Int} {t : Thread} (new : t.pos = 0)
    (none : t.prio.written = []) : HistoryOk (t.setFirstPrio name priority) := by
  refine ⟨new.le.trans (Nat.zero_le 10), ?_⟩
  rw [Thread.setFirstPrio_prio]
  split <;> simp [new, none]

/-- A new thread: its priority was checked. -/
theorem threadAllocate_recorded {p : Page} {name : Name} {priority : Int}
    (bounds : ∀ p, InBounds (k.thread p)) (taken : threadAllocate k p name priority = .ok after) :
    (∀ q, InBounds (after.thread q)) ∧ RecordKept k after := by
  obtain ⟨free, low, high, created⟩ := threadAllocate_effects taken
  refine ⟨fun q => ?_, fun q => ?_⟩ <;> rw [created.thread] <;> split
  · exact ⟨setFirstPrio_history rfl rfl, low, high⟩
  · exact bounds q
  · rename_i here
    exact .inr (by simpa [here] using free)
  · exact .inl suffix_rfl

/-- What the body of an event does to priorities and histories. -/
theorem opBody_recorded (mode : k.mode = .mlfqs) (bounds : ∀ p, InBounds (k.thread p)) {e : Event}
    {outcome : Outcome} (taken : opBody k e = .ok outcome) :
    (∀ p, InBounds (outcome.kernel.thread p)) ∧ RecordKept k outcome.kernel := by
  have same (kept : Kernel.Keeps ranks k outcome.kernel) :
      (∀ p, InBounds (outcome.kernel.thread p)) ∧ RecordKept k outcome.kernel :=
    ⟨inBounds_of_keeps kept bounds, .of_keeps kept⟩
  have code : ∀ (s : Kernel) (p : Page) (c : Code), Kernel.Keeps ranks s (s.setCode p c) :=
    fun s p c => Kernel.keeps_upd _ s p _ fun _ => rfl
  have unblocked : ∀ {s woken : Kernel} {t : Page}, threadUnblock s t = .ok woken →
      Kernel.Keeps ranks s woken :=
    fun unblocks => (threadUnblock_effects unblocks).keeps _ (fun _ _ => rfl) fun _ _ => rfl
  cases opBody_performs taken with
  | @startIdle p _ _ allocates unblocks =>
    obtain ⟨inside, recorded⟩ := threadAllocate_recorded
      (inBounds_of_keeps (code k k.current .startWait) bounds) allocates
    have later := (unblocked unblocks).trans (code _ p .idleEntry)
    exact ⟨inBounds_of_keeps later inside, recorded.congr (code k _ _) later rfl⟩
  | create allocates => exact threadAllocate_recorded bounds allocates
  | exitFinish place exits =>
    obtain ⟨learned, total, learning, rfl⟩ := threadExit_effects exits
    rw [learnAtExit, mode] at learning
    cases learning
    exact same (Kernel.keeps_upd _ k k.current (Thread.setStatus .dying) fun _ => rfl)
  | setPriority priority =>
    rw [threadSetPriority, if_pos ((Kernel.upd_mode _ _ _).trans mode)]
    obtain ⟨inside, recorded⟩ := refreshPriority_recorded
      (k := k.upd k.current (Thread.setPriority (i32 priority)))
      (fun p other => by
        have elsewhere : p ≠ k.current := other
        simpa [elsewhere] using (bounds p).priority)
      (fun p => by
        have kept := Kernel.keeps_upd (fun t => (t.pos, t.prio)) k k.current
          (Thread.setPriority (i32 priority)) (fun _ => rfl) p
        obtain ⟨pos, prio⟩ := Prod.mk.inj kept
        exact ⟨pos ▸ (bounds p).pos, prio ▸ (bounds p).written⟩)
    have history := Kernel.keeps_upd Thread.prio k k.current
      (Thread.setPriority (i32 priority)) fun _ => rfl
    refine ⟨inside, fun p => ?_⟩
    rw [← history p]
    exact recorded p
  | setNice nice =>
    rw [threadSetNice, if_pos ((Kernel.upd_mode _ _ _).trans mode)]
    have kept : Kernel.Keeps ranks k (k.upd k.current (Thread.setNice (i32 nice))) :=
      Kernel.keeps_upd _ k _ _ fun _ => rfl
    have stored := inBounds_of_keeps kept bounds
    obtain ⟨inside, recorded⟩ := refreshPriority_recorded (fun p _ => (stored p).priority)
      fun p => (stored p).toHistoryOk
    exact ⟨inside, recorded.congr kept (fun _ => rfl) rfl⟩
  | timer handles => exact intrHandler_recorded mode bounds handles
  | _ => exact same (opBody_keeps ranks {} (fun _ _ => rfl) rfl taken)

theorem step_recorded (mode : k.mode = .mlfqs) (bounds : ∀ p, InBounds (k.thread p)) {e : Event}
    (taken : step k e = .ok after) :
    (∀ p, InBounds (after.thread p)) ∧ RecordKept k after := by
  obtain ⟨_, body | ⟨ready, body, switched⟩⟩ := step_effects taken
  · exact opBody_recorded mode bounds body
  · obtain ⟨_, next, rest, _, rfl⟩ := schedule_effects switched
    obtain ⟨inside, recorded⟩ := opBody_recorded mode bounds body
    have kept : Kernel.Keeps ranks ready (dispatch { ready with readyList := rest } next) :=
      dispatch_keeps _ _ _ {}
    exact ⟨inBounds_of_keeps kept inside, recorded.congr (fun _ => rfl) kept rfl⟩

end

theorem threadInit_inBounds {mode : Mode} {values : Nat → Nat} {k : Kernel}
    (booted : threadInit mode values = .ok k) (p : Page) : InBounds (k.thread p) := by
  obtain ⟨made, created, ⟨⟩⟩ := bind_eq_ok.mp booted
  obtain ⟨low, high, fields⟩ := initThread_effects created
  have zero : InBounds Thread.zero := ⟨⟨Nat.zero_le 10, by simp [Thread.zero]⟩, by decide⟩
  have inside : ∀ q, InBounds (made.thread q) := by
    intro q
    rw [fields.thread]
    split
    · exact ⟨setFirstPrio_history rfl rfl, low, high⟩
    · exact zero
  refine inBounds_of_keeps ?_ inside p
  exact Kernel.keeps_upd ranks made 0 _ fun _ => rfl

theorem reachable_inBounds (h : Reachable (kernelSystem .mlfqs) k) :
    ∀ p, InBounds (k.thread p) := by
  refine h.invariant (P := fun k => ∀ p, InBounds (k.thread p)) ?_ ?_
  · rintro k ⟨values, booted⟩
    exact threadInit_inBounds booted
  · intro k e after reached bounds taken
    exact (step_recorded (reachable_mode reached) bounds taken).1

/-- In every state of every run all priorities are in range, all histories end inside the
array, and no write went past its end. A step forgets no write of a thread that has its page. -/
theorem priority_history_bounds (k : Kernel) (h : Reachable (kernelSystem .mlfqs) k) :
    (∀ p, priMin ≤ (k.thread p).priority ∧ (k.thread p).priority ≤ priMax ∧
      (k.thread p).pos ≤ 10 ∧ ∀ i ∈ (k.thread p).prio.written, i < 10) ∧
    ∀ e after, step k e = .ok after → RecordKept k after := by
  have bounds := reachable_inBounds h
  refine ⟨fun p => ?_, fun e after taken => ?_⟩
  · exact ⟨(bounds p).priority.1, (bounds p).priority.2, (bounds p).pos, (bounds p).written⟩
  · exact (step_recorded (reachable_mode h) bounds taken).2

/-- `main` asks for priorities far out of range; its history fills up and stays full. -/
theorem priority_history_bounds_main : ∃ k : Kernel, (k.thread 0).priority = 63 ∧
    (k.thread 0).pos = 10 ∧ (k.thread 0).prio.written = [9, 8, 7, 6, 5, 4, 3, 2, 1, 0, 0] ∧
    ∀ i ∈ (k.thread 0).prio.written, i < 10 := by
  obtain ⟨k, reached, priority, pos, written⟩ := execute_holds .mlfqs
    (threadStart ++ [.create (some 2) ['a'] 31, .unblock 2] ++
      List.replicate 10 (.setPriority 2147483647) ++ [.setNice (-1000)])
    (P := fun k => (k.thread 0).priority = 63 ∧ (k.thread 0).pos = 10 ∧
      (k.thread 0).prio.written = [9, 8, 7, 6, 5, 4, 3, 2, 1, 0, 0]) (by decide +kernel)
  exact ⟨k, priority, pos, written, ((priority_history_bounds k reached).1 0).2.2.2⟩

end Calendarizador.Guarantees
