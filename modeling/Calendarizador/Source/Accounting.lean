import Calendarizador.Source.Machine

/-!
# Accounting

Most of the work of a tick, and the learning in `thread_exit`, is bookkeeping: it writes
counters, averages, estimates and priorities and may reorder the ready list, but moves no
thread from one list to another and changes no status. `Accounting` says this once, and
each function that only does bookkeeping has one lemma here.
-/
namespace Calendarizador.Source
open Foundation

/-- A thread without its counters, estimate and priority. -/
def Thread.shape (t : Thread) : Thread :=
  { t with
    prio := ⟨[], []⟩, pos := 0, ticks := 0, currExec := 0, totalExec := 0
    priority := 0, nice := 0, recentCpu := 0 }

/-- `f` reads neither these nor what waking, preempting or ending a thread writes. -/
structure Thread.Settled {β : Type} (f : Thread → β) : Prop extends Thread.Steady f where
  shaped : ∀ t, f (Thread.shape t) = f t := by intros; rfl

/-- `after` differs from `k` in bookkeeping data only. -/
structure Accounting (k after : Kernel) : Prop where
  thread : Kernel.Keeps Thread.shape k after
  ready : after.readyList.Perm k.readyList
  /-- Under SJF a live thread may become the record of its name. -/
  records : ∀ p ∈ after.allAllList, p ∈ k.allAllList ∨ (p ∈ k.allList ∧ k.mode = .sjf)
  mode : after.mode = k.mode
  allocated : after.allocated = k.allocated
  allList : after.allList = k.allList
  waitList : after.waitList = k.waitList
  idleStarted : after.idleStarted = k.idleStarted
  userSema : after.userSema = k.userSema
  current : after.current = k.current
  idleThread : after.idleThread = k.idleThread
  initialThread : after.initialThread = k.initialThread
  ticks : after.ticks = k.ticks

namespace Accounting
variable {k middle after : Kernel}

theorem refl (k : Kernel) : Accounting k k where
  thread _ := rfl
  ready := .refl _
  records _ member := .inl member
  mode := rfl
  allocated := rfl
  allList := rfl
  waitList := rfl
  idleStarted := rfl
  userSema := rfl
  current := rfl
  idleThread := rfl
  initialThread := rfl
  ticks := rfl

theorem trans (first : Accounting k middle) (second : Accounting middle after) :
    Accounting k after where
  thread := first.thread.trans second.thread
  ready := second.ready.trans first.ready
  records p member := by
    rcases second.records p member with old | ⟨listed, sjf⟩
    · exact first.records p old
    · rw [first.allList] at listed
      rw [first.mode] at sjf
      exact .inr ⟨listed, sjf⟩
  mode := second.mode.trans first.mode
  allocated := second.allocated.trans first.allocated
  allList := second.allList.trans first.allList
  waitList := second.waitList.trans first.waitList
  idleStarted := second.idleStarted.trans first.idleStarted
  userSema := second.userSema.trans first.userSema
  current := second.current.trans first.current
  idleThread := second.idleThread.trans first.idleThread
  initialThread := second.initialThread.trans first.initialThread
  ticks := second.ticks.trans first.ticks

theorem upd (k : Kernel) (p : Page) (g : Thread → Thread)
    (ignores : ∀ t, (g t).shape = t.shape) : Accounting k (k.upd p g) :=
  { refl k with thread := Kernel.keeps_upd Thread.shape k p g ignores }

theorem sort (k : Kernel) (less : Page → Page → Bool) :
    Accounting k { k with readyList := listSort less k.readyList } :=
  { refl k with ready := listSort_perm less k.readyList }

/-- Anything that can be read off the shape of a thread is unchanged. -/
theorem keeps (h : Accounting k after) {β : Type} (f : Thread → β)
    (shaped : ∀ t, f t.shape = f t) : Kernel.Keeps f k after := by
  intro p
  rw [← shaped, ← shaped (k.thread p), h.thread p]

theorem status (h : Accounting k after) (p : Page) : after.status p = k.status p :=
  h.keeps (fun t => t.status) (fun _ => rfl) p

theorem code (h : Accounting k after) (p : Page) : after.code p = k.code p :=
  h.keeps (fun t => t.code) (fun _ => rfl) p

theorem sema (h : Accounting k after) (s : SemaId) : after.sema s = k.sema s := by
  cases s with
  | idleStarted => exact h.idleStarted
  | timer p => exact h.keeps (fun t => t.timerSema) (fun _ => rfl) p
  | user n => exact congrFun h.userSema n

theorem live (h : Accounting k after) (p : Page) : after.Live p ↔ k.Live p := by
  rw [Kernel.Live, Kernel.Live, h.status, h.allocated]

end Accounting

variable {k after : Kernel}

theorem storeTotalExec_accounting (k : Kernel) (t : Page) (listed : t ∈ k.allList)
    (sjf : k.mode = .sjf) : Accounting k (storeTotalExec k t) := by
  refine Accounting.trans ?_ (Accounting.upd (getTotalExec k t).2 t _ fun _ => rfl)
  rw [getTotalExec_snd]
  refine { Accounting.refl k with records := fun p member => ?_ }
  split at member
  · rcases List.mem_append.mp member with old | new
    · exact .inl old
    · rw [List.mem_singleton] at new
      exact .inr ⟨new ▸ listed, sjf⟩
  · exact .inl member

theorem learnBurst_accounting (sjf : k.mode = .sjf) (learned : learnBurst k = .ok after) :
    Accounting k after := by
  refine foldlM_invariant (P := Accounting k) _ ?_
    (show Accounting k (calcNewTotalExec k _ _) from Accounting.upd k _ _ fun _ => rfl) learned
  intro s t next member before stored
  cases stored
  have listed : t ∈ s.allList := before.allList.symm ▸ member
  exact before.trans (storeTotalExec_accounting s t listed (before.mode.trans sjf))

theorem learnAtExit_accounting (learned : learnAtExit k = .ok after) : Accounting k after := by
  unfold learnAtExit at learned
  split at learned
  · rename_i sjf
    rw [map_eq_ok] at learned
    obtain ⟨estimated, burst, rfl⟩ := learned
    exact (learnBurst_accounting sjf burst).trans (Accounting.sort _ _)
  · cases learned
    exact Accounting.refl k

theorem recordWait_effects {rep : Int} (recorded : recordWait k rep = .ok after) :
    ∃ total, after = { k with totalWaitTime := total } := by
  unfold recordWait at recorded
  split at recorded
  · rw [map_eq_ok] at recorded
    obtain ⟨waited, _, rfl⟩ := recorded
    exact ⟨_, rfl⟩
  · cases recorded
    exact ⟨_, rfl⟩

/-- `thread_exit` learns, counts the wait, leaves `all_list` and changes its status. -/
theorem threadExit_effects {rep : Int} {outcome : Outcome}
    (taken : threadExit k rep = .ok outcome) :
    ∃ learned total, learnAtExit k = .ok learned ∧ outcome = .schedules
      ({ learned with
        totalWaitTime := total
        allList := learned.allList.erase learned.current }.setStatus learned.current .dying) := by
  unfold threadExit at taken
  rw [bind_eq_ok] at taken
  obtain ⟨learned, learning, taken⟩ := taken
  rw [bind_eq_ok] at taken
  obtain ⟨recorded, recording, ⟨⟩⟩ := taken
  obtain ⟨total, rfl⟩ := recordWait_effects recording
  exact ⟨learned, total, learning, rfl⟩

theorem refreshCpu_accounting {t : Page} (refreshed : refreshCpu k t = .ok after) :
    Accounting k after := by
  unfold refreshCpu at refreshed
  split at refreshed
  · cases refreshed
    exact Accounting.refl k
  · split at refreshed
    · cases refreshed
    · cases refreshed
      exact Accounting.upd k t _ fun _ => rfl

theorem refreshAverages_accounting (refreshed : refreshAverages k = .ok after) :
    Accounting k after := by
  unfold refreshAverages at refreshed
  split at refreshed
  · refine foldlM_invariant (P := Accounting k) _ ?_
      (show Accounting k (refreshLoadAvg k) from { Accounting.refl k with }) refreshed
    intro s t next _ before stored
    exact before.trans (refreshCpu_accounting stored)
  · cases refreshed
    exact Accounting.refl k

theorem refreshPriorityThread_accounting (k : Kernel) (t : Page) :
    Accounting k (refreshPriorityThread k t) := Accounting.upd k t _ fun _ => rfl

/-- What a new priority of any thread keeps. -/
theorem refreshPriority_invariant {P : Kernel → Prop} (start : P k)
    (round : ∀ s t, P s → P (refreshPriorityThread s t)) : P (refreshPriority k) := by
  refine round _ _ (List.foldlRecOn _ _ start fun s before t _ => ?_)
  split
  · exact round s t before
  · exact before

theorem refreshPriority_accounting (k : Kernel) : Accounting k (refreshPriority k) :=
  refreshPriority_invariant (Accounting.refl k) fun s t before =>
    before.trans (refreshPriorityThread_accounting s t)

theorem recalculatePriorities_accounting (k : Kernel) : Accounting k (recalculatePriorities k) := by
  unfold recalculatePriorities
  split
  · exact (refreshPriority_accounting k).trans (Accounting.sort _ _)
  · exact Accounting.refl k

theorem decideYield_accounting (k : Kernel) (next : Page) : Accounting k (decideYield k next) := by
  refine { Accounting.refl k with ready := ?_ }
  simp only [decideYield]
  split
  · exact listSort_perm _ _
  · exact .refl _

theorem mlfqsTick_accounting (ticked : mlfqsTick k = .ok after) : Accounting k after := by
  unfold mlfqsTick at ticked
  split at ticked
  · cases ticked
    exact Accounting.refl k
  · rw [bind_eq_ok] at ticked
    obtain ⟨averaged, refreshed, decided⟩ := ticked
    cases decided
    have charged : Accounting averaged (chargeRunning averaged) :=
      Accounting.upd averaged averaged.current _ fun _ => rfl
    exact (refreshAverages_accounting refreshed).trans
      (charged.trans ((recalculatePriorities_accounting _).trans (decideYield_accounting _ _)))

theorem roundRobinTick_accounting (k : Kernel) : Accounting k (roundRobinTick k) := by
  have charged : ∀ n, Accounting k (k.upd k.current (Thread.setTicks n)) :=
    fun n => Accounting.upd k k.current _ fun _ => rfl
  exact { charged _ with }

theorem threadTick_accounting (ticked : threadTick k = .ok after) : Accounting k after := by
  have counted : Accounting k (countTick k) := { Accounting.refl k with }
  refine counted.trans ?_
  unfold threadTick at ticked
  split at ticked
  · cases ticked
    exact Accounting.upd _ _ _ fun _ => rfl
  · cases ticked
    exact roundRobinTick_accounting _
  · exact mlfqsTick_accounting ticked
  · cases ticked
    exact Accounting.refl _

theorem threadSetPriority_accounting (k : Kernel) (priority : Int) :
    Accounting k (threadSetPriority k priority) := by
  unfold threadSetPriority
  refine Accounting.trans (Accounting.upd k k.current (Thread.setPriority (i32 priority))
    fun _ => rfl) ?_
  dsimp only
  split
  · exact refreshPriority_accounting _
  · exact Accounting.refl _

theorem threadSetNice_accounting (k : Kernel) (nice : Int) :
    Accounting k (threadSetNice k nice) := by
  unfold threadSetNice
  refine Accounting.trans (Accounting.upd k k.current (Thread.setNice (i32 nice))
    fun _ => rfl) ?_
  dsimp only
  split
  · exact refreshPriority_accounting _
  · exact Accounting.refl _

end Calendarizador.Source
