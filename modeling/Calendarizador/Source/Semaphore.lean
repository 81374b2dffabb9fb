import Calendarizador.Foundation.Transition
import Calendarizador.Source.Timer

/-!
# Effects of blocking and waking

What `thread_unblock`, `sema_down` and `sema_up` do to the state, field by field.
-/
namespace Calendarizador.Source
open Foundation
variable {k : Kernel} {s : SemaId}

/-- No thread is created, exits, falls asleep or is woken by the clock. -/
structure SameThreads (k after : Kernel) : Prop where
  mode : after.mode = k.mode
  allocated : after.allocated = k.allocated
  allList : after.allList = k.allList
  allAllList : after.allAllList = k.allAllList
  waitList : after.waitList = k.waitList
  current : after.current = k.current
  initialThread : after.initialThread = k.initialThread
  ticks : after.ticks = k.ticks
  loadAvg : after.loadAvg = k.loadAvg

theorem SameThreads.trans {middle after : Kernel} (first : SameThreads k middle)
    (second : SameThreads middle after) : SameThreads k after where
  mode := second.mode.trans first.mode
  allocated := second.allocated.trans first.allocated
  allList := second.allList.trans first.allList
  allAllList := second.allAllList.trans first.allAllList
  waitList := second.waitList.trans first.waitList
  current := second.current.trans first.current
  initialThread := second.initialThread.trans first.initialThread
  ticks := second.ticks.trans first.ticks
  loadAvg := second.loadAvg.trans first.loadAvg

/-- The data that no semaphore operation writes. -/
structure SameGlobals (k after : Kernel) : Prop extends SameThreads k after where
  idleThread : after.idleThread = k.idleThread
  threadTicks : after.threadTicks = k.threadTicks
  yieldOnReturn : after.yieldOnReturn = k.yieldOnReturn

theorem SameGlobals.trans {middle after : Kernel} (first : SameGlobals k middle)
    (second : SameGlobals middle after) : SameGlobals k after where
  toSameThreads := first.toSameThreads.trans second.toSameThreads
  idleThread := second.idleThread.trans first.idleThread
  threadTicks := second.threadTicks.trans first.threadTicks
  yieldOnReturn := second.yieldOnReturn.trans first.yieldOnReturn

theorem setSema_globals (k : Kernel) (s : SemaId) (v : Semaphore) :
    SameGlobals k (k.setSema s v) := by
  cases s <;> exact ⟨⟨rfl, rfl, rfl, rfl, rfl, rfl, rfl, rfl, rfl⟩, rfl, rfl, rfl⟩

theorem upd_globals (k : Kernel) (p : Page) (f : Thread → Thread) : SameGlobals k (k.upd p f) :=
  ⟨⟨rfl, rfl, rfl, rfl, rfl, rfl, rfl, rfl, rfl⟩, rfl, rfl, rfl⟩

/-- The state in which a down that finds no unit calls `schedule`. -/
def blockOn (k : Kernel) (s : SemaId) : Kernel :=
  ((k.setSema s { k.sema s with waiters := (k.sema s).waiters ++ [k.current] }).setCode
    k.current (.downing s)).setStatus k.current .blocked

theorem semaDown_zero (zero : (k.sema s).value = 0) : semaDown k s = .schedules (blockOn k s) := by
  simp only [semaDown, zero, if_true, threadBlock, blockOn]
  congr 2 <;> simp

theorem semaDown_pos (unit : (k.sema s).value ≠ 0) : semaDown k s = .returns ((k.setSema s
      { k.sema s with value := (k.sema s).value - 1 }).setCode k.current .user) := by
  simp only [semaDown, unit, if_false]
  congr 2
  simp

/-- A thread waits only while there is no unit. -/
theorem semaDown_schedules {ready : Kernel} (waits : semaDown k s = .schedules ready) :
    (k.sema s).value = 0 ∧ ready = blockOn k s := by
  by_cases zero : (k.sema s).value = 0
  · rw [semaDown_zero zero] at waits
    cases waits
    exact ⟨zero, rfl⟩
  · rw [semaDown_pos zero] at waits
    cases waits

section
variable (k : Kernel) (s : SemaId)

theorem blockOn_globals : SameGlobals k (blockOn k s) :=
  (setSema_globals k s _).trans ((upd_globals _ _ _).trans (upd_globals _ _ _))

@[simp] theorem blockOn_readyList : (blockOn k s).readyList = k.readyList := by simp [blockOn]

theorem blockOn_status (p : Page) :
    (blockOn k s).status p = if p = k.current then .blocked else k.status p := by
  by_cases here : p = k.current <;> simp [blockOn, here]

theorem blockOn_code (p : Page) :
    (blockOn k s).code p = if p = k.current then .downing s else k.code p := by
  by_cases here : p = k.current <;> simp [blockOn, here]

theorem blockOn_sema (x : SemaId) : (blockOn k s).sema x = if x = s then
      { k.sema s with waiters := (k.sema s).waiters ++ [k.current] } else k.sema x := by
  rw [blockOn, Kernel.setStatus_sema, Kernel.setCode_sema, Kernel.setSema_sema]

theorem blockOn_keeps {β : Type} (f : Thread → β) (lasting : Thread.Lasting f) :
    Kernel.Keeps f k (blockOn k s) := by
  intro p
  rw [blockOn, Kernel.setStatus, Kernel.keeps_upd f _ _ _ (lasting.status _), Kernel.setCode,
    Kernel.keeps_upd f _ _ _ (lasting.code _), Kernel.keeps_setSema k s _ f lasting.set]

end

section
variable (k : Kernel) (n : Int)

theorem enterWaitList_sema (x : SemaId) : (enterWaitList k n).sema x = k.sema x := by
  rw [← Kernel.upd_sema k k.current (Thread.setWakeupTime (i64 (k.ticks + n))) x rfl]
  cases x <;> rfl

theorem enterWaitList_keeps {β : Type} (f : Thread → β)
    (wakeup : ∀ w t, f (Thread.setWakeupTime w t) = f t) : Kernel.Keeps f k (enterWaitList k n) :=
  Kernel.keeps_upd f k k.current _ (wakeup _)

theorem enterWaitList_status (p : Page) : (enterWaitList k n).status p = k.status p :=
  enterWaitList_keeps k n (fun t => t.status) (fun _ _ => rfl) p

theorem enterWaitList_code (p : Page) : (enterWaitList k n).code p = k.code p :=
  enterWaitList_keeps k n (fun t => t.code) (fun _ _ => rfl) p

theorem enterWaitList_waitList : (enterWaitList k n).waitList = listInsertOrdered
    (wakeupCmp (k.upd k.current (Thread.setWakeupTime (i64 (k.ticks + n))))) k.current
    k.waitList := rfl

theorem enterWaitList_perm : (enterWaitList k n).waitList.Perm (k.current :: k.waitList) :=
  listInsertOrdered_perm _ _ _

end

/-- What an unblock of `t` does. -/
structure Unblocked (k : Kernel) (t : Page) (after : Kernel) : Prop where
  globals : SameGlobals k after
  blocked : k.status t = .blocked
  thread : ∃ w, ∀ p, after.thread p =
    if p = t then ((k.thread p).setRecentWait w).setStatus .ready else k.thread p
  ready : after.readyList = k.readyList ++ [t]
  idleStarted : after.idleStarted = k.idleStarted
  userSema : after.userSema = k.userSema

theorem threadUnblock_effects {k after : Kernel} {t : Page}
    (taken : threadUnblock k t = .ok after) : Unblocked k t after := by
  unfold threadUnblock at taken
  split at taken
  · rename_i blocked
    cases taken
    refine ⟨⟨⟨rfl, rfl, rfl, rfl, rfl, rfl, rfl, rfl, rfl⟩, rfl, rfl, rfl⟩, ?_,
      ⟨if k.idleThread ≠ some t ∧ t ≠ k.initialThread then i32 k.ticks
        else (k.thread t).recentWait, fun p => ?_⟩, rfl, rfl, rfl⟩
    · simpa [stampWait] using blocked
    · by_cases here : p = t
      · subst here
        simp only [stampWait, Kernel.setStatus, Kernel.upd_thread_self, if_true]
      · simp [stampWait, here]
  · cases taken

namespace Unblocked
variable {k after : Kernel} {t : Page}

theorem keeps (h : Unblocked k t after) {β : Type} (f : Thread → β)
    (stamp : ∀ w t, f (Thread.setRecentWait w t) = f t)
    (status : ∀ s t, f (Thread.setStatus s t) = f t) : Kernel.Keeps f k after := by
  intro p
  obtain ⟨w, thread⟩ := h.thread
  rw [thread]
  split
  · rw [status, stamp]
  · rfl

theorem status (h : Unblocked k t after) (p : Page) :
    after.status p = if p = t then .ready else k.status p := by
  obtain ⟨w, thread⟩ := h.thread
  rw [Kernel.status, thread]
  split <;> rfl

theorem code (h : Unblocked k t after) (p : Page) : after.code p = k.code p :=
  h.keeps (fun t => t.code) (fun _ _ => rfl) (fun _ _ => rfl) p

theorem sema (h : Unblocked k t after) (s : SemaId) : after.sema s = k.sema s := by
  cases s with
  | idleStarted => exact h.idleStarted
  | timer p => exact h.keeps (fun t => t.timerSema) (fun _ _ => rfl) (fun _ _ => rfl) p
  | user n => exact congrFun h.userSema n

end Unblocked

variable {k : Kernel} {s : SemaId}

/-- What an up of `s` that wakes `t` does. -/
structure Woken (k : Kernel) (s : SemaId) (t : Page) (after : Kernel) : Prop where
  globals : SameGlobals k after
  front : ∃ rest, (k.sema s).waiters = t :: rest
  blocked : k.status t = .blocked
  status : ∀ p, after.status p = if p = t then .ready else k.status p
  sema : ∀ x, after.sema x =
    if x = s then ⟨((k.sema s).value + 1) % 4294967296, (k.sema s).waiters.tail⟩ else k.sema x
  ready : after.readyList = k.readyList ++ [t]
  keeps : ∀ {β : Type} (f : Thread → β), (∀ w t, f (Thread.setRecentWait w t) = f t) →
    (∀ s t, f (Thread.setStatus s t) = f t) → (∀ v t, f (Thread.setSema v t) = f t) →
    Kernel.Keeps f k after

theorem Woken.code {after : Kernel} {t : Page} (h : Woken k s t after) (p : Page) :
    after.code p = k.code p :=
  h.keeps (fun t => t.code) (fun _ _ => rfl) (fun _ _ => rfl) (fun _ _ => rfl) p

/-- An up either finds nobody and adds a unit, or wakes the first waiter as well. -/
theorem semaUp_effects {after : Kernel} (taken : semaUp k s = .ok after) :
    ((k.sema s).waiters = [] ∧
      after = k.setSema s { k.sema s with value := ((k.sema s).value + 1) % 4294967296 }) ∨
    ∃ t, Woken k s t after := by
  unfold semaUp at taken
  rw [bind_eq_ok] at taken
  obtain ⟨woken, unblocked, added⟩ := taken
  cases added
  cases list : (k.sema s).waiters with
  | nil =>
    left
    simp only [wakeFirst, list] at unblocked
    cases unblocked
    exact ⟨rfl, rfl⟩
  | cons t rest =>
    right
    simp only [wakeFirst, list] at unblocked
    have effects := threadUnblock_effects unblocked
    have value : (woken.sema s) = ⟨(k.sema s).value, rest⟩ := by
      rw [effects.sema, Kernel.setSema_sema, if_pos rfl]
    refine ⟨t, ?_, ⟨rest, list⟩, ?_, ?_, ?_, ?_, ?_⟩
    · exact ((setSema_globals k s _).trans effects.globals).trans (setSema_globals woken s _)
    · simpa using effects.blocked
    · intro p
      have marked := effects.status p
      simpa using marked
    · intro x
      rw [Kernel.setSema_sema, value, list]
      split
      · rfl
      · rename_i other
        rw [effects.sema, Kernel.setSema_sema, if_neg other]
    · rw [Kernel.setSema_readyList, effects.ready, Kernel.setSema_readyList]
    · intro β f stamp status set p
      rw [Kernel.keeps_setSema woken s _ f set, effects.keeps f stamp status,
        Kernel.keeps_setSema k s _ f set]

theorem semaUp_keeps {after : Kernel} {β : Type} (f : Thread → β) (steady : Thread.Steady f)
    (taken : semaUp k s = .ok after) : Kernel.Keeps f k after := by
  rcases semaUp_effects taken with ⟨_, rfl⟩ | ⟨t, woken⟩
  · exact Kernel.keeps_setSema k s _ f steady.set
  · exact woken.keeps f steady.stamp steady.status steady.set

theorem semaUp_globals {after : Kernel} (taken : semaUp k s = .ok after) : SameGlobals k after := by
  rcases semaUp_effects taken with ⟨_, rfl⟩ | ⟨t, woken⟩
  · exact setSema_globals k s _
  · exact woken.globals

theorem threadUnblock_total {t : Page} (blocked : k.status t = .blocked) :
    ∃ after, threadUnblock k t = .ok after := by
  unfold threadUnblock
  rw [if_pos]
  · exact ⟨_, rfl⟩
  · simpa [stampWait] using blocked

/-- An up cannot fail while everybody on the list is blocked. -/
theorem semaUp_total (blocked : ∀ t ∈ (k.sema s).waiters, k.status t = .blocked) :
    ∃ after, semaUp k s = .ok after := by
  unfold semaUp wakeFirst
  cases list : (k.sema s).waiters with
  | nil => exact ⟨_, rfl⟩
  | cons t rest =>
    have front : (k.setSema s { k.sema s with waiters := rest }).status t = .blocked := by
      simpa using blocked t (by simp [list])
    obtain ⟨woken, unblocked⟩ := threadUnblock_total front
    exact ⟨_, bind_eq_ok.mpr ⟨woken, unblocked, rfl⟩⟩

end Calendarizador.Source
