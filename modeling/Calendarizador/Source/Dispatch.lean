import Calendarizador.Source.Scheduler

/-!
# Effects of a dispatch

What `dispatch` changes: the running thread, the status, frame and counters of the
thread it puts on the CPU, the frame of the thread it takes off, and the page of a dead
thread. Every other part of the state is the same before and after.
-/
namespace Calendarizador.Source
open Foundation

section
variable (k : Kernel) (next : Page)

@[simp] theorem dispatch_current : (dispatch k next).current = next := by
  simp only [dispatch]
  split <;> rfl

@[simp] theorem dispatch_mode : (dispatch k next).mode = k.mode := by
  simp only [dispatch]
  split <;> rfl

@[simp] theorem dispatch_readyList : (dispatch k next).readyList = k.readyList := by
  simp only [dispatch]
  split <;> rfl

@[simp] theorem dispatch_allList : (dispatch k next).allList = k.allList := by
  simp only [dispatch]
  split <;> rfl

@[simp] theorem dispatch_allAllList : (dispatch k next).allAllList = k.allAllList := by
  simp only [dispatch]
  split <;> rfl

@[simp] theorem dispatch_waitList : (dispatch k next).waitList = k.waitList := by
  simp only [dispatch]
  split <;> rfl

@[simp] theorem dispatch_idleThread : (dispatch k next).idleThread = k.idleThread := by
  simp only [dispatch]
  split <;> rfl

@[simp] theorem dispatch_initialThread :
    (dispatch k next).initialThread = k.initialThread := by
  simp only [dispatch]
  split <;> rfl

@[simp] theorem dispatch_ticks : (dispatch k next).ticks = k.ticks := by
  simp only [dispatch]
  split <;> rfl

@[simp] theorem dispatch_loadAvg : (dispatch k next).loadAvg = k.loadAvg := by
  simp only [dispatch]
  split <;> rfl

theorem switchTo_thread (p : Page) : (switchTo k next).thread p =
      if p = next then (k.thread p).enterCpu
      else if p = k.current then (k.thread p).leaveCpu next else k.thread p := by
  have written : (switchTo k next).thread p = _ :=
    Kernel.upd_thread (k.upd k.current (Thread.leaveCpu next)) next p _
  rw [written, Kernel.upd_thread, Kernel.upd_thread]
  by_cases here : p = next
  · subst here
    by_cases running : p = k.current
    · subst running
      simp only [if_true]
      rfl
    · simp [running]
  · rw [if_neg here, if_neg here]
    split
    · rename_i running
      rw [running]
    · rfl

theorem threadScheduleTail_thread (s : Kernel) (prev : Option Page) (p : Page) :
    (threadScheduleTail s prev).thread p =
      if p = s.current then (s.thread p).beginSlice s.ticks else s.thread p := by
  have written : (threadScheduleTail s prev).thread p = _ := Kernel.upd_thread s s.current p _
  rw [written]
  split
  · rename_i here
    rw [here]
  · rfl

/-- Every thread after a dispatch. -/
theorem dispatch_thread (p : Page) : (dispatch k next).thread p =
      if p = next then
        if (resumedCall k next).isSome then
          ((k.thread p).enterCpu.beginSlice k.ticks).countRepeat
        else (k.thread p).enterCpu.beginSlice k.ticks
      else if p = k.current then (k.thread p).leaveCpu next
      else k.thread p := by
  have tail : ∀ prev, (threadScheduleTail (switchTo k next) prev).thread p =
      if p = next then (k.thread p).enterCpu.beginSlice k.ticks
      else if p = k.current then (k.thread p).leaveCpu next else k.thread p := by
    intro prev
    have now : (switchTo k next).current = next := rfl
    have clock : (switchTo k next).ticks = k.ticks := rfl
    rw [threadScheduleTail_thread, switchTo_thread, now, clock]
    by_cases here : p = next <;> simp [here]
  simp only [dispatch]
  split
  · rename_i remembered call
    have written : ∀ s : Kernel, (scheduleReturn s remembered).thread p = _ :=
      fun s => Kernel.upd_thread s s.current p _
    have now : ∀ prev, (threadScheduleTail (switchTo k next) prev).current = next :=
      fun _ => rfl
    rw [written, now, call]
    by_cases here : p = next
    · subst here
      simp [tail]
    · simp [here, tail]
  · rename_i call
    rw [tail, call]
    simp

/-- Parts of a thread that a dispatch never writes. -/
theorem dispatch_keeps {β : Type} (f : Thread → β) (resting : Thread.Resting f) :
    Kernel.Keeps f k (dispatch k next) := by
  intro p
  rw [dispatch_thread]
  split
  · split <;> simp [resting.enter, resting.slice, resting.count]
  · split <;> simp [resting.leave]

theorem dispatch_code (p : Page) : (dispatch k next).code p = k.code p :=
  dispatch_keeps k next (fun t => t.code) {} p

theorem dispatch_sema (s : SemaId) : (dispatch k next).sema s = k.sema s := by
  cases s with
  | timer p =>
    exact dispatch_keeps k next (fun t => t.timerSema) {} p
  | idleStarted =>
    simp only [dispatch]
    split <;> rfl
  | user n =>
    simp only [dispatch]
    split <;> rfl

/-- Exactly the thread put on the CPU becomes running. -/
theorem dispatch_status (p : Page) :
    (dispatch k next).status p = if p = next then .running else k.status p := by
  rw [Kernel.status, dispatch_thread]
  split
  · split <;> rfl
  · split <;> rfl

/-- A page is freed exactly if its thread was switched out dying, is not
`initial_thread`, and the mode is not SJF. -/
theorem dispatch_allocated (p : Page) : (dispatch k next).allocated p =
      if p = k.current ∧ k.current ≠ next ∧ k.status p = .dying ∧ p ≠ k.initialThread ∧
        k.mode ≠ .sjf then false
      else k.allocated p := by
  have tail : (dispatch k next).allocated =
      (threadScheduleTail (switchTo k next)
        (if k.current = next then none else some k.current)).allocated := by
    simp only [dispatch]
    split <;> rfl
  rw [tail]
  by_cases same : k.current = next
  · simp only [same, if_true, ne_eq, not_true_eq_false, false_and, and_false, if_false]
    rfl
  · have kept : ((switchTo k next).upd next (Thread.beginSlice k.ticks)).status k.current =
        k.status k.current := by
      simp [Kernel.status, switchTo_thread, same]
    simp only [same, if_false, ne_eq, not_false_eq_true, true_and]
    change (if ((switchTo k next).upd next (Thread.beginSlice k.ticks)).status k.current = .dying ∧
        k.current ≠ k.initialThread ∧ k.mode ≠ .sjf then
        Function.update k.allocated k.current false else k.allocated) p = _
    rw [kept]
    by_cases here : p = k.current
    · subst here
      by_cases freed : k.status k.current = .dying ∧ k.current ≠ k.initialThread ∧ k.mode ≠ .sjf
      · rw [if_pos freed, if_pos ⟨rfl, freed⟩, Function.update_self]
      · simp only [if_neg freed, true_and]
    · split <;> simp [here]

/-- What `schedule` does when it returns: it takes the front of the ready list, or
`idle_thread` if the list is empty, and dispatches it. -/
theorem schedule_effects {k after : Kernel} (taken : schedule k = .ok after) :
    k.status k.current ≠ .running ∧ ∃ next rest,
      (k.readyList = next :: rest ∨
        k.readyList = [] ∧ rest = [] ∧ k.idleThread = some next) ∧
      after = dispatch { k with readyList := rest } next := by
  unfold schedule nextThreadToRun at taken
  cases list : k.readyList with
  | nil =>
    cases idle : k.idleThread with
    | none => simp [list, idle] at taken
    | some next =>
      simp only [list, idle] at taken
      split at taken
      · cases taken
      · rename_i left
        cases taken
        refine ⟨left, next, [], Or.inr ⟨rfl, rfl, rfl⟩, ?_⟩
        rw [← list, ← idle]
  | cons next rest =>
    simp only [list] at taken
    split at taken
    · cases taken
    · rename_i left
      cases taken
      exact ⟨left, next, rest, Or.inl rfl, rfl⟩

end
end Calendarizador.Source
