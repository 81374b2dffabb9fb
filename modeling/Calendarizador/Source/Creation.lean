import Calendarizador.Source.Semaphore

/-!
# Effects of creating a thread

`init_thread` fills one page and appends it to `all_list`; under SJF it also looks the
name of the new thread up among the records and may add it to them.
-/
namespace Calendarizador.Source
open Foundation

/-- The estimate a new thread starts with. -/
def firstEstimate (k : Kernel) (t : Page) (name : Name) (priority : Int) : Int :=
  if k.mode = .sjf then (getTotalExec (k.upd t fun _ => blankThread name priority) t).1 else 0

/-- The records after the creation of a thread. -/
def firstRecords (k : Kernel) (t : Page) (name : Name) (priority : Int) : List Page :=
  if k.mode = .sjf then
    (getTotalExec (k.upd t fun _ => blankThread name priority) t).2.allAllList
  else k.allAllList

/-- A thread as `init_thread` leaves it. -/
def newThread (k : Kernel) (t : Page) (name : Name) (priority : Int) : Thread :=
  ((blankThread name priority).setTotalExec (firstEstimate k t name priority)).setFirstPrio
    name priority

/-- What `init_thread` does on the page `t`. -/
structure Created (k : Kernel) (t : Page) (name : Name) (priority : Int) (after : Kernel) :
    Prop where
  thread : ∀ p, after.thread p = if p = t then newThread k t name priority else k.thread p
  records : after.allAllList = firstRecords k t name priority
  allList : after.allList = k.allList ++ [t]
  ready : after.readyList = k.readyList
  wait : after.waitList = k.waitList
  allocated : after.allocated = k.allocated
  mode : after.mode = k.mode
  current : after.current = k.current
  idleThread : after.idleThread = k.idleThread
  initialThread : after.initialThread = k.initialThread
  ticks : after.ticks = k.ticks
  loadAvg : after.loadAvg = k.loadAvg
  idleStarted : after.idleStarted = k.idleStarted
  userSema : after.userSema = k.userSema

theorem storeTotalExec_thread (k : Kernel) (t p : Page) : (storeTotalExec k t).thread p =
      if p = t then (k.thread t).setTotalExec (getTotalExec k t).1 else k.thread p := by
  rw [storeTotalExec, Kernel.upd_thread, getTotalExec_snd]

theorem initThread_effects {k after : Kernel} {t : Page} {name : Name} {priority : Int}
    (created : initThread k t name priority = .ok after) :
    priMin ≤ priority ∧ priority ≤ priMax ∧ Created k t name priority after := by
  unfold initThread at created
  split at created
  · rename_i range
    refine ⟨range.1, range.2, ?_⟩
    simp only [Kernel.upd_mode] at created
    by_cases sjf : k.mode = .sjf
    · simp only [sjf, if_true, Except.ok.injEq] at created
      subst created
      have stored := storeTotalExec_thread (k.upd t fun _ => blankThread name priority) t
      have fields : ∀ {β : Type} (f : Kernel → β)
          (_ : ∀ s list, f { s with allAllList := list } = f s)
          (_ : ∀ s p g, f (Kernel.upd s p g) = f s),
          f (storeTotalExec (k.upd t fun _ => blankThread name priority) t) = f k := by
        intro β f record thread
        rw [storeTotalExec, thread, getTotalExec_snd, record, thread]
      constructor
      · intro p
        rw [Kernel.upd_thread, stored, stored, newThread, firstEstimate, if_pos sjf]
        by_cases here : p = t
        · subst here
          simp
        · simp [here]
      · rw [firstRecords, if_pos sjf]
        rfl
      · rw [← fields (fun k => k.allList) (fun _ _ => rfl) (fun _ _ _ => rfl)]
        rfl
      · exact fields (fun k => k.readyList) (fun _ _ => rfl) (fun _ _ _ => rfl)
      · exact fields (fun k => k.waitList) (fun _ _ => rfl) (fun _ _ _ => rfl)
      · exact fields (fun k => k.allocated) (fun _ _ => rfl) (fun _ _ _ => rfl)
      · exact fields (fun k => k.mode) (fun _ _ => rfl) (fun _ _ _ => rfl)
      · exact fields (fun k => k.current) (fun _ _ => rfl) (fun _ _ _ => rfl)
      · exact fields (fun k => k.idleThread) (fun _ _ => rfl) (fun _ _ _ => rfl)
      · exact fields (fun k => k.initialThread) (fun _ _ => rfl) (fun _ _ _ => rfl)
      · exact fields (fun k => k.ticks) (fun _ _ => rfl) (fun _ _ _ => rfl)
      · exact fields (fun k => k.loadAvg) (fun _ _ => rfl) (fun _ _ _ => rfl)
      · exact fields (fun k => k.idleStarted) (fun _ _ => rfl) (fun _ _ _ => rfl)
      · exact fields (fun k => k.userSema) (fun _ _ => rfl) (fun _ _ _ => rfl)
    · simp only [sjf, if_false, Except.ok.injEq] at created
      subst created
      refine ⟨fun p => ?_, ?_, rfl, rfl, rfl, rfl, rfl, rfl, rfl, rfl, rfl, rfl, rfl, rfl⟩
      · rw [Kernel.upd_thread, newThread, firstEstimate, if_neg sjf]
        by_cases here : p = t
        · subst here
          simp only [if_true, Kernel.upd_thread_self]
          rfl
        · simp [here]
      · rw [firstRecords, if_neg sjf]
        rfl
  · cases created

/-- A page in use is not given out again. -/
theorem threadAllocate_effects {k after : Kernel} {t : Page} {name : Name} {priority : Int}
    (created : threadAllocate k t name priority = .ok after) :
    ¬ k.allocated t = true ∧ priMin ≤ priority ∧ priority ≤ priMax ∧
      Created (pallocGetPage k t) t name priority after := by
  unfold threadAllocate at created
  split at created
  · cases created
  · rename_i free
    exact ⟨free, initThread_effects created⟩

namespace Created
variable {k after : Kernel} {t : Page} {name : Name} {priority : Int}

theorem status (h : Created k t name priority after) (p : Page) :
    after.status p = if p = t then .blocked else k.status p := by
  rw [Kernel.status, h.thread]
  split <;> rfl

theorem code (h : Created k t name priority after) (p : Page) :
    after.code p = if p = t then .parked else k.code p := by
  rw [Kernel.code, h.thread]
  split <;> rfl

theorem sema (h : Created k t name priority after) (s : SemaId) :
    after.sema s = if s = .timer t then ⟨0, []⟩ else k.sema s := by
  cases s with
  | idleStarted => simpa [Kernel.sema] using h.idleStarted
  | user n => simpa [Kernel.sema] using congrFun h.userSema n
  | timer p =>
    simp only [Kernel.sema, SemaId.timer.injEq, h.thread]
    split <;> rfl

theorem mem_records (h : Created k t name priority after) {p : Page}
    (member : p ∈ after.allAllList) : p ∈ k.allAllList ∨ (p = t ∧ k.mode = .sjf) := by
  rw [h.records, firstRecords] at member
  split at member
  · rename_i sjf
    rw [getTotalExec_snd] at member
    split at member
    · rw [List.mem_append, List.mem_singleton] at member
      exact member.imp id fun here => ⟨here, sjf⟩
    · exact .inl member
  · exact .inl member

end Created
end Calendarizador.Source
