import Calendarizador.Source.Dispatch
import Calendarizador.Source.Machine

/-!
# The representation invariant

`ThreadOk k p` ties the list memberships of one page to its status and code, and `Core k`
asks this of every page, together with the absence of duplicates and the bookkeeping of
the boot phase. It does not ask that the running thread is marked running, so it also
holds between the status change of an operation and its `schedule` call; `Inv` adds that.
An operation that touches one thread is checked at that thread only: all other pages are
covered by `ThreadOk.frame`.
-/
namespace Calendarizador.Source
open Foundation

/-- Codes of the thread that `idle_thread` names. -/
def Code.isIdle (c : Code) : Prop := c = .idleUp ∨ c = .idleLoop

structure ThreadOk (k : Kernel) (p : Page) : Prop where
  all : p ∈ k.allList ↔ k.Live p
  ready : p ∈ k.readyList ↔ k.Live p ∧ k.status p = .ready ∧ k.idleThread ≠ some p
  waiters : ∀ s, p ∈ (k.sema s).waiters ↔
    k.Live p ∧ k.status p = .blocked ∧ k.code p = .downing s
  wait : p ∈ k.waitList ↔ k.Live p ∧ k.status p = .blocked ∧ k.code p = .downing (.timer p)
  running : k.Live p → k.status p = .running → p = k.current
  ownTimer : ∀ q, k.Live p → k.code p = .downing (.timer q) → q = p
  parked : k.Live p → k.code p = .parked → k.status p = .blocked
  idle : k.idleThread = some p ↔ k.Live p ∧ (k.code p).isIdle
  entry : k.Live p → k.code p = .idleEntry →
    k.idleThread = none ∧ (k.status p = .ready ∨ k.status p = .running)
  record : p ∈ k.allAllList → k.allocated p = true ∧ k.mode = .sjf
  /-- The semaphore of a thread holds a unit exactly between its wake-up and its return. -/
  timer : k.Live p → (k.sema (.timer p)).value =
    if k.code p = .downing (.timer p) ∧ k.status p ≠ .blocked then 1 else 0

structure Core (k : Kernel) : Prop where
  all_nodup : k.allList.Nodup
  ready_nodup : k.readyList.Nodup
  waiters_nodup : ∀ s, (k.sema s).waiters.Nodup
  wait_nodup : k.waitList.Nodup
  threads : ∀ p, ThreadOk k p
  /-- At most one thread is about to become the idle thread. -/
  entry_unique : ∀ p q, k.Live p → k.Live q → k.code p = .idleEntry → k.code q = .idleEntry →
    p = q
  /-- `main` is the thread that creates the idle thread, and it does so once. -/
  start : ∀ p, k.Live p → k.code p = .start →
    p = k.initialThread ∧ k.idleThread = none ∧ ∀ q, k.Live q → k.code q ≠ .idleEntry
  initial_allocated : k.allocated k.initialThread = true
  current_allocated : k.allocated k.current = true

/-- The invariant between two steps: the running thread is the current one. -/
structure Inv (k : Kernel) : Prop where
  core : Core k
  live : k.Live k.current
  running : k.status k.current = .running

/-- Nothing the invariant says about the page `p` changed. -/
structure SameFor (k after : Kernel) (p : Page) : Prop where
  status : after.status p = k.status p
  code : after.code p = k.code p
  allocated : after.allocated p = k.allocated p
  all : p ∈ after.allList ↔ p ∈ k.allList
  ready : p ∈ after.readyList ↔ p ∈ k.readyList
  waiters : ∀ s, p ∈ (after.sema s).waiters ↔ p ∈ (k.sema s).waiters
  wait : p ∈ after.waitList ↔ p ∈ k.waitList
  record : p ∈ after.allAllList → p ∈ k.allAllList ∨ (p ∈ k.allList ∧ k.mode = .sjf)
  timer : (after.sema (.timer p)).value = (k.sema (.timer p)).value

/-- The registers of the scheduler that only a dispatch and the idle thread write. -/
structure SameControl (k after : Kernel) : Prop where
  mode : after.mode = k.mode
  current : after.current = k.current
  idleThread : after.idleThread = k.idleThread
  initialThread : after.initialThread = k.initialThread

theorem SameFor.live {k after : Kernel} {p : Page} (h : SameFor k after p) :
    after.Live p ↔ k.Live p := by rw [Kernel.Live, Kernel.Live, h.status, h.allocated]

/-- A page none of whose data changed stays well formed, if `idle_thread` says the same of it. -/
theorem ThreadOk.keep {k after : Kernel} {p : Page} (h : ThreadOk k p) (same : SameFor k after p)
    (mode : after.mode = k.mode) (current : after.current = k.current)
    (idle : after.idleThread = some p ↔ k.idleThread = some p)
    (entry : k.Live p → k.code p = .idleEntry → after.idleThread = none) : ThreadOk after p := by
  have live := same.live
  constructor
  · rw [same.all, live, h.all]
  · rw [same.ready, live, same.status, Ne, idle, h.ready]
  · intro s
    rw [same.waiters, live, same.status, same.code, h.waiters]
  · rw [same.wait, live, same.status, same.code, h.wait]
  · rw [live, same.status, current]
    exact h.running
  · rw [live, same.code]
    exact h.ownTimer
  · rw [live, same.status, same.code]
    exact h.parked
  · rw [idle, live, same.code, h.idle]
  · rw [live, same.status, same.code]
    exact fun alive enters => ⟨entry alive enters, (h.entry alive enters).2⟩
  · rw [same.allocated, mode]
    intro member
    rcases same.record member with old | ⟨listed, sjf⟩
    · exact h.record old
    · exact ⟨(h.all.mp listed).1, sjf⟩
  · rw [live, same.timer, same.status, same.code]
    exact h.timer

/-- A page none of whose data changed stays well formed. -/
theorem ThreadOk.frame {k after : Kernel} {p : Page} (h : ThreadOk k p) (same : SameFor k after p)
    (control : SameControl k after) : ThreadOk after p :=
  h.keep same control.mode control.current (by rw [control.idleThread])
    fun alive enters => control.idleThread.trans (h.entry alive enters).1

section
variable {k : Kernel} {next : Page}

/-- A dispatch of a live thread neither creates nor destroys one: the page it frees
belongs to a dead thread. -/
theorem dispatch_live (alive : k.Live next) (p : Page) : (dispatch k next).Live p ↔ k.Live p := by
  unfold Kernel.Live
  rw [dispatch_status, dispatch_allocated]
  by_cases here : p = next
  · subst here
    have notFreed : ¬ (p = k.current ∧ k.current ≠ p ∧ k.status p = .dying ∧
        p ≠ k.initialThread ∧ k.mode ≠ .sjf) := fun freed => freed.2.1 freed.1.symm
    rw [if_neg notFreed, if_pos rfl]
    exact ⟨fun _ => alive, fun _ => ⟨alive.1, by simp⟩⟩
  · rw [if_neg here]
    split
    · rename_i freed
      have dying : (k.thread p).status = .dying := freed.2.2.1
      simp [dying]
    · rfl

/-- The thread that `schedule` picks exists. -/
theorem Core.picked_live (h : Core k) {rest : List Page}
    (picked : k.readyList = next :: rest ∨
      k.readyList = [] ∧ rest = [] ∧ k.idleThread = some next) : k.Live next := by
  rcases picked with list | ⟨_, _, idle⟩
  · exact ((h.threads next).ready.mp (by simp [list])).1
  · exact ((h.threads next).idle.mp idle).1

/-- A thread that may be dispatched waits for nothing. -/
theorem ThreadOk.dispatchable (h : ThreadOk k next)
    (able : k.status next = .ready ∨ k.idleThread = some next) :
    next ∉ k.waitList ∧ (∀ s, next ∉ (k.sema s).waiters) ∧
      (k.Live next → k.code next ≠ .parked) := by
  have notDowning : ∀ s, ¬ (k.Live next ∧ k.status next = .blocked ∧
      k.code next = .downing s) := by
    rintro s ⟨alive, blocked, down⟩
    rcases able with ready | idle
    · rw [ready] at blocked
      cases blocked
    · rcases (h.idle.mp idle).2 with code | code <;> rw [code] at down <;> cases down
  refine ⟨fun member => notDowning _ (h.wait.mp member),
    fun s member => notDowning s ((h.waiters s).mp member), fun alive park => ?_⟩
  rcases able with ready | idle
  · have blocked := h.parked alive park
    rw [ready] at blocked
    cases blocked
  · rcases (h.idle.mp idle).2 with code | code <;> rw [code] at park <;> cases park

/-- What a switch to another thread leaves alone. -/
structure Switched (k after : Kernel) : Prop where
  live : ∀ p, after.Live p ↔ k.Live p
  code : after.code = k.code
  sema : after.sema = k.sema
  mode : after.mode = k.mode
  initialThread : after.initialThread = k.initialThread
  idleThread : after.idleThread = k.idleThread
  allList : after.allList = k.allList
  waitList : after.waitList = k.waitList

theorem dispatch_switched (alive : k.Live next) (rest : List Page) :
    Switched k (dispatch { k with readyList := rest } next) where
  live := dispatch_live (k := { k with readyList := rest }) alive
  code := funext (dispatch_code { k with readyList := rest } next)
  sema := by
    funext s
    rw [dispatch_sema]
    cases s <;> rfl
  mode := dispatch_mode _ _
  initialThread := dispatch_initialThread _ _
  idleThread := dispatch_idleThread _ _
  allList := dispatch_allList _ _
  waitList := dispatch_waitList _ _

/-- One page after the dispatch of `next`, if the thread that gives up the CPU is no longer
marked running. -/
theorem ThreadOk.switch {after : Kernel} {p : Page} (h : ThreadOk k p) (switched : Switched k after)
    (left : k.status k.current ≠ .running)
    (able : p = next → k.status p = .ready ∨ k.idleThread = some p)
    (current : after.current = next)
    (status : after.status p = if p = next then .running else k.status p)
    (ready : p ∈ after.readyList ↔ p ∈ k.readyList ∧ p ≠ next)
    (record : p ∈ after.allAllList → after.allocated p = true ∧ after.mode = .sjf) :
    ThreadOk after p where
  all := by
    rw [switched.live, switched.allList]
    exact h.all
  ready := by
    rw [switched.live, status, switched.idleThread, ready]
    by_cases here : p = next
    · simp [here]
    · rw [if_neg here, h.ready]
      simp [here]
  waiters s := by
    rw [switched.live, status, switched.code, switched.sema]
    by_cases here : p = next
    · simp [here, here ▸ (h.dispatchable (able here)).2.1 s]
    · rw [if_neg here]
      exact h.waiters s
  wait := by
    rw [switched.live, status, switched.code, switched.waitList]
    by_cases here : p = next
    · simp [here, here ▸ (h.dispatchable (able here)).1]
    · rw [if_neg here]
      exact h.wait
  running alive run := by
    rw [current]
    by_contra other
    rw [status, if_neg other] at run
    exact left (h.running ((switched.live p).mp alive) run ▸ run)
  ownTimer q alive down := by
    rw [switched.code] at down
    exact h.ownTimer q ((switched.live p).mp alive) down
  parked alive park := by
    rw [switched.live] at alive
    rw [switched.code] at park
    by_cases here : p = next
    · exact absurd park ((h.dispatchable (able here)).2.2 alive)
    · rw [status, if_neg here]
      exact h.parked alive park
  idle := by
    rw [switched.live, switched.code, switched.idleThread]
    exact h.idle
  entry alive enters := by
    rw [switched.code] at enters
    obtain ⟨unset, before⟩ := h.entry ((switched.live p).mp alive) enters
    rw [switched.idleThread, status]
    by_cases here : p = next
    · simp [here, unset]
    · rw [if_neg here]
      exact ⟨unset, before⟩
  record := record
  timer alive := by
    rw [switched.live] at alive
    rw [status, switched.code, switched.sema, h.timer alive]
    by_cases here : p = next
    · have notBlocked : k.code p = .downing (.timer p) → k.status p ≠ .blocked :=
        fun down blocked => (h.dispatchable (able here)).1 (h.wait.mpr ⟨alive, blocked, down⟩)
      by_cases down : k.code p = .downing (.timer p)
      · rw [if_pos here, if_pos ⟨down, notBlocked down⟩, if_pos ⟨down, by simp⟩]
      · rw [if_neg fun both => down both.1, if_neg fun both => down both.1]
    · rw [if_neg here]

/-- A switch to a ready thread, or to the idle thread, restores the invariant. -/
theorem Core.switch {after : Kernel} (h : Core k) (switched : Switched k after)
    (left : k.status k.current ≠ .running) (alive : k.Live next)
    (able : k.status next = .ready ∨ k.idleThread = some next) (current : after.current = next)
    (status : ∀ p, after.status p = if p = next then .running else k.status p)
    (nodup : after.readyList.Nodup) (ready : ∀ p, p ∈ after.readyList ↔ p ∈ k.readyList ∧ p ≠ next)
    (records : after.allAllList = k.allAllList)
    (kept : ∀ p, k.allocated p = true → p = next ∨ p = k.initialThread ∨ k.mode = .sjf →
      after.allocated p = true) : Inv after where
  core :=
    { all_nodup := switched.allList ▸ h.all_nodup
      ready_nodup := nodup
      waiters_nodup := switched.sema ▸ h.waiters_nodup
      wait_nodup := switched.waitList ▸ h.wait_nodup
      threads := by
        intro p
        refine (h.threads p).switch switched left (by rintro rfl; exact able) current (status p)
          (ready p) fun member => ?_
        obtain ⟨allocated, sjf⟩ := (h.threads p).record (records ▸ member)
        exact ⟨kept p allocated (.inr (.inr sjf)), switched.mode.trans sjf⟩
      entry_unique := by
        intro p q alivep aliveq
        rw [switched.live] at alivep aliveq
        rw [switched.code]
        exact h.entry_unique p q alivep aliveq
      start := by
        intro p alivep early
        rw [switched.code] at early
        obtain ⟨first, unset, nobody⟩ := h.start p ((switched.live p).mp alivep) early
        refine ⟨first.trans switched.initialThread.symm, switched.idleThread.trans unset,
          fun q aliveq => ?_⟩
        rw [switched.code]
        exact nobody q ((switched.live q).mp aliveq)
      initial_allocated := by
        rw [switched.initialThread]
        exact kept _ h.initial_allocated (.inr (.inl rfl))
      current_allocated := current ▸ kept next alive.1 (.inl rfl) }
  live := by
    rw [current, switched.live]
    exact alive
  running := by rw [current, status, if_pos rfl]

theorem Core.dispatch (h : Core k) (left : k.status k.current ≠ .running) (alive : k.Live next)
    (able : k.status next = .ready ∨ k.idleThread = some next) {rest : List Page}
    (nodup : rest.Nodup) (popped : ∀ p, p ∈ rest ↔ p ∈ k.readyList ∧ p ≠ next) :
    Inv (dispatch { k with readyList := rest } next) := by
  refine h.switch (dispatch_switched alive rest) left alive able (dispatch_current _ _)
    (dispatch_status _ _) ?_ (fun p => ?_) (dispatch_allAllList _ _) fun p allocated spared => ?_
  · rw [dispatch_readyList]
    exact nodup
  · rw [dispatch_readyList]
    exact popped p
  · rw [dispatch_allocated, if_neg]
    · exact allocated
    · rintro ⟨rfl, other, _, notInitial, freeing⟩
      rcases spared with same | same | same
      · exact other same
      · exact notInitial same
      · exact freeing same

/-- `schedule` dispatches a live thread and restores the invariant. -/
theorem Core.schedule (h : Core k) {after : Kernel} (taken : schedule k = .ok after) :
    Inv after := by
  obtain ⟨left, next, rest, picked, rfl⟩ := schedule_effects taken
  rcases picked with list | ⟨list, rfl, idle⟩
  · have ready := (h.threads next).ready.mp (by simp [list])
    have nodup := h.ready_nodup
    rw [list, List.nodup_cons] at nodup
    refine h.dispatch left ready.1 (Or.inl ready.2.1) nodup.2 fun p => ?_
    rw [list, List.mem_cons]
    constructor
    · intro member
      exact ⟨Or.inr member, fun here => nodup.1 (here ▸ member)⟩
    · rintro ⟨here | member, other⟩
      · exact absurd here other
      · exact member
  · exact h.dispatch left ((h.threads next).idle.mp idle).1 (Or.inr idle) List.nodup_nil
      (by simp [list])

end

end Calendarizador.Source
