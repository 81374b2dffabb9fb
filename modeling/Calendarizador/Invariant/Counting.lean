import Calendarizador.Invariant.Effects

/-!
# Counting dispatches

`repeat` is incremented after `switch_threads` has returned, in the `schedule` frame of
the thread that was switched to. A thread that runs for the first time has no such frame:
it starts at `switch_entry`. So the counter of every thread but `initial_thread` is one
short, and `Counted` carries this along a run.
-/
namespace Calendarizador.Source
open Foundation

/-- What a dispatch finds and counts. -/
def Thread.stack (t : Thread) : Frame × Nat × Int := (t.frame, t.dispatches, t.repeats)

/-- The counter of a thread that has been dispatched is one less than the dispatches. -/
def StackOk (stack : Frame × Nat × Int) : Prop :=
  if stack.1 = .entry then stack.2.1 = 0 ∧ stack.2.2 = 0
  else 1 ≤ stack.2.1 ∧ stack.2.2 = i32 (stack.2.1 - 1)

structure Counted (k : Kernel) : Prop where
  cpu : (k.thread k.current).frame = .onCpu
  only : ∀ p, k.Live p → (k.thread p).frame = .onCpu → p = k.current
  counts : ∀ p, k.Live p → p ≠ k.initialThread → StackOk (k.thread p).stack
  exits : ∀ p rep seen, k.Live p → p ≠ k.initialThread → k.code p = .exiting rep seen →
    1 ≤ seen ∧ seen ≤ (k.thread p).dispatches ∧ rep = i32 (seen - 1)

section
variable {k after : Kernel}

/-- Events that neither create a thread nor switch keep the count. -/
theorem Counted.keep (h : Counted k) (alive : k.Live k.current)
    (live : ∀ p, after.Live p → k.Live p) (stack : Kernel.Keeps Thread.stack k after)
    (current : after.current = k.current) (initialThread : after.initialThread = k.initialThread)
    (exits : ExitsRead k after) : Counted after := by
  have frame : ∀ p, (after.thread p).frame = (k.thread p).frame :=
    fun p => congrArg (fun s => s.1) (stack p)
  have dispatches : ∀ p, (after.thread p).dispatches = (k.thread p).dispatches :=
    fun p => congrArg (fun s => s.2.1) (stack p)
  constructor
  · rw [current, frame]
    exact h.cpu
  · intro p alivep cpu
    rw [frame] at cpu
    rw [current]
    exact h.only p (live p alivep) cpu
  · intro p alivep ordinary
    rw [stack p]
    exact h.counts p (live p alivep) (initialThread ▸ ordinary)
  · intro p rep seen alivep ordinary code
    rw [initialThread] at ordinary
    rw [dispatches]
    rcases exits p rep seen code with old | ⟨rfl, rfl, rfl⟩
    · exact h.exits p rep seen (live p alivep) ordinary old
    · have counted := h.counts k.current alive ordinary
      rw [StackOk, if_neg (by rw [Thread.stack, h.cpu]; simp)] at counted
      exact ⟨counted.1, Nat.le_refl _, counted.2⟩

theorem Counted.born (h : Counted k) {t : Page} {name : Name} (used : k.allocated k.current = true)
    (live : ∀ p, p ≠ t → after.Live p → k.Live p) (born : Born k t name after) : Counted after := by
  have other : k.current ≠ t := by
    rintro rfl
    rw [born.free] at used
    cases used
  have frame : ∀ p, p ≠ t → (after.thread p).frame = (k.thread p).frame :=
    fun p apart => congrArg (fun s => s.2.1) (born.kept p apart)
  have stack : ∀ p, p ≠ t → (after.thread p).stack = (k.thread p).stack :=
    fun p apart => congrArg (fun s => (s.2.1, s.2.2.1, s.2.2.2.1)) (born.kept p apart)
  have fresh : (after.thread t).stack = (.entry, 0, 0) :=
    congrArg (fun s => (s.2.1, s.2.2.1, s.2.2.2.1)) born.fresh
  constructor
  · rw [born.current, frame _ other]
    exact h.cpu
  · intro p alivep cpu
    by_cases here : p = t
    · subst here
      have entry : (after.thread p).frame = .entry := congrArg (fun s => s.1) fresh
      rw [entry] at cpu
      cases cpu
    · rw [frame p here] at cpu
      rw [born.current]
      exact h.only p (live p here alivep) cpu
  · intro p alivep ordinary
    by_cases here : p = t
    · subst here
      rw [fresh]
      simp [StackOk]
    · rw [stack p here]
      exact h.counts p (live p here alivep) (born.initialThread ▸ ordinary)
  · intro p rep seen alivep ordinary code
    obtain ⟨apart, old⟩ := born.exits p rep seen code
    have dispatches : (after.thread p).dispatches = (k.thread p).dispatches :=
      congrArg (fun s => s.2.1) (stack p apart)
    rw [dispatches]
    exact h.exits p rep seen (live p apart alivep) (born.initialThread ▸ ordinary) old

/-- A return into a `schedule` frame counts a dispatch of a thread dispatched before. -/
theorem StackOk.count {frame : Frame} {dispatches : Nat} {repeats : Int} (seen : frame ≠ .entry)
    (h : StackOk (frame, dispatches, repeats)) :
    StackOk (.onCpu, dispatches + 1, i32 (repeats + 1)) := by
  rw [StackOk, if_neg seen] at h
  have value : repeats = i32 (dispatches - 1) := h.2
  rw [value, StackOk, if_neg (by simp), i32_add_left]
  refine ⟨by simp, congrArg i32 ?_⟩
  push_cast
  ring

/-- The first dispatch of a thread is not counted. -/
theorem StackOk.first {dispatches : Nat} {repeats : Int}
    (h : StackOk (.entry, dispatches, repeats)) : StackOk (.onCpu, dispatches + 1, repeats) := by
  obtain ⟨rfl, rfl⟩ : dispatches = 0 ∧ repeats = 0 := by simpa [StackOk] using h
  simp [StackOk, i32]

/-- One more dispatch, one more count, except on the first. -/
theorem Counted.dispatch (h : Counted k) {next : Page} (alive : k.Live next) :
    Counted (dispatch k next) := by
  have live := dispatch_live alive
  have thread := dispatch_thread k next
  have code := dispatch_code k next
  have frames : ∀ p, k.Live p → p ≠ next →
      ((Source.dispatch k next).thread p).frame ≠ .onCpu := by
    intro p alivep other cpu
    rw [thread, if_neg other] at cpu
    split at cpu
    · cases cpu
    · rename_i apart
      exact apart (h.only p alivep cpu)
  have counts : ∀ p, k.Live p → p ≠ k.initialThread → StackOk (k.thread p).stack →
      StackOk ((Source.dispatch k next).thread p).stack := by
    intro p alivep _ before
    rw [thread]
    by_cases here : p = next
    · subst here
      rw [if_pos rfl]
      split
      · -- the thread returns into its own `schedule` call
        rename_i resumed
        refine StackOk.count (fun entry => ?_) before
        unfold resumedCall at resumed
        split at resumed
        · rename_i same
          have cpu := h.cpu
          rw [same, entry] at cpu
          cases cpu
        · rw [entry] at resumed
          cases resumed
      · -- the thread starts at `switch_entry`
        rename_i first
        unfold resumedCall at first
        split at first
        · exact absurd rfl first
        · rename_i apart
          cases found : (k.thread p).frame with
          | entry =>
            rw [Thread.stack, found] at before
            exact before.first
          | schedule remembered =>
            rw [found] at first
            exact absurd rfl first
          | onCpu => exact absurd (h.only p alivep found).symm apart
    · rw [if_neg here]
      split
      · rename_i running
        subst running
        rw [Thread.stack, StackOk, if_neg (by rw [h.cpu]; simp)] at before
        simpa [Thread.stack, StackOk] using before
      · exact before
  constructor
  · rw [dispatch_current, thread, if_pos rfl]
    split <;> rfl
  · intro p alivep cpu
    rw [dispatch_current]
    by_contra other
    exact frames p ((live p).mp alivep) other cpu
  · intro p alivep ordinary
    rw [dispatch_initialThread] at ordinary
    have before := (live p).mp alivep
    exact counts p before ordinary (h.counts p before ordinary)
  · intro p rep seen alivep ordinary exiting
    rw [dispatch_initialThread] at ordinary
    rw [code] at exiting
    obtain ⟨once, most, value⟩ := h.exits p rep seen ((live p).mp alivep) ordinary exiting
    refine ⟨once, Nat.le_trans most ?_, value⟩
    rw [thread]
    split
    · split <;> simp
    · split <;> simp

theorem Counted.schedule (h : Counted k) (core : Core k) (taken : schedule k = .ok after) :
    Counted after := by
  obtain ⟨_, next, rest, picked, rfl⟩ := schedule_effects taken
  have popped : Counted { k with readyList := rest } := ⟨h.cpu, h.only, h.counts, h.exits⟩
  exact popped.dispatch (core.picked_live picked)

theorem opBody_counted (h : Inv k) (counted : Counted k) {e : Event} (enabled : e.enabled k = true)
    {outcome : Outcome} (taken : opBody k e = .ok outcome) : Counted outcome.kernel := by
  have good := (opBody_inv h e enabled taken).core
  have live := live_of_allList h.core good
  rcases opBody_effects h enabled taken with ⟨_, _, calm⟩ | ⟨t, name, _, born⟩ |
    ⟨rfl, rep, seen, code, exits⟩ | ⟨n, rfl, _, rfl⟩ | ⟨rfl, handled⟩
  · exact counted.keep h.live (live (by rw [calm.allList]; exact fun _ => id))
      (fun p => congrArg (fun s => (s.2.1, s.2.2.1, s.2.2.2.1)) (calm.kept p)) calm.current
      calm.initialThread calm.exits
  · refine counted.born h.live.1 (fun p apart alive => ?_) born
    have member := (good.threads p).all.mpr alive
    rw [born.allList, List.mem_append, List.mem_singleton] at member
    exact (h.core.threads p).all.mp (member.resolve_right apart)
  · have stack := threadExit_keeps Thread.stack {} exits
    have codes := threadExit_keeps (fun t => t.code) {} exits
    obtain ⟨learned, total, learning, rfl⟩ := threadExit_effects exits
    have accounts := learnAtExit_accounting learning
    refine counted.keep h.live (live ?_) stack accounts.current accounts.initialThread ?_
    · rw [accounts.allList]
      exact List.erase_subset
    · exact fun p _ _ exiting => .inl ((codes p).symm.trans exiting)
  · have globals := blockOn_globals (enterWaitList k n) (.timer k.current)
    refine counted.keep h.live (live ?_) ?_ globals.current globals.initialThread ?_
    · exact (globals.allList ▸ fun _ => id)
    · exact (enterWaitList_keeps k n Thread.stack fun _ _ => rfl).trans
        (blockOn_keeps _ _ Thread.stack {})
    · intro p rep seen exiting
      left
      have code : (blockOn (enterWaitList k n) (.timer k.current)).code p = .exiting rep seen :=
        exiting
      rw [blockOn_code] at code
      split at code
      · cases code
      · rwa [enterWaitList_code] at code
  · obtain ⟨stack, lists⟩ := intrHandler_keeps Thread.stack {} handled
    obtain ⟨codes, _⟩ := intrHandler_keeps (fun t => t.code) {} handled
    refine counted.keep h.live (live (by rw [lists.allList]; exact fun _ => id)) stack
      lists.current lists.initialThread fun p rep seen exiting => .inl ?_
    exact (codes p).symm.trans exiting

theorem step_counted (h : Inv k) (counted : Counted k) {e : Event}
    (taken : step k e = .ok after) : Counted after := by
  obtain ⟨enabled, body | ⟨ready, body, switched⟩⟩ := step_effects taken
  · exact opBody_counted h counted enabled body
  · exact (opBody_counted h counted enabled body).schedule (opBody_inv h e enabled body) switched

theorem reachable_counted {mode : Mode} (h : Reachable (kernelSystem mode) k) : Counted k := by
  refine h.invariant ?_ ?_
  · rintro s ⟨values, booted⟩
    have facts := threadInit_booted booted
    have only : ∀ p, s.Live p → p = s.initialThread :=
      fun p alive => (facts.live p alive).trans facts.initialThread.symm
    refine ⟨?_, fun p alive _ => ?_, fun p alive ordinary => absurd (only p alive) ordinary,
      fun p _ _ alive ordinary _ => absurd (only p alive) ordinary⟩
    · rw [facts.current]
      exact congrArg (fun s => s.2.1) facts.kept
    · exact (facts.live p alive).trans facts.current.symm
  · intro s e after reached before taken
    exact step_counted (reachable_inv reached) before taken

end
end Calendarizador.Source
