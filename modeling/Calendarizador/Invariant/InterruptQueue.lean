import Calendarizador.Source.InterruptQueue

/-!
# The monitor of the interrupt queue

Who holds the lock, who waits for it and who waits for one of the conditions is decided by
where the threads are: the lock is held exactly through `wait`, so at most one thread waits
for a condition. Each section of the code then keeps the invariant, and only `wait` can fail.
-/
namespace Calendarizador.Source
open Foundation Function List

namespace IntqPc

/-- Between `lock_acquire` and `lock_release`. -/
def holds : IntqPc → Bool
  | .waiting _ | .woken _ => true
  | _ => false

def acquires : IntqPc → Bool
  | .acquiring _ => true
  | _ => false

def waitsFor (condition : IntqCondition) : IntqPc → Bool
  | .waiting c => c.awaits = condition
  | _ => false

end IntqPc

namespace Intq

structure Ok (q : Intq) : Prop where
  head : q.head < intqBufsize
  tail : q.tail < intqBufsize
  value : q.lock.value = if q.holder = none then 1 else 0
  holder : ∀ t, q.holder = some t ↔ (q.pc t).holds = true
  waiters : ∀ t, t ∈ q.lock.waiters ↔ (q.pc t).acquires = true
  nodup : q.lock.waiters.Nodup
  waiter : ∀ condition t, q.waiter condition = some t ↔ (q.pc t).waitsFor condition = true

theorem ok_init : Intq.init.Ok where
  head := by decide
  tail := by decide
  value := rfl
  holder t := by simp [Intq.init, IntqPc.holds]
  waiters t := by simp [Intq.init, IntqPc.acquires]
  nodup := nodup_nil
  waiter condition t := by simp [Intq.init, IntqPc.waitsFor]

variable {q : Intq} {t : Page} {c : IntqCall}

theorem next_lt (pos : Nat) : next pos < intqBufsize := Nat.mod_lt _ (by decide)

theorem met_notFull : q.met .notFull = true ↔ next q.head ≠ q.tail := by
  by_cases here : next q.head = q.tail <;> simp [met, full, here]

theorem met_notEmpty : q.met .notEmpty = true ↔ q.head ≠ q.tail := by
  by_cases here : q.head = q.tail <;> simp [met, empty, here]

/-- What has been returned is not part of the monitor. -/
theorem Ok.returns (h : q.Ok) (returned : Page → List UInt8) : { q with returned := returned }.Ok :=
  ⟨h.head, h.tail, h.value, h.holder, h.waiters, h.nodup, h.waiter⟩

theorem Ok.move (h : q.Ok) (c : IntqCall) : (q.move c).Ok := by
  cases c with
  | getc => exact ⟨h.head, next_lt _, h.value, h.holder, h.waiters, h.nodup, h.waiter⟩
  | putc byte => exact ⟨next_lt _, h.tail, h.value, h.holder, h.waiters, h.nodup, h.waiter⟩

/-- A byte taken leaves room, and a byte added can be taken. -/
theorem Ok.moved_met (h : q.Ok) (allowed : q.met c.awaits = true) :
    (q.move c).met c.signals = true := by
  cases c with
  | getc =>
    have some_ : q.head ≠ q.tail := met_notEmpty.mp allowed
    refine met_notFull.mpr ?_
    have head := h.head
    have tail := h.tail
    simp only [Intq.move, next, intqBufsize] at head tail ⊢
    omega
  | putc byte =>
    have room : next q.head ≠ q.tail := met_notFull.mp allowed
    exact met_notEmpty.mpr room

/-- A test of places that the move of a thread does not change. -/
theorem goto_test (test : IntqPc → Bool) {new : IntqPc} (same : test new = test (q.pc t))
    (u : Page) : test ((q.goto t new).pc u) = test (q.pc u) := by
  rw [goto_pc]
  by_cases here : u = t
  · rw [here, update_self, same]
  · rw [update_of_ne here]

/-- A thread that goes on after it was popped from the waiters of the lock. -/
theorem Ok.retests (h : q.Ok) (place : q.pc t = .retesting c) : (q.goto t .running).Ok := by
  refine ⟨h.head, h.tail, h.value, fun u => ?_, fun u => ?_, h.nodup, fun condition u => ?_⟩
  · rw [goto_test IntqPc.holds (by rw [place]; rfl)]
    exact h.holder u
  · rw [goto_test IntqPc.acquires (by rw [place]; rfl)]
    exact h.waiters u
  · rw [goto_test (IntqPc.waitsFor condition) (by rw [place]; rfl)]
    exact h.waiter condition u

/-- `signal` wakes the thread that waits for the condition, if there is one. -/
theorem Ok.signal (h : q.Ok) {condition : IntqCondition} (met : q.met condition = true) :
    ∃ after, q.signal condition = .ok after ∧ after.Ok := by
  cases waiter : q.waiter condition with
  | none => exact ⟨q, by simp [Intq.signal, met, waiter], h⟩
  | some w =>
    obtain ⟨c, place, awaits⟩ : ∃ c, q.pc w = .waiting c ∧ c.awaits = condition := by
      have waits := (h.waiter condition w).mp waiter
      cases pc : q.pc w with
      | waiting c => exact ⟨c, rfl, by simpa [pc, IntqPc.waitsFor] using waits⟩
      | _ => simp [pc, IntqPc.waitsFor] at waits
    have woke : q.signal condition = .ok ((q.goto w (.woken c)).setWaiter condition none) := by
      simp [Intq.signal, met, waiter, unblock, place, Except.map]
    refine ⟨_, woke, h.head, h.tail, h.value, fun u => ?_, fun u => ?_, h.nodup, fun other u => ?_⟩
    · rw [setWaiter_pc, goto_test IntqPc.holds (by rw [place]; rfl)]
      exact h.holder u
    · rw [setWaiter_pc, goto_test IntqPc.acquires (by rw [place]; rfl)]
      exact h.waiters u
    · have only := h.waiter other u
      rw [setWaiter_pc, setWaiter_waiter, goto_pc]
      by_cases same : other = condition
      · subst same
        rw [update_self]
        by_cases here : u = w
        · simp [here, IntqPc.waitsFor]
        · rw [update_of_ne here, ← only, waiter]
          simp [Ne.symm here]
      · rw [update_of_ne same]
        by_cases here : u = w
        · rw [here, place, IntqPc.waitsFor, decide_eq_true_eq, awaits] at only
          rw [here, update_self]
          exact only.trans (iff_of_false (Ne.symm same) (by simp [IntqPc.waitsFor]))
        · rw [update_of_ne here]
          exact only

/-- The byte is moved and the other side is told. -/
theorem Ok.transfer (h : q.Ok) (allowed : q.met c.awaits = true) :
    ∃ after, q.transfer c = .ok after ∧ after.Ok :=
  (h.move c).signal (h.moved_met allowed)

/-- Nobody is between `lock_acquire` and `lock_release` while the lock is free. -/
theorem Ok.nobody (h : q.Ok) (free : q.holder = none) (u : Page) : (q.pc u).holds = false := by
  by_contra busy
  have holds := (h.holder u).mpr (by simpa using busy)
  rw [free] at holds
  cases holds

theorem takeLock_met (condition : IntqCondition) :
    (q.takeLock t).met condition = q.met condition := by cases condition <;> rfl

theorem goto_met (place : IntqPc) (condition : IntqCondition) :
    (q.goto t place).met condition = q.met condition := by cases condition <;> rfl

/-- A free lock also means that nobody waits for a condition. -/
theorem Ok.no_waiter (h : q.Ok) (free : q.holder = none) (condition : IntqCondition) (u : Page) :
    (q.pc u).waitsFor condition = false := by
  have nobody := h.nobody free u
  cases pc : q.pc u with
  | waiting c =>
    rw [pc] at nobody
    cases nobody
  | _ => rfl

/-- `lock_acquire` on a free lock, and the `wait` that follows. -/
theorem Ok.waits (h : q.Ok) (free : q.holder = none) (running : q.pc t = .running)
    (blocked : q.met c.awaits = false) : ∃ after, q.lockDown t c = .ok after ∧ after.Ok := by
  have value : q.lock.value = 1 := by rw [h.value, if_pos free]
  have down : q.lock.down t = ⟨0, q.lock.waiters⟩ := by simp [Semaphore.down, value]
  have waited : q.lockDown t c =
      .ok (((q.takeLock t).setWaiter c.awaits (some t)).goto t (.waiting c)) := by
    rw [lockDown, if_neg (by rw [value]; simp), wait]
    exact if_neg (by rw [takeLock_met, blocked]; simp)
  refine ⟨_, waited, h.head, h.tail, ?_, fun u => ?_, fun u => ?_, ?_, fun condition u => ?_⟩
  · rw [goto_lock, setWaiter_lock, takeLock_lock, down]
    rfl
  · rw [goto_holder, setWaiter_holder, takeLock_holder, goto_pc]
    by_cases here : u = t
    · simp [here, IntqPc.holds]
    · rw [update_of_ne here]
      exact iff_of_false (by simp [Ne.symm here]) (by simpa using h.nobody free u)
  · rw [goto_lock, setWaiter_lock, takeLock_lock, down]
    rw [goto_test IntqPc.acquires (by rw [setWaiter_pc, takeLock_pc, running]; rfl)]
    exact h.waiters u
  · rw [goto_lock, setWaiter_lock, takeLock_lock, down]
    exact h.nodup
  · have nobody := h.no_waiter free condition
    have empty : q.waiter condition = none := by
      by_contra waits
      obtain ⟨w, waits⟩ := Option.ne_none_iff_exists'.mp waits
      rw [h.waiter condition w, nobody w] at waits
      cases waits
    change update q.waiter c.awaits (some t) condition = some u ↔
      (update q.pc t (.waiting c) u).waitsFor condition = true
    by_cases same : condition = c.awaits
    · subst same
      rw [update_self]
      by_cases here : u = t
      · simp [here, IntqPc.waitsFor]
      · rw [update_of_ne here, nobody u]
        simp [Ne.symm here]
    · rw [update_of_ne same, empty]
      by_cases here : u = t
      · simp [here, IntqPc.waitsFor, Ne.symm same]
      · rw [update_of_ne here, nobody u]
        simp

/-- `lock_acquire` on a lock that is held. -/
theorem Ok.queues (h : q.Ok) (held : q.lock.value = 0) (running : q.pc t = .running) :
    ∃ after, q.lockDown t c = .ok after ∧ after.Ok := by
  have down : q.lock.down t = ⟨q.lock.value, q.lock.waiters ++ [t]⟩ := by
    simp [Semaphore.down, held]
  have unlisted : t ∉ q.lock.waiters := by
    rw [h.waiters t, running]
    simp [IntqPc.acquires]
  refine ⟨_, if_pos held, h.head, h.tail, ?_, fun u => ?_, fun u => ?_, ?_, fun condition u => ?_⟩
  · rw [goto_lock, down]
    exact h.value
  · rw [goto_holder, goto_test IntqPc.holds (by simp [running]; rfl)]
    exact h.holder u
  · rw [goto_lock, down, goto_pc]
    by_cases here : u = t
    · simp [here, IntqPc.acquires]
    · rw [update_of_ne here, ← h.waiters u]
      simp [here]
  · rw [goto_lock, down]
    refine nodup_append.mpr ⟨h.nodup, by simp, fun u listed v last => ?_⟩
    rw [mem_singleton.mp last]
    rintro rfl
    exact unlisted listed
  · rw [goto_waiter, goto_test (IntqPc.waitsFor condition) (by simp [running]; rfl)]
    exact h.waiter condition u

/-- The loop of a call: between the test and the `wait` nothing happens unless the thread
has to sleep for the lock. -/
theorem Ok.loop (h : q.Ok) (running : q.pc t = .running) :
    ∃ after, q.loop t c = .ok after ∧ after.Ok := by
  unfold Intq.loop
  by_cases met : q.met c.awaits = true
  · rw [if_pos met]
    obtain ⟨after, moved, ok⟩ := h.transfer met
    rw [moved]
    cases c with
    | getc => exact ⟨_, rfl, ok.returns _⟩
    | putc byte => exact ⟨_, rfl, ok⟩
  · rw [if_neg met]
    have mine : q.holder ≠ some t := by
      rw [ne_eq, h.holder t, running]
      simp [IntqPc.holds]
    rw [lockAcquire, if_neg mine]
    by_cases free : q.holder = none
    · exact h.waits free running (by simpa using met)
    · exact h.queues (by rw [h.value, if_neg free]) running

/-- `lock_release` by the thread that returns from `wait`. -/
theorem Ok.lockRelease (h : q.Ok) (place : q.pc t = .woken c) :
    ∃ after, (q.goto t .running).lockRelease t = .ok after ∧ after.Ok ∧
      after.pc t = .running := by
  have mine : q.holder = some t := (h.holder t).mpr (by rw [place]; rfl)
  have up : q.lock.up = ⟨1, q.lock.waiters.tail⟩ := by
    have value : q.lock.value = 0 := by rw [h.value, mine]; rfl
    simp [Semaphore.up, value]
  have others : ∀ u, u ≠ t → (q.pc u).holds = false := by
    intro u other
    by_contra busy
    have holds := (h.holder u).mpr (by simpa using busy)
    rw [mine] at holds
    exact other (Option.some.inj holds).symm
  have quiet : ∀ condition, (q.pc t).waitsFor condition = false := by
    intro condition
    rw [place]
    rfl
  unfold Intq.lockRelease
  rw [goto_holder, if_pos mine, goto_lock]
  cases list : q.lock.waiters with
  | nil =>
    refine ⟨_, rfl, ⟨h.head, h.tail, ?_, fun u => ?_, fun u => ?_, ?_, fun condition u => ?_⟩, ?_⟩
    · rw [freeLock_lock, goto_lock, up]
      rfl
    · by_cases here : u = t
      · simp [here, IntqPc.holds]
      · simp [here, others u here]
    · rw [freeLock_lock, goto_lock, up, list]
      change u ∈ [] ↔ (update q.pc t .running u).acquires = true
      have unlisted := h.waiters u
      rw [list] at unlisted
      by_cases here : u = t
      · simp [here, IntqPc.acquires]
      · rw [update_of_ne here, ← unlisted]
    · rw [freeLock_lock, goto_lock, up, list]
      exact nodup_nil
    · rw [freeLock_pc, goto_test (IntqPc.waitsFor condition) (by rw [quiet]; rfl)]
      exact h.waiter condition u
    · exact update_self _ _ _
  | cons w rest =>
    obtain ⟨other, place'⟩ : ∃ other, q.pc w = .acquiring other := by
      have waits := (h.waiters w).mp (by simp [list])
      cases pc : q.pc w with
      | acquiring other => exact ⟨other, rfl⟩
      | _ => simp [pc, IntqPc.acquires] at waits
    have apart : w ≠ t := by
      rintro rfl
      rw [place] at place'
      cases place'
    have distinct : w ∉ rest ∧ rest.Nodup := nodup_cons.mp (list ▸ h.nodup)
    have now : (q.goto t .running).freeLock.pc w = .acquiring other := by
      rw [freeLock_pc, goto_pc, update_of_ne apart, place']
    have woke : (q.goto t .running).freeLock.unblock w =
        .ok ((q.goto t .running).freeLock.goto w (.retesting other)) := by
      rw [unblock, now]
    refine ⟨_, woke, ⟨h.head, h.tail, ?_, fun u => ?_, fun u => ?_, ?_,
      fun condition u => ?_⟩, ?_⟩
    · rw [goto_lock, freeLock_lock, goto_lock, up]
      rfl
    · change none = some u ↔
        (update (update q.pc t .running) w (.retesting other) u).holds = true
      by_cases front : u = w
      · simp [front, IntqPc.holds]
      · by_cases here : u = t
        · simp [here, apart.symm, IntqPc.holds]
        · simp [here, front, others u here]
    · rw [goto_lock, freeLock_lock, goto_lock, up, list]
      change u ∈ rest ↔
        (update (update q.pc t .running) w (.retesting other) u).acquires = true
      have listed := h.waiters u
      rw [list, mem_cons] at listed
      by_cases front : u = w
      · simp [front, IntqPc.acquires, distinct.1]
      · rw [update_of_ne front]
        by_cases here : u = t
        · rw [here, place] at listed
          rw [here, update_self]
          exact iff_of_false
            (fun member => by simpa [IntqPc.acquires] using listed.mp (.inr member))
            (by simp [IntqPc.acquires])
        · rw [update_of_ne here, ← listed, or_iff_right front]
    · rw [goto_lock, freeLock_lock, goto_lock, up, list]
      exact distinct.2
    · have kept : ((q.goto t .running).pc u).waitsFor condition = (q.pc u).waitsFor condition :=
        goto_test (IntqPc.waitsFor condition) (by rw [quiet]; rfl) u
      rw [goto_test (IntqPc.waitsFor condition) (by rw [now]; rfl)]
      rw [freeLock_pc, kept]
      exact h.waiter condition u
    · rw [goto_pc, update_of_ne apart.symm]
      exact update_self _ _ _

/-- A thread that slept for the lock does not test its condition again before `wait`. -/
theorem step_resume_met (place : q.pc t = .retesting c) (free : q.lock.value ≠ 0)
    (met : q.met c.awaits = true) : q.step (.resume t) = .error .assertion := by
  have unlocked : (q.goto t .running).lock.value ≠ 0 := by rwa [goto_lock]
  simp only [Intq.step, place]
  rw [lockDown, if_neg unlocked, wait]
  refine if_pos ?_
  rw [takeLock_met, goto_met]
  exact met

/-- What one section does: it is not enabled, it succeeds and keeps the invariant, or a
thread that slept for the lock finds the condition it waits for true. -/
theorem Ok.step (h : q.Ok) (e : IntqEvent) :
    q.step e = .error .disabled ∨ (∃ after, q.step e = .ok after ∧ after.Ok) ∨
      (q.step e = .error .assertion ∧ ∃ t c, e = .resume t ∧ q.pc t = .retesting c ∧
        q.lock.value ≠ 0 ∧ q.met c.awaits = true) := by
  cases e with
  | call t c =>
    simp only [Intq.step]
    split
    · rename_i running
      exact .inr (.inl (h.loop running))
    · exact .inl rfl
  | interrupt c =>
    simp only [Intq.step]
    split
    · rename_i met
      exact .inr (.inl (h.transfer met))
    · exact .inl rfl
  | resume t =>
    cases place : q.pc t with
    | running | acquiring | waiting =>
      left
      simp only [Intq.step, place]
    | woken c =>
      obtain ⟨released, done, ok, running⟩ := h.lockRelease place
      obtain ⟨after, looped, kept⟩ := ok.loop (c := c) running
      right
      left
      refine ⟨after, ?_, kept⟩
      simp only [Intq.step, place]
      exact bind_eq_ok.mpr ⟨released, done, looped⟩
    | retesting c =>
      have ok := h.retests place
      have now : (q.goto t .running).pc t = .running := update_self _ _ _
      right
      simp only [Intq.step, place]
      by_cases held : q.lock.value = 0
      · exact .inl (ok.queues held now)
      · have free : q.holder = none := by
          by_contra busy
          rw [h.value, if_neg busy] at held
          exact held rfl
        by_cases met : q.met c.awaits = true
        · have failed := step_resume_met place held met
          simp only [Intq.step, place] at failed
          exact .inr ⟨failed, t, c, rfl, place, held, met⟩
        · refine .inl (ok.waits free now ?_)
          rw [goto_met]
          simpa using met

theorem reachable_ok (h : Reachable intqSystem q) : q.Ok := by
  refine h.invariant ?_ ?_
  · rintro q rfl
    exact ok_init
  · intro q e after _ ok taken
    change q.step e = .ok after at taken
    rcases ok.step e with disabled | ⟨next, stepped, kept⟩ | ⟨failed, _⟩
    · rw [disabled] at taken
      cases taken
    · rw [stepped] at taken
      cases taken
      exact kept
    · rw [failed] at taken
      cases taken

end Intq
end Calendarizador.Source
