import Calendarizador.Source.Synch

/-!
# Who owns the lock

A thread owns the lock from the success of its semaphore down to its own up. `holder` names
the owner only for a part of that time, because it is assigned after the down and cleared
before the up, with interrupts on. `Queues` says who is on the lists of waiters of the
semaphores, so that a `sema_up` finds a blocked thread.
-/
namespace Calendarizador.Source
open Foundation Function List

namespace MonitorPc
variable {pc : MonitorPc}

/-- Between the success of the semaphore down and the up. -/
def owns : MonitorPc → Bool
  | .acquireHolder _ | .tryHolder | .holding | .releaseAssert _ | .releaseHolder _ | .releaseUp _
  | .waitAssert | .waitInit | .waitPush | .signalAssert _ | .signalPop _ | .signalUp _ _
  | .broadcastLoop => true
  | _ => false

/-- The part of that time in which `holder` names the thread. -/
def holds : MonitorPc → Bool
  | .acquireHolder _ | .tryHolder | .releaseUp _ => false
  | pc => pc.owns

def lockBlocked : MonitorPc → Bool
  | .acquireBlocked _ => true
  | _ => false

/-- Blocked in one of the two `sema_down` calls. -/
def blocked : MonitorPc → Bool
  | .acquireBlocked _ | .waitBlocked => true
  | _ => false

theorem owns_of_holds (h : pc.holds = true) : pc.owns = true := by
  cases pc <;> first | rfl | cases h

theorem holds_of_not_owns (h : pc.owns = false) : pc.holds = false := by
  cases pc <;> first | rfl | cases h

theorem lockBlocked_of_not_blocked (h : pc.blocked = false) : pc.lockBlocked = false := by
  cases pc <;> first | rfl | cases h

theorem ne_waitBlocked (h : pc.blocked = false) : pc ≠ .waitBlocked := by
  rintro rfl
  cases h

end MonitorPc

structure Queues (m : Monitor) : Prop where
  lockWaiters : ∀ p, p ∈ m.lock.waiters ↔ (m.pc p).lockBlocked = true
  lockNodup : m.lock.waiters.Nodup
  /-- Only the waiter itself downs the semaphore of its element. -/
  ownElem : ∀ p, (m.signal p).waiters = if m.pc p = .waitBlocked then [p] else []

structure LockOwned (m : Monitor) (owner : Option Page) : Prop where
  owned : ∀ p, (m.pc p).owns = true ↔ owner = some p
  value : m.lock.value + owner.toList.length = 1
  holder : ∀ p, m.holder = some p ↔ (m.pc p).holds = true

section
variable {m after : Monitor} {t : Page} {pc : MonitorPc} {owner : Option Page}
variable {c : LockCaller} {q w : Page}

/-- One thread moves; the lists of waiters change only as far as it is concerned. -/
theorem Queues.change (h : Queues m) (moved : after.pc = update m.pc t pc)
    (lock : ∀ p, p ∈ after.lock.waiters ↔
      if p = t then pc.lockBlocked = true else p ∈ m.lock.waiters)
    (nodup : after.lock.waiters.Nodup) (own : ∀ p, (after.signal p).waiters =
      if p = t then if pc = .waitBlocked then [t] else [] else (m.signal p).waiters) :
    Queues after := by
  refine ⟨fun p => ?_, nodup, fun p => ?_⟩
  · rw [lock, moved, update_apply]
    by_cases here : p = t
    · rw [if_pos here, if_pos here]
    · rw [if_neg here, if_neg here, h.lockWaiters]
  · rw [own, moved, update_apply]
    by_cases here : p = t
    · rw [if_pos here, if_pos here, here]
    · rw [if_neg here, if_neg here, h.ownElem]

theorem Queues.not_waiting (h : Queues m) (old : (m.pc t).blocked = false) :
    t ∉ m.lock.waiters ∧ (m.signal t).waiters = [] := by
  refine ⟨?_, ?_⟩
  · rw [h.lockWaiters, MonitorPc.lockBlocked_of_not_blocked old]
    simp
  · rw [h.ownElem, if_neg (MonitorPc.ne_waitBlocked old)]

/-- A statement of a thread that neither was nor becomes blocked. -/
theorem Queues.moves (h : Queues m) (lock : after.lock.waiters = m.lock.waiters)
    (signal : ∀ p, (after.signal p).waiters = (m.signal p).waiters)
    (moved : after.pc = update m.pc t pc) (old : (m.pc t).blocked = false)
    (new : pc.blocked = false) : Queues after := by
  obtain ⟨away, empty⟩ := h.not_waiting old
  refine h.change moved (fun p => ?_) (lock ▸ h.lockNodup) fun p => ?_
  · rw [lock, MonitorPc.lockBlocked_of_not_blocked new]
    by_cases here : p = t <;> simp [here, away]
  · rw [signal, if_neg (MonitorPc.ne_waitBlocked new)]
    by_cases here : p = t <;> simp [here, empty]

/-- A statement that neither gains nor loses the lock and does not assign `holder`. -/
theorem LockOwned.moves (h : LockOwned m owner) (value : after.lock.value = m.lock.value)
    (holder : after.holder = m.holder) (moved : after.pc = update m.pc t pc)
    (owns : pc.owns = (m.pc t).owns) (holds : pc.holds = (m.pc t).holds) :
    LockOwned after owner := by
  refine ⟨fun p => ?_, value ▸ h.value, fun p => ?_⟩
  · rw [← h.owned, moved, update_apply]
    by_cases here : p = t
    · rw [if_pos here, here, owns]
    · rw [if_neg here]
  · rw [holder, h.holder, moved, update_apply]
    by_cases here : p = t
    · rw [if_pos here, here, holds]
    · rw [if_neg here]

/-- The semaphore down of `lock_acquire` or `lock_try_acquire` succeeds. -/
theorem LockOwned.gained (h : LockOwned m owner) (unit : m.lock.value ≠ 0)
    (value : after.lock.value = m.lock.value - 1) (holder : after.holder = m.holder)
    (moved : after.pc = update m.pc t pc) (owns : pc.owns = true) (holds : pc.holds = false)
    (without : (m.pc t).owns = false) : LockOwned after (some t) := by
  have units := h.value
  obtain rfl : owner = none := by
    cases owner with
    | none => rfl
    | some p =>
      simp only [Option.toList_some, length_singleton] at units
      omega
  refine ⟨fun p => ?_, ?_, fun p => ?_⟩
  · rw [moved, update_apply]
    by_cases here : p = t
    · simp [here, owns]
    · have other : (m.pc p).owns ≠ true := fun own => by cases (h.owned p).mp own
      rw [if_neg here]
      exact iff_of_false other fun same => here (Option.some.inj same).symm
  · simp only [Option.toList_none, Option.toList_some, length_nil, length_singleton] at units ⊢
    omega
  · rw [holder, h.holder, moved, update_apply]
    by_cases here : p = t
    · rw [if_pos here, here, holds, MonitorPc.holds_of_not_owns without]
    · rw [if_neg here]

/-- The owner assigns `holder`. -/
theorem LockOwned.assigned (h : LockOwned m owner) (value : after.lock.value = m.lock.value)
    (moved : after.pc = update m.pc t pc) (own : (m.pc t).owns = true) (owns : pc.owns = true)
    (holder : after.holder = if pc.holds = true then some t else none) : LockOwned after owner := by
  have mine := (h.owned t).mp own
  refine ⟨fun p => ?_, value ▸ h.value, fun p => ?_⟩
  · rw [← h.owned, moved, update_apply]
    by_cases here : p = t
    · rw [if_pos here, here, owns, own]
    · rw [if_neg here]
  · rw [holder, moved, update_apply]
    by_cases here : p = t
    · rw [if_pos here, here]
      split <;> simp [*]
    · have other : (m.pc p).holds ≠ true := by
        intro held
        have its := (h.owned p).mp (MonitorPc.owns_of_holds held)
        exact here (Option.some.inj (its.symm.trans mine))
      rw [if_neg here]
      refine iff_of_false ?_ other
      split
      · exact fun same => here (Option.some.inj same).symm
      · rintro ⟨⟩

/-- The `sema_up` of `lock_release`. -/
theorem LockOwned.lost (h : LockOwned m owner) (value : after.lock.value = m.lock.up.value)
    (holder : after.holder = m.holder) (own : (m.pc t).owns = true)
    (unheld : (m.pc t).holds = false) (out : (after.pc t).owns = false)
    (others : ∀ p, p ≠ t → (after.pc p).owns = (m.pc p).owns ∧
      (after.pc p).holds = (m.pc p).holds) : LockOwned after none := by
  have units := h.value
  obtain rfl := (h.owned t).mp own
  refine ⟨fun p => ?_, ?_, fun p => ?_⟩
  · refine iff_of_false (fun its => ?_) (by rintro ⟨⟩)
    by_cases here : p = t
    · rw [here, out] at its
      cases its
    · rw [(others p here).1] at its
      exact here (Option.some.inj ((h.owned p).mp its)).symm
  · simp only [value, Semaphore.up, Option.toList_none, Option.toList_some, length_nil,
      length_singleton] at units ⊢
    omega
  · rw [holder, h.holder]
    by_cases here : p = t
    · rw [here, MonitorPc.holds_of_not_owns out, unheld]
    · rw [(others p here).2]

/-- The `sema_up` of `lock_release` finds nobody, or unblocks a thread in `lock_acquire`. -/
theorem Queues.unblockFirst_lock (h : Queues m) :
    (m.lock.waiters = [] ∧ m.unblockFirst m.lock = .ok m) ∨
      ∃ q rest c, m.lock.waiters = q :: rest ∧ m.pc q = .acquireBlocked c ∧
        m.unblockFirst m.lock = .ok (m.goto q (.acquireRetest c)) := by
  unfold Monitor.unblockFirst
  split
  · rename_i nobody
    exact .inl ⟨nobody, rfl⟩
  · rename_i q rest list
    have waits := (h.lockWaiters q).mp (by rw [list]; exact mem_cons_self)
    cases place : m.pc q with
    | acquireBlocked c => exact .inr ⟨q, rest, c, list, place, rfl⟩
    | _ =>
      rw [place] at waits
      cases waits

/-- The `sema_up` of `cond_signal` unblocks the thread it signals, if that has blocked yet. -/
theorem Queues.unblockFirst_signal (h : Queues m) (w : Page) : m.unblockFirst (m.signal w) =
      .ok (if m.pc w = .waitBlocked then m.goto w .waitRetest else m) := by
  unfold Monitor.unblockFirst
  by_cases blocked : m.pc w = .waitBlocked
  · simp only [h.ownElem, blocked, if_true, MonitorPc.unblocked]
  · rw [h.ownElem, if_neg blocked, if_neg blocked]

/-- A thread blocks on the lock. -/
theorem Queues.blocks_lock (h : Queues m) (lock : after.lock.waiters = m.lock.waiters ++ [t])
    (signal : after.signal = m.signal) (moved : after.pc = update m.pc t (.acquireBlocked c))
    (old : (m.pc t).blocked = false) : Queues after := by
  obtain ⟨away, empty⟩ := h.not_waiting old
  refine h.change moved (fun p => ?_) ?_ fun p => ?_
  · rw [lock, mem_append, mem_singleton]
    by_cases here : p = t <;> simp [here, MonitorPc.lockBlocked]
  · rw [lock, nodup_append]
    refine ⟨h.lockNodup, by simp, ?_⟩
    rintro q member s new rfl
    rw [mem_singleton] at new
    exact away (new ▸ member)
  · rw [signal]
    by_cases here : p = t <;> simp [here, empty]

/-- The first thread that waits for the lock goes on. -/
theorem Queues.unblocks_lock (h : Queues m) {rest : List Page} (list : m.lock.waiters = q :: rest)
    (waits : m.pc q = .acquireBlocked c) (lock : after.lock.waiters = rest)
    (signal : after.signal = m.signal)
    (moved : after.pc = update m.pc q (.acquireRetest c)) : Queues after := by
  have nodup := h.lockNodup
  rw [list, nodup_cons] at nodup
  refine h.change moved (fun p => ?_) (lock ▸ nodup.2) fun p => ?_
  · rw [lock, list, mem_cons]
    by_cases here : p = q
    · simp [here, nodup.1, MonitorPc.lockBlocked]
    · simp [here]
  · rw [signal]
    by_cases here : p = q <;> simp [here, h.ownElem, waits]

/-- A thread blocks on the semaphore of its own element. -/
theorem Queues.blocks_own (h : Queues m) (lock : after.lock = m.lock)
    (signal : ∀ p, (after.signal p).waiters = if p = t then [t] else (m.signal p).waiters)
    (moved : after.pc = update m.pc t .waitBlocked)
    (old : (m.pc t).blocked = false) : Queues after := by
  obtain ⟨away, _⟩ := h.not_waiting old
  refine h.change moved (fun p => ?_) (lock ▸ h.lockNodup) fun p => ?_
  · rw [lock]
    by_cases here : p = t <;> simp [here, away, MonitorPc.lockBlocked]
  · rw [signal, if_pos rfl]

/-- A signal to a blocked waiter. -/
theorem Queues.unblocks_own (h : Queues m) (waits : m.pc w = .waitBlocked)
    (lock : after.lock = m.lock)
    (signal : ∀ p, (after.signal p).waiters = if p = w then [] else (m.signal p).waiters)
    (moved : after.pc = update m.pc w .waitRetest) : Queues after := by
  refine h.change moved (fun p => ?_) (lock ▸ h.lockNodup) fun p => ?_
  · rw [lock, h.lockWaiters]
    by_cases here : p = w <;> simp [here, waits, MonitorPc.lockBlocked]
  · rw [signal]
    simp

theorem assertHeld_ok (taken : m.assertHeld t pc = .ok after) :
    m.holder = some t ∧ after = m.goto t pc := by
  unfold Monitor.assertHeld at taken
  split at taken
  · rename_i held
    cases taken
    exact ⟨by simpa [Monitor.lockHeldByCurrentThread] using held, rfl⟩
  · cases taken

theorem assertNotHeld_ok (taken : m.assertNotHeld t pc = .ok after) : after = m.goto t pc := by
  unfold Monitor.assertNotHeld at taken
  split at taken
  · cases taken
  · cases taken
    rfl

/-- Where a statement leads that only asserts something about `holder`. -/
def MonitorPc.asserted : MonitorPc → Option MonitorPc
  | .acquireAssert c => some (.acquireDown c)
  | .tryAssert => some .tryDown
  | .releaseAssert c => some (.releaseHolder c)
  | .waitAssert => some .waitInit
  | .signalAssert c => some (.signalPop c)
  | _ => none

/-- What the next statement of the thread `t` does, if the queues are right. -/
inductive Executes (m : Monitor) (t : Page) : Monitor → Prop where
  | asserts {pc : MonitorPc} (place : (m.pc t).asserted = some pc) : Executes m t (m.goto t pc)
  | lockDown {c : LockCaller} (place : m.pc t = .acquireDown c ∨ m.pc t = .acquireRetest c) :
      Executes m t (m.lockDown t c)
  | tryDown (place : m.pc t = .tryDown) :
      Executes m t ({ m with lock := m.lock.tryDown }.goto t
        (if m.lock.value > 0 then .tryHolder else .outside))
  | assigns (place : m.pc t = .tryHolder ∨ ∃ c, m.pc t = .acquireHolder c) :
      Executes m t ({ m with holder := some t }.goto t .holding)
  | clears {c : LockCaller} (place : m.pc t = .releaseHolder c) :
      Executes m t ({ m with holder := none }.goto t (.releaseUp c))
  | ups {c : LockCaller} (place : m.pc t = .releaseUp c) (nobody : m.lock.waiters = []) :
      Executes m t ({ m with lock := m.lock.up }.goto t c.released)
  | unblocks {c d : LockCaller} {q : Page} {rest : List Page} (place : m.pc t = .releaseUp c)
      (list : m.lock.waiters = q :: rest) (waits : m.pc q = .acquireBlocked d) :
      Executes m t ({ m.goto q (.acquireRetest d) with lock := m.lock.up }.goto t c.released)
  | initialises (place : m.pc t = .waitInit) :
      Executes m t ({ m with signal := Function.update m.signal t ⟨0, []⟩ }.goto t .waitPush)
  | pushes (place : m.pc t = .waitPush) :
      Executes m t ({ m with waiters := m.waiters ++ [t] }.goto t (.releaseAssert .wait))
  | waiterDown (place : m.pc t = .waitDown ∨ m.pc t = .waitRetest) :
      Executes m t (m.waiterDown t)
  | popsNobody {c : SignalCaller} (place : m.pc t = .signalPop c) (nobody : m.waiters = []) :
      Executes m t (m.goto t c.signalled)
  | pops {c : SignalCaller} {w : Page} {rest : List Page} (place : m.pc t = .signalPop c)
      (list : m.waiters = w :: rest) :
      Executes m t ({ m with waiters := rest }.goto t (.signalUp c w))
  | signals {c : SignalCaller} {w : Page} (place : m.pc t = .signalUp c w)
      (awake : m.pc w ≠ .waitBlocked) :
      Executes m t ({ m with
        signal := Function.update m.signal w (m.signal w).up }.goto t c.signalled)
  | wakes {c : SignalCaller} {w : Page} (place : m.pc t = .signalUp c w)
      (blocked : m.pc w = .waitBlocked) :
      Executes m t ({ m.goto w .waitRetest with
        signal := Function.update m.signal w (m.signal w).up }.goto t c.signalled)
  | loops (place : m.pc t = .broadcastLoop) (more : m.waiters ≠ []) :
      Executes m t (m.goto t (.signalAssert .broadcast))
  | ends (place : m.pc t = .broadcastLoop) (nobody : m.waiters = []) :
      Executes m t (m.goto t .holding)

theorem Queues.executes (h : Queues m) (taken : m.statement t = .ok after) :
    Executes m t after := by
  cases place : m.pc t
  all_goals simp only [Monitor.statement, place, Except.ok.injEq, reduceCtorEq] at taken
  case acquireAssert | tryAssert =>
    rw [assertNotHeld_ok taken]
    exact .asserts (by rw [place]; rfl)
  case releaseAssert | waitAssert | signalAssert =>
    rw [(assertHeld_ok taken).2]
    exact .asserts (by rw [place]; rfl)
  case releaseUp c =>
    rcases h.unblockFirst_lock with ⟨nobody, same⟩ | ⟨q, rest, d, list, waits, woken⟩
    · rw [same] at taken
      cases taken
      exact .ups place nobody
    · rw [woken] at taken
      cases taken
      exact .unblocks place list waits
  case signalUp c w =>
    rw [h.unblockFirst_signal] at taken
    by_cases blocked : m.pc w = .waitBlocked
    · rw [if_pos blocked] at taken
      cases taken
      exact .wakes place blocked
    · rw [if_neg blocked] at taken
      cases taken
      exact .signals place blocked
  case signalPop c =>
    split at taken
    · rename_i nobody
      cases taken
      exact .popsNobody place nobody
    · rename_i w rest list
      cases taken
      exact .pops place list
  case broadcastLoop =>
    split at taken
    · rename_i nobody
      cases taken
      exact .ends place nobody
    · rename_i more
      cases taken
      exact .loops place more
  all_goals subst taken
  case acquireDown => exact .lockDown (.inl place)
  case acquireRetest => exact .lockDown (.inr place)
  case tryDown => exact .tryDown place
  case tryHolder => exact .assigns (.inl place)
  case acquireHolder c => exact .assigns (.inr ⟨c, place⟩)
  case releaseHolder => exact .clears place
  case waitInit => exact .initialises place
  case waitPush => exact .pushes place
  case waitDown => exact .waiterDown (.inl place)
  case waitRetest => exact .waiterDown (.inr place)

/-- Both invariants; `owner` is the thread that owns the lock, if there is one. -/
structure LockOk (m : Monitor) (owner : Option Page) : Prop where
  queues : Queues m
  owned : LockOwned m owner

theorem LockOk.unique {p : Page} (h : LockOk m owner) (first : (m.pc p).owns = true)
    (second : (m.pc q).owns = true) : p = q :=
  Option.some.inj (((h.owned.owned p).mp first).symm.trans ((h.owned.owned q).mp second))

/-- A statement that has nothing to do with the lock. -/
theorem LockOk.moves (h : LockOk m owner) (lock : after.lock = m.lock)
    (holder : after.holder = m.holder)
    (signal : ∀ p, (after.signal p).waiters = (m.signal p).waiters)
    (moved : after.pc = update m.pc t pc)
    (old : ((m.pc t).owns, (m.pc t).holds, (m.pc t).blocked) = (pc.owns, pc.holds, false))
    (new : pc.blocked = false) : ∃ owner, LockOk after owner := by
  simp only [Prod.mk.injEq] at old
  obtain ⟨owns, holds, awake⟩ := old
  exact ⟨owner, h.queues.moves (by rw [lock]) signal moved awake new,
    h.owned.moves (by rw [lock]) holder moved owns.symm holds.symm⟩

theorem LockOk.lockDown (h : LockOk m owner)
    (old : ((m.pc t).owns, (m.pc t).holds, (m.pc t).blocked) = (false, false, false)) :
    ∃ owner, LockOk (m.lockDown t c) owner := by
  simp only [Prod.mk.injEq] at old
  obtain ⟨owns, holds, awake⟩ := old
  by_cases zero : m.lock.value = 0
  · have moved : (m.lockDown t c).pc = update m.pc t (.acquireBlocked c) := by
      simp [Monitor.lockDown, Monitor.goto, zero]
    have lock : (m.lockDown t c).lock = { m.lock with waiters := m.lock.waiters ++ [t] } :=
      if_pos zero
    exact ⟨owner, h.queues.blocks_lock (by rw [lock]) rfl moved awake,
      h.owned.moves (by rw [lock]) rfl moved owns.symm holds.symm⟩
  · have moved : (m.lockDown t c).pc = update m.pc t (.acquireHolder c) := by
      simp [Monitor.lockDown, Monitor.goto, zero]
    have lock : (m.lockDown t c).lock = { m.lock with value := m.lock.value - 1 } := if_neg zero
    exact ⟨some t, h.queues.moves (by rw [lock]) (fun _ => rfl) moved awake rfl,
      h.owned.gained zero (by rw [lock]) rfl moved rfl rfl owns⟩

theorem LockOk.tryDown (h : LockOk m owner) (place : m.pc t = .tryDown) :
    ∃ owner, LockOk ({ m with lock := m.lock.tryDown }.goto t
      (if m.lock.value > 0 then .tryHolder else .outside)) owner := by
  by_cases unit : m.lock.value > 0
  · rw [if_pos unit, Semaphore.tryDown, if_pos unit]
    exact ⟨some t, h.queues.moves rfl (fun _ => rfl) rfl (by rw [place]; rfl) rfl,
      h.owned.gained (Nat.ne_of_gt unit) rfl rfl rfl rfl rfl (by rw [place]; rfl)⟩
  · rw [if_neg unit, Semaphore.tryDown, if_neg unit]
    exact h.moves rfl rfl (fun _ => rfl) rfl (by rw [place]; rfl) rfl

theorem LockCaller.released_out (c : LockCaller) :
    c.released.owns = false ∧ c.released.blocked = false := by
  cases c <;> exact ⟨rfl, rfl⟩

/-- The owner gives the lock back and nobody waits for it. -/
theorem LockOk.ups (h : LockOk m owner) (place : m.pc t = .releaseUp c)
    (nobody : m.lock.waiters = []) :
    LockOk ({ m with lock := m.lock.up }.goto t c.released) none := by
  obtain ⟨out, awake⟩ := c.released_out
  refine ⟨h.queues.moves ?_ (fun _ => rfl) rfl (by rw [place]; rfl) awake,
    h.owned.lost (t := t) rfl rfl (by rw [place]; rfl) (by rw [place]; rfl) ?_ ?_⟩
  · change m.lock.waiters.tail = m.lock.waiters
    rw [nobody]
    rfl
  · simpa [Monitor.goto] using out
  · intro p other
    simp [Monitor.goto, other]

/-- The owner gives the lock back; the first thread that waits for it tests again. -/
theorem LockOk.unblocks (h : LockOk m owner) {d : LockCaller} {rest : List Page}
    (place : m.pc t = .releaseUp c) (list : m.lock.waiters = q :: rest)
    (waits : m.pc q = .acquireBlocked d) :
    LockOk ({ m.goto q (.acquireRetest d) with lock := m.lock.up }.goto t c.released) none := by
  obtain ⟨out, awake⟩ := c.released_out
  have other : t ≠ q := by
    rintro rfl
    cases place.symm.trans waits
  -- First the wake-up, then the move of the thread that releases.
  have middle : Queues { m.goto q (.acquireRetest d) with lock := m.lock.up } :=
    h.queues.unblocks_lock list waits (by rw [Semaphore.up, list]; rfl) rfl rfl
  have still : (m.goto q (.acquireRetest d)).pc t = .releaseUp c := by
    simp [Monitor.goto, other, place]
  refine ⟨middle.moves rfl (fun _ => rfl) rfl ?_ awake,
    h.owned.lost (t := t) rfl rfl (by rw [place]; rfl) (by rw [place]; rfl) ?_ ?_⟩
  · rw [still]
    rfl
  · simpa [Monitor.goto] using out
  · intro p different
    by_cases here : p = q
    · subst here
      simp [Monitor.goto, different, waits, MonitorPc.owns, MonitorPc.holds]
    · simp [Monitor.goto, different, here]

theorem update_waiters (v : Semaphore) (p : Page) :
    (update m.signal t v p).waiters = if p = t then v.waiters else (m.signal p).waiters := by
  rw [update_apply]
  split <;> rfl

theorem LockOk.waiterDown (h : LockOk m owner) (place : m.pc t = .waitDown ∨ m.pc t = .waitRetest) :
    ∃ owner, LockOk (m.waiterDown t) owner := by
  have old : ((m.pc t).owns, (m.pc t).holds, (m.pc t).blocked) = (false, false, false) := by
    rcases place with here | here <;> rw [here] <;> rfl
  simp only [Prod.mk.injEq] at old
  obtain ⟨owns, holds, awake⟩ := old
  obtain ⟨_, empty⟩ := h.queues.not_waiting awake
  by_cases zero : (m.signal t).value = 0
  · have moved : (m.waiterDown t).pc = update m.pc t .waitBlocked := by
      simp [Monitor.waiterDown, Monitor.goto, zero]
    refine ⟨owner, h.queues.blocks_own rfl (fun p => ?_) moved awake,
      h.owned.moves rfl rfl moved owns.symm holds.symm⟩
    refine (update_waiters _ p).trans ?_
    simp [Semaphore.down, zero, empty]
  · have moved : (m.waiterDown t).pc = update m.pc t (.acquireAssert .wait) := by
      simp [Monitor.waiterDown, Monitor.goto, zero]
    refine ⟨owner, h.queues.moves rfl (fun p => ?_) moved awake rfl,
      h.owned.moves rfl rfl moved owns.symm holds.symm⟩
    refine (update_waiters _ p).trans ?_
    simp +contextual [Semaphore.down, zero]

theorem LockOk.signals (h : LockOk m owner) {c : SignalCaller} (place : m.pc t = .signalUp c w)
    (awake : m.pc w ≠ .waitBlocked) : ∃ owner, LockOk ({ m with
      signal := update m.signal w (m.signal w).up }.goto t c.signalled) owner := by
  refine h.moves (t := t) rfl rfl (fun p => ?_) rfl (by rw [place]; cases c <;> rfl)
    (by cases c <;> rfl)
  refine (update_waiters _ p).trans ?_
  simp +contextual [Semaphore.up, h.queues.ownElem, awake]

theorem LockOk.wakes (h : LockOk m owner) {c : SignalCaller} (place : m.pc t = .signalUp c w)
    (blocked : m.pc w = .waitBlocked) : ∃ owner, LockOk ({ m.goto w .waitRetest with
      signal := update m.signal w (m.signal w).up }.goto t c.signalled) owner := by
  have other : t ≠ w := by
    rintro rfl
    cases place.symm.trans blocked
  have still : (m.goto w .waitRetest).pc t = .signalUp c w := by
    simp [Monitor.goto, other, place]
  have middle : LockOk { m.goto w .waitRetest with
      signal := update m.signal w (m.signal w).up } owner := by
    refine ⟨h.queues.unblocks_own blocked rfl (fun p => ?_) rfl,
      h.owned.moves (t := w) rfl rfl rfl (by rw [blocked]; rfl) (by rw [blocked]; rfl)⟩
    refine (update_waiters _ p).trans ?_
    simp [Semaphore.up, h.queues.ownElem, blocked]
  refine middle.moves (t := t) rfl rfl (fun _ => rfl) rfl ?_ (by cases c <;> rfl)
  rw [still]
  cases c <;> rfl

theorem MonitorPc.asserted_owns {pc next : MonitorPc} (h : pc.asserted = some next) :
    (pc.owns, pc.holds, pc.blocked) = (next.owns, next.holds, false) ∧ next.blocked = false := by
  cases pc <;> cases h <;> exact ⟨rfl, rfl⟩

theorem LockOk.statement (h : LockOk m owner) (taken : m.statement t = .ok after) :
    ∃ owner, LockOk after owner := by
  cases h.queues.executes taken with
  | asserts place =>
    obtain ⟨same, awake⟩ := MonitorPc.asserted_owns place
    exact h.moves rfl rfl (fun _ => rfl) rfl same awake
  | lockDown place => exact h.lockDown (by rcases place with here | here <;> rw [here] <;> rfl)
  | tryDown place => exact h.tryDown place
  | assigns place =>
    obtain ⟨own, awake⟩ : (m.pc t).owns = true ∧ (m.pc t).blocked = false := by
      rcases place with here | ⟨c, here⟩ <;> rw [here] <;> exact ⟨rfl, rfl⟩
    exact ⟨owner, h.queues.moves rfl (fun _ => rfl) rfl awake rfl,
      h.owned.assigned rfl rfl own rfl rfl⟩
  | clears place =>
    exact ⟨owner, h.queues.moves rfl (fun _ => rfl) rfl (by rw [place]; rfl) rfl,
      h.owned.assigned rfl rfl (by rw [place]; rfl) rfl rfl⟩
  | ups place nobody => exact ⟨none, h.ups place nobody⟩
  | unblocks place list waits => exact ⟨none, h.unblocks place list waits⟩
  | initialises place =>
    refine h.moves rfl rfl (fun p => ?_) rfl (by rw [place]; rfl) rfl
    obtain ⟨_, empty⟩ := h.queues.not_waiting (t := t) (by rw [place]; rfl)
    refine (update_waiters _ p).trans ?_
    simp +contextual [empty]
  | waiterDown place => exact h.waiterDown place
  | @popsNobody c place =>
    refine h.moves rfl rfl (fun _ => rfl) rfl ?_ ?_
    · rw [place]
      cases c <;> rfl
    · cases c <;> rfl
  | signals place awake => exact h.signals place awake
  | wakes place blocked => exact h.wakes place blocked
  | pushes place | pops place | loops place | ends place =>
    exact h.moves rfl rfl (fun _ => rfl) rfl (by rw [place]; rfl) rfl

theorem LockOk.step (h : LockOk m owner) {e : MonitorEvent} (taken : m.step e = .ok after) :
    ∃ owner, LockOk after owner := by
  cases e with
  | call t op =>
    simp only [Monitor.step] at taken
    split at taken
    · rename_i place
      cases taken
      refine h.moves rfl rfl (fun _ => rfl) rfl ?_ ?_
      · rw [place]
        cases op <;> rfl
      · cases op <;> rfl
    · cases taken
  | run t => exact h.statement taken

theorem reachable_lockOk (h : Reachable monitorSystem m) : ∃ owner, LockOk m owner := by
  refine Reachable.invariant (P := fun m => ∃ owner, LockOk m owner) ?_ ?_ h
  · rintro m rfl
    refine ⟨none, ⟨fun p => ?_, nodup_nil, fun p => rfl⟩, fun p => ?_, rfl, fun p => ?_⟩
    · exact iff_of_false not_mem_nil (by simp [Monitor.init, MonitorPc.lockBlocked])
    · exact iff_of_false (by simp [Monitor.init, MonitorPc.owns]) (by rintro ⟨⟩)
    · exact iff_of_false (by rintro ⟨⟩) (by simp [Monitor.init, MonitorPc.holds, MonitorPc.owns])
  · rintro m e after _ ⟨owner, ok⟩ taken
    exact ok.step taken

/-- No assertion fails: neither about `holder` nor that a thread to unblock is blocked. -/
theorem LockOk.asserts (h : LockOk m owner) (e : MonitorEvent) : m.step e ≠ .error .assertion := by
  have held : ∀ {t : Page} {pc : MonitorPc}, (m.pc t).holds = true →
      m.assertHeld t pc ≠ .error .assertion := by
    intro t pc holds
    have mine := (h.owned.holder t).mpr holds
    simp [Monitor.assertHeld, Monitor.lockHeldByCurrentThread, mine]
  have notHeld : ∀ {t : Page} {pc : MonitorPc}, (m.pc t).holds = false →
      m.assertNotHeld t pc ≠ .error .assertion := by
    intro t pc holds
    have other : m.holder ≠ some t := by
      rw [Ne, h.owned.holder, holds]
      simp
    simp [Monitor.assertNotHeld, Monitor.lockHeldByCurrentThread, other]
  cases e with
  | call t op =>
    simp only [Monitor.step]
    split <;> simp
  | run t =>
    simp only [Monitor.step]
    cases place : m.pc t with
    | acquireAssert | tryAssert =>
      simp only [Monitor.statement, place]
      exact notHeld (by rw [place]; rfl)
    | releaseAssert | waitAssert | signalAssert =>
      simp only [Monitor.statement, place]
      exact held (by rw [place]; rfl)
    | releaseUp c =>
      simp only [Monitor.statement, place]
      rcases h.queues.unblockFirst_lock with ⟨_, same⟩ | ⟨_, _, _, _, _, woken⟩
      · simp [same, Except.map]
      · simp [woken, Except.map]
    | signalUp c w =>
      simp [Monitor.statement, place, h.queues.unblockFirst_signal, Except.map]
    | signalPop c =>
      simp only [Monitor.statement, place]
      split <;> simp
    | broadcastLoop =>
      simp only [Monitor.statement, place]
      split <;> simp
    | _ => simp [Monitor.statement, place]

end
end Calendarizador.Source
