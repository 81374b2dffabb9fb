import Calendarizador.Foundation.History
import Calendarizador.Invariant.Lock

/-!
# Where a signal is

A `cond_wait` puts an element on the list of the condition and later downs the semaphore in
it; a `cond_signal` takes the first element and later ups its semaphore. The record of a run
stamps the elements and counts, for each `cond_wait`, the signals directed at it and those
delivered to its semaphore. `SignalOk` says where the unit of a signal is at each stage of
the waiter.
-/
namespace Calendarizador.Source
open Foundation Function List

/-- The stages of a `cond_wait`. -/
inductive WaitStage where
  | away
  /-- The semaphore is initialised and not yet on the list. -/
  | pushing
  /-- On the way to `sema_down`, with the element on the list or already popped. -/
  | queued
  | blocked
  | retesting
  /-- Past `sema_down`, acquiring the lock again. -/
  | past
  deriving DecidableEq, Repr

/-- Between the push and the return. -/
def WaitStage.inside : WaitStage → Bool
  | .away | .pushing => false
  | .queued | .blocked | .retesting | .past => true

/-- What the semaphore of the element holds, given the number of signals delivered to it. -/
def WaitStage.Units (value delivered : Nat) : WaitStage → Prop
  | .away => True
  | .pushing => value = 0
  | .queued => value = delivered
  | .blocked => value = 0 ∧ delivered = 0
  | .retesting => value = 1 ∧ delivered = 1
  | .past => value = 0 ∧ delivered = 1

namespace MonitorPc

def waitStage : MonitorPc → WaitStage
  | .waitPush => .pushing
  | .releaseAssert .wait | .releaseHolder .wait | .releaseUp .wait | .waitDown => .queued
  | .waitBlocked => .blocked
  | .waitRetest => .retesting
  | .acquireAssert .wait | .acquireDown .wait | .acquireBlocked .wait | .acquireRetest .wait
  | .acquireHolder .wait => .past
  | _ => .away

/-- The waiter whose element the thread has popped and not yet upped. -/
def raises : MonitorPc → Option Page
  | .signalUp _ w => some w
  | _ => none

end MonitorPc

/-- For each thread, about its latest `cond_wait`. -/
structure WaitLog where
  clock : Nat
  enqueuedAt : Page → Nat
  directed : Page → Nat
  delivered : Page → Nat

def logWaits (m : Monitor) (e : MonitorEvent) (log : WaitLog) : WaitLog :=
  match e with
  | .call _ _ => log
  | .run t =>
    match m.pc t with
    | .waitPush =>
      { clock := log.clock + 1
        enqueuedAt := Function.update log.enqueuedAt t log.clock
        directed := Function.update log.directed t 0
        delivered := Function.update log.delivered t 0 }
    | .signalPop _ =>
      match m.waiters with
      | [] => log
      | w :: _ => { log with directed := Function.update log.directed w (log.directed w + 1) }
    | .signalUp _ w =>
      { log with delivered := Function.update log.delivered w (log.delivered w + 1) }
    | _ => log

/-- The thread is in a `cond_wait`, on the list or past it. -/
def Monitor.inWait (m : Monitor) (p : Page) : Prop := (m.pc p).waitStage.inside = true

structure WaiterOk (m : Monitor) (log : WaitLog) (p : Page) : Prop where
  units : (m.pc p).waitStage.Units (m.signal p).value (log.delivered p)
  /-- The list holds the waiters at which no signal was directed. -/
  queue : p ∈ m.waiters ↔ m.inWait p ∧ log.directed p = 0
  raised : ∀ t, (m.pc t).raises = some p →
    m.inWait p ∧ log.directed p = 1 ∧ log.delivered p = 0
  settled : m.inWait p → log.delivered p = log.directed p ∨ ∃ t, (m.pc t).raises = some p
  once : m.inWait p → log.directed p ≤ 1

structure SignalOk (m : Monitor) (log : WaitLog) : Prop where
  waiter : ∀ p, WaiterOk m log p
  order : m.waiters.Pairwise fun p q => log.enqueuedAt p < log.enqueuedAt q
  clock : ∀ p ∈ m.waiters, log.enqueuedAt p < log.clock

section
variable {m after : Monitor} {log log' : WaitLog} {t : Page} {pc : MonitorPc}
variable {p w : Page} {c : SignalCaller} {owner : Option Page}

theorem inWait_moved (moved : after.pc = update m.pc t pc) (other : p ≠ t) :
    after.inWait p ↔ m.inWait p := by
  rw [Monitor.inWait, moved, update_of_ne other, Monitor.inWait]

theorem inWait_stage (moved : after.pc = update m.pc t pc)
    (same : pc.waitStage.inside = (m.pc t).waitStage.inside) (p : Page) :
    after.inWait p ↔ m.inWait p := by
  by_cases here : p = t
  · rw [here, Monitor.inWait, moved, update_self, same, Monitor.inWait]
  · exact inWait_moved moved here

/-- A signal takes nobody into a `cond_wait` or out of it. -/
theorem inWait_signalUp (place : m.pc t = .signalUp c w) (moved : after.pc t = c.signalled)
    (woken : after.pc w = if m.pc w = .waitBlocked then .waitRetest else m.pc w)
    (others : ∀ p, p ≠ t → p ≠ w → after.pc p = m.pc p) (p : Page) :
    after.inWait p ↔ m.inWait p := by
  unfold Monitor.inWait
  by_cases here : p = w
  · rw [here, woken]
    split
    · rename_i blocked
      rw [blocked]
      rfl
    · exact Iff.rfl
  · by_cases self : p = t
    · rw [self, moved, place]
      cases c <;> exact Iff.rfl
    · rw [others p self here]

theorem raises_moved (moved : after.pc = update m.pc t pc)
    (same : pc.raises = (m.pc t).raises) (q : Page) : (after.pc q).raises = (m.pc q).raises := by
  rw [moved, update_apply]
  by_cases here : q = t <;> simp [here, same]

/-- Nothing changed about a waiter but its stage. -/
theorem WaiterOk.frame (h : WaiterOk m log p)
    (units : (after.pc p).waitStage.Units (after.signal p).value (log'.delivered p))
    (queue : p ∈ after.waiters ↔ p ∈ m.waiters) (inWait : after.inWait p ↔ m.inWait p)
    (raises : ∀ q, (after.pc q).raises = some p ↔ (m.pc q).raises = some p)
    (directed : log'.directed p = log.directed p)
    (delivered : log'.delivered p = log.delivered p) : WaiterOk after log' p where
  units := units
  queue := by rw [queue, inWait, directed, h.queue]
  raised := by
    simp only [raises, inWait, directed, delivered]
    exact h.raised
  settled := by
    simp only [raises, inWait, directed, delivered]
    exact h.settled
  once := by
    rw [inWait, directed]
    exact h.once

/-- The list is the same, and so is who is in a `cond_wait` and who is about to be upped. -/
theorem SignalOk.frame (h : SignalOk m log) (waiters : after.waiters = m.waiters)
    (units : ∀ p, (after.pc p).waitStage.Units (after.signal p).value (log.delivered p))
    (inside : ∀ p, (after.pc p).waitStage.inside = (m.pc p).waitStage.inside)
    (raises : ∀ p, (after.pc p).raises = (m.pc p).raises) : SignalOk after log := by
  refine ⟨fun p => (h.waiter p).frame (units p) (by rw [waiters]) ?_ (fun q => by rw [raises]) rfl
    rfl, waiters ▸ h.order, waiters ▸ h.clock⟩
  rw [Monitor.inWait, inside, Monitor.inWait]

/-- One thread moves to another stage, and its semaphore with it. -/
theorem SignalOk.restage (h : SignalOk m log) (waiters : after.waiters = m.waiters)
    (values : ∀ p, p ≠ t → (after.signal p).value = (m.signal p).value)
    (moved : after.pc = update m.pc t pc)
    (units : pc.waitStage.Units (after.signal t).value (log.delivered t))
    (inside : pc.waitStage.inside = (m.pc t).waitStage.inside)
    (raises : pc.raises = (m.pc t).raises) : SignalOk after log := by
  refine h.frame waiters (fun p => ?_) (fun p => ?_) (raises_moved moved raises)
  · by_cases here : p = t
    · rw [here, moved, update_self]
      exact units
    · rw [moved, update_of_ne here, values p here]
      exact (h.waiter p).units
  · rw [moved, update_apply]
    by_cases here : p = t <;> simp [here, inside]

/-- A move of one thread within its stage. -/
theorem SignalOk.moves (h : SignalOk m log) (waiters : after.waiters = m.waiters)
    (signal : after.signal = m.signal) (moved : after.pc = update m.pc t pc)
    (same : (pc.waitStage, pc.raises) = ((m.pc t).waitStage, (m.pc t).raises)) :
    SignalOk after log := by
  simp only [Prod.mk.injEq] at same
  refine h.restage waiters (fun p _ => by rw [signal]) moved ?_ (by rw [same.1]) same.2
  rw [signal, same.1]
  exact (h.waiter t).units

/-- A thread in a `cond_wait` has been delivered at most one signal. -/
theorem SignalOk.delivered_le (h : SignalOk m log) (inside : m.inWait p) : log.delivered p ≤ 1 := by
  rcases (h.waiter p).settled inside with same | ⟨q, raised⟩
  · rw [same]
    exact (h.waiter p).once inside
  · rw [((h.waiter p).raised q raised).2.2]
    exact Nat.zero_le 1

/-- A delivered signal was directed. -/
theorem SignalOk.directed_of_delivered (h : SignalOk m log) (inside : m.inWait p)
    (delivered : log.delivered p = 1) : log.directed p = 1 := by
  rcases (h.waiter p).settled inside with same | ⟨q, raised⟩
  · rw [← same, delivered]
  · exact ((h.waiter p).raised q raised).2.1

/-- A thread past its `sema_down` is neither on the list nor about to be upped. -/
theorem SignalOk.past (h : SignalOk m log) (past : (m.pc t).waitStage = .past) :
    log.directed t = 1 ∧ log.delivered t = 1 ∧ t ∉ m.waiters ∧
      ∀ q, (m.pc q).raises ≠ some t := by
  have inside : m.inWait t := by rw [Monitor.inWait, past]; rfl
  have units := (h.waiter t).units
  rw [past] at units
  have directed := h.directed_of_delivered inside units.2
  refine ⟨directed, units.2, fun member => ?_, fun q raised => ?_⟩
  · cases directed.symm.trans ((h.waiter t).queue.mp member).2
  · cases units.2.symm.trans ((h.waiter t).raised q raised).2.2

/-- `cond_wait` returns. -/
theorem SignalOk.leaves (h : SignalOk m log) (past : (m.pc t).waitStage = .past)
    (waiters : after.waiters = m.waiters) (signal : after.signal = m.signal)
    (moved : after.pc = update m.pc t .holding) : SignalOk after log := by
  obtain ⟨_, _, gone, idle⟩ := h.past past
  have out : ¬ after.inWait t := by simp [Monitor.inWait, moved, MonitorPc.waitStage,
    WaitStage.inside]
  have raises : ∀ q, (after.pc q).raises = (m.pc q).raises := by
    refine raises_moved moved ?_
    cases place : m.pc t <;> first | rfl | (rw [place] at past; cases past)
  refine ⟨fun p => ?_, waiters ▸ h.order, waiters ▸ h.clock⟩
  by_cases here : p = t
  · subst here
    refine ⟨?_, iff_of_false (waiters ▸ gone) fun both => out both.1, fun q raised => ?_,
      fun inside => absurd inside out, fun inside => absurd inside out⟩
    · rw [moved, update_self]
      trivial
    · exact absurd (raises q ▸ raised) (idle q)
  · refine (h.waiter p).frame ?_ (by rw [waiters]) (inWait_moved moved here)
      (fun q => by rw [raises]) rfl rfl
    rw [moved, update_of_ne here, signal]
    exact (h.waiter p).units

/-- `cond_wait` puts its element at the end of the list. -/
theorem SignalOk.pushes (h : SignalOk m log) (place : m.pc t = .waitPush)
    (waiters : after.waiters = m.waiters ++ [t]) (signal : after.signal = m.signal)
    (moved : after.pc = update m.pc t (.releaseAssert .wait)) :
    SignalOk after (logWaits m (.run t) log) := by
  have out : ¬ m.inWait t := by simp [Monitor.inWait, place, MonitorPc.waitStage,
    WaitStage.inside]
  have inside : after.inWait t := by simp [Monitor.inWait, moved, MonitorPc.waitStage,
    WaitStage.inside]
  have fresh : ∀ {p}, p ∈ m.waiters → p ≠ t := by
    rintro _ member rfl
    exact out ((h.waiter _).queue.mp member).1
  have raises : ∀ q, (after.pc q).raises = (m.pc q).raises :=
    raises_moved moved (by rw [place]; rfl)
  simp only [logWaits, place]
  refine ⟨fun p => ?_, ?_, fun p member => ?_⟩
  · by_cases here : p = t
    · subst here
      have units := (h.waiter p).units
      rw [place] at units
      refine ⟨?_, iff_of_true (by simp [waiters]) ⟨inside, by simp⟩, fun q raised => ?_,
        fun _ => .inl (by simp), fun _ => by simp⟩
      · rw [moved, update_self, signal]
        simp only [update_self]
        exact units
      · exact absurd ((h.waiter p).raised q (raises q ▸ raised)).1 out
    · refine (h.waiter p).frame ?_ (by simp [waiters, here]) (inWait_moved moved here)
        (fun q => by rw [raises]) (by simp [here]) (by simp [here])
      rw [moved, update_of_ne here, signal]
      simp only [update_of_ne here]
      exact (h.waiter p).units
  · rw [waiters, pairwise_append]
    refine ⟨h.order.imp_of_mem fun {p q} first second before => ?_, pairwise_singleton _ _,
      fun p member q last => ?_⟩
    · simp only [update_of_ne (fresh first), update_of_ne (fresh second)]
      exact before
    · simp only [mem_singleton.mp last, update_self, update_of_ne (fresh member)]
      exact h.clock p member
  · rw [waiters, mem_append, mem_singleton] at member
    by_cases here : p = t
    · simp [here]
    · simp only [update_of_ne here]
      exact Nat.lt_succ_of_lt (h.clock p (member.resolve_right here))

/-- `cond_signal` pops the first element: the signal is now directed at its waiter. -/
theorem SignalOk.pops (h : SignalOk m log) {rest : List Page} (place : m.pc t = .signalPop c)
    (list : m.waiters = w :: rest) (waiters : after.waiters = rest)
    (signal : after.signal = m.signal) (moved : after.pc = update m.pc t (.signalUp c w)) :
    SignalOk after (logWaits m (.run t) log) := by
  have stages : ∀ p, (after.pc p).waitStage = (m.pc p).waitStage := by
    intro p
    rw [moved, update_apply]
    by_cases here : p = t <;> simp [here, place, MonitorPc.waitStage]
  have inWait : ∀ p, after.inWait p ↔ m.inWait p := by
    intro p
    rw [Monitor.inWait, stages, Monitor.inWait]
  have raises : ∀ {p}, p ≠ w → ∀ q, (after.pc q).raises = some p ↔ (m.pc q).raises = some p := by
    intro p other q
    rw [moved, update_apply]
    by_cases here : q = t <;> simp [here, place, MonitorPc.raises, Ne.symm other]
  have units : ∀ p, (after.pc p).waitStage.Units (after.signal p).value (log.delivered p) := by
    intro p
    rw [stages, signal]
    exact (h.waiter p).units
  obtain ⟨waits, undirected⟩ := (h.waiter w).queue.mp (by rw [list]; exact mem_cons_self)
  have undelivered : log.delivered w = 0 := by
    rcases (h.waiter w).settled waits with same | ⟨q, raised⟩
    · rw [same, undirected]
    · exact ((h.waiter w).raised q raised).2.2
  have order := h.order
  rw [list, pairwise_cons] at order
  have gone : w ∉ rest := fun member => Nat.lt_irrefl _ (order.1 w member)
  simp only [logWaits, place, list]
  refine ⟨fun p => ?_, waiters ▸ order.2, fun p member => ?_⟩
  · by_cases here : p = w
    · subst here
      refine ⟨units p, by simp [waiters, gone], fun q _ => ?_, fun _ => .inr ⟨t, ?_⟩,
        fun _ => by simp [undirected]⟩
      · exact ⟨(inWait p).mpr waits, by simp [undirected], undelivered⟩
      · rw [moved, update_self]
        rfl
    · exact (h.waiter p).frame (units p) (by simp [waiters, list, here]) (inWait p) (raises here)
        (by simp [here]) rfl
  · rw [waiters] at member
    exact h.clock p (by rw [list]; exact mem_cons_of_mem w member)

/-- The unit of a signal delivered to a waiter. -/
theorem WaiterOk.units_up (h : WaiterOk m log w) (waits : m.inWait w)
    (undelivered : log.delivered w = 0)
    (woken : after.pc w = if m.pc w = .waitBlocked then .waitRetest else m.pc w) :
    (after.pc w).waitStage.Units (m.signal w).up.value 1 := by
  have units := h.units
  rw [undelivered] at units
  rw [woken, Semaphore.up]
  by_cases blocked : m.pc w = .waitBlocked
  · rw [blocked] at units
    rw [if_pos blocked, units.1]
    exact ⟨rfl, rfl⟩
  rw [if_neg blocked]
  -- past the block the signal would have been delivered before
  cases stage : (m.pc w).waitStage with
  | away | pushing =>
    rw [Monitor.inWait, stage] at waits
    cases waits
  | queued =>
    rw [stage] at units
    rw [units]
    rfl
  | blocked =>
    refine absurd ?_ blocked
    cases place : m.pc w <;> rw [place] at stage <;> first
      | rfl
      | cases stage
      | (rename_i caller; cases caller <;> cases stage)
  | retesting | past =>
    rw [stage] at units
    cases units.2

/-- `cond_signal` ups the semaphore in the element it popped: the signal is delivered. -/
theorem SignalOk.ups (h : SignalOk m log) (place : m.pc t = .signalUp c w)
    (alone : ∀ q, (m.pc q).raises = some w → q = t) (waiters : after.waiters = m.waiters)
    (signal : after.signal = update m.signal w (m.signal w).up) (moved : after.pc t = c.signalled)
    (woken : after.pc w = if m.pc w = .waitBlocked then .waitRetest else m.pc w)
    (others : ∀ p, p ≠ t → p ≠ w → after.pc p = m.pc p) :
    SignalOk after (logWaits m (.run t) log) := by
  obtain ⟨waits, directed, undelivered⟩ := (h.waiter w).raised t (by rw [place]; rfl)
  have inWait := inWait_signalUp place moved woken others
  obtain ⟨stays, silent⟩ : (after.pc t).waitStage = (m.pc t).waitStage ∧
      (after.pc t).raises = none := by
    rw [moved, place]
    cases c <;> exact ⟨rfl, rfl⟩
  have raises : ∀ q, q ≠ t → (after.pc q).raises = (m.pc q).raises := by
    intro q other
    by_cases here : q = w
    · rw [here, woken]
      by_cases blocked : m.pc w = .waitBlocked
      · rw [if_pos blocked, blocked]
        rfl
      · rw [if_neg blocked]
    · rw [others q other here]
  simp only [logWaits, place]
  refine ⟨fun p => ?_, waiters ▸ h.order, waiters ▸ h.clock⟩
  by_cases here : p = w
  · subst here
    have delivered : update log.delivered p (log.delivered p + 1) p = 1 := by simp [undelivered]
    refine ⟨?_, ?_, fun q raised => ?_, fun _ => .inl (delivered.trans directed.symm),
      fun _ => directed.le⟩
    · simp only [delivered, signal, update_self]
      exact (h.waiter p).units_up waits undelivered woken
    · rw [waiters, inWait, (h.waiter p).queue]
    · by_cases self : q = t
      · rw [self, silent] at raised
        cases raised
      · exact absurd (alone q (raises q self ▸ raised)) self
  · refine (h.waiter p).frame ?_ (by rw [waiters]) (inWait p) (fun q => ?_) rfl (by simp [here])
    · rw [signal]
      simp only [update_of_ne here]
      by_cases self : p = t
      · rw [self, stays]
        exact (h.waiter t).units
      · rw [others p self here]
        exact (h.waiter p).units
    · by_cases self : q = t
      · rw [self, silent, place]
        simp [MonitorPc.raises, Ne.symm here]
      · rw [raises q self]

theorem SignalOk.waiterDown (h : SignalOk m log)
    (place : m.pc t = .waitDown ∨ m.pc t = .waitRetest) : SignalOk (m.waiterDown t) log := by
  have inside : m.inWait t := by
    unfold Monitor.inWait
    rcases place with here | here <;> rw [here] <;> rfl
  have quiet : (m.pc t).raises = none := by
    rcases place with here | here <;> rw [here] <;> rfl
  have units : (m.signal t).value = log.delivered t := by
    have units := (h.waiter t).units
    rcases place with here | here
    · rw [here] at units
      exact units
    · rw [here] at units
      exact units.1.trans units.2.symm
  have values : ∀ p, p ≠ t → ((m.waiterDown t).signal p).value = (m.signal p).value := by
    intro p other
    change (update m.signal t _ p).value = _
    rw [update_of_ne other]
  have own : (m.waiterDown t).signal t = (m.signal t).down t := update_self ..
  by_cases zero : (m.signal t).value = 0
  · have moved : (m.waiterDown t).pc = update m.pc t .waitBlocked := by
      simp [Monitor.waiterDown, Monitor.goto, zero]
    refine h.restage rfl values moved ?_ inside.symm quiet.symm
    rw [own, Semaphore.down, if_pos zero]
    exact ⟨zero, units.symm.trans zero⟩
  · have moved : (m.waiterDown t).pc = update m.pc t (.acquireAssert .wait) := by
      simp [Monitor.waiterDown, Monitor.goto, zero]
    refine h.restage rfl values moved ?_ inside.symm quiet.symm
    have few := h.delivered_le inside
    have one : log.delivered t = 1 := by omega
    rw [own, Semaphore.down, if_neg zero]
    refine ⟨?_, one⟩
    change (m.signal t).value - 1 = 0
    omega

theorem SignalOk.lockDown (h : SignalOk m log) {c : LockCaller}
    (place : m.pc t = .acquireDown c ∨ m.pc t = .acquireRetest c) :
    SignalOk (m.lockDown t c) log := by
  refine h.moves rfl rfl rfl ?_
  rcases place with here | here
  all_goals
    rw [here]
    split <;> cases c <;> rfl

theorem SignalOk.unblocks (h : SignalOk m log) {c d : LockCaller} {q : Page}
    (place : m.pc t = .releaseUp c) (waits : m.pc q = .acquireBlocked d) :
    SignalOk ({ m.goto q (.acquireRetest d) with lock := m.lock.up }.goto t c.released) log := by
  have middle : SignalOk (m.goto q (.acquireRetest d)) log := by
    refine h.moves rfl rfl rfl ?_
    rw [waits]
    cases d <;> rfl
  refine middle.moves (t := t) rfl rfl rfl ?_
  have other : t ≠ q := by
    rintro rfl
    cases place.symm.trans waits
  have still : (m.goto q (.acquireRetest d)).pc t = m.pc t := update_of_ne other ..
  rw [still, place]
  cases c <;> rfl

/-- What the `sema_up` of `cond_signal` does. -/
theorem signalUp_effects (queues : Queues m) (place : m.pc t = .signalUp c w) (other : t ≠ w) :
    ∃ after, m.statement t = .ok after ∧ after.waiters = m.waiters ∧ after.holder = m.holder ∧
      after.signal = update m.signal w (m.signal w).up ∧ after.pc t = c.signalled ∧
      (after.pc w = if m.pc w = .waitBlocked then .waitRetest else m.pc w) ∧
      ∀ p, p ≠ t → p ≠ w → after.pc p = m.pc p := by
  simp only [Monitor.statement, place, queues.unblockFirst_signal, Except.map]
  split
  · refine ⟨_, rfl, rfl, rfl, rfl, update_self .., ?_, fun p first second => ?_⟩
    · simp [Monitor.goto, Ne.symm other]
    · simp [Monitor.goto, first, second]
  · refine ⟨_, rfl, rfl, rfl, rfl, update_self .., ?_, fun p first second => ?_⟩
    · simp [Monitor.goto, Ne.symm other]
    · simp [Monitor.goto, first]

theorem SignalOk.raised_ne (h : SignalOk m log) (place : m.pc t = .signalUp c w) : t ≠ w := by
  rintro rfl
  have waits := ((h.waiter t).raised t (by rw [place]; rfl)).1
  rw [Monitor.inWait, place] at waits
  cases waits

theorem SignalOk.signalUp (h : SignalOk m log) (lock : LockOk m owner)
    (place : m.pc t = .signalUp c w) (taken : m.statement t = .ok after) :
    SignalOk after (logWaits m (.run t) log) := by
  obtain ⟨done, executed, waiters, _, signal, moved, woken, others⟩ :=
    signalUp_effects lock.queues place (h.raised_ne place)
  cases executed.symm.trans taken
  refine h.ups place (fun q raises => ?_) waiters signal moved woken others
  refine lock.unique ?_ (by rw [place]; rfl)
  cases at_q : m.pc q <;> rw [at_q] at raises <;> first | rfl | cases raises

theorem MonitorPc.asserted_stage {pc next : MonitorPc} (h : pc.asserted = some next) :
    (next.waitStage, next.raises) = (pc.waitStage, pc.raises) := by
  cases pc <;> cases h <;> first | rfl | (rename_i c; cases c <;> rfl)

theorem logWaits_asserts (place : (m.pc t).asserted = some pc) : logWaits m (.run t) log = log := by
  cases here : m.pc t <;> rw [here] at place <;> cases place <;> simp only [logWaits, here]

theorem SignalOk.statement (h : SignalOk m log) (lock : LockOk m owner)
    (taken : m.statement t = .ok after) : SignalOk after (logWaits m (.run t) log) := by
  cases lock.queues.executes taken with
  | asserts place =>
    rw [logWaits_asserts place]
    exact h.moves rfl rfl rfl (MonitorPc.asserted_stage place)
  | lockDown place =>
    have unlogged : logWaits m (.run t) log = log := by
      rcases place with here | here <;> simp only [logWaits, here]
    rw [unlogged]
    exact h.lockDown place
  | tryDown place =>
    simp only [logWaits, place]
    refine h.moves rfl rfl rfl ?_
    rw [place]
    split <;> rfl
  | assigns place =>
    rcases place with here | ⟨c, here⟩
    all_goals simp only [logWaits, here]
    · exact h.moves rfl rfl rfl (by rw [here]; rfl)
    · cases c with
      | user => exact h.moves rfl rfl rfl (by rw [here]; rfl)
      | wait => exact h.leaves (t := t) (by rw [here]; rfl) rfl rfl rfl
  | @clears c place | @ups c place =>
    simp only [logWaits, place]
    refine h.moves rfl rfl rfl ?_
    rw [place]
    cases c <;> rfl
  | unblocks place _ waits =>
    simp only [logWaits, place]
    exact h.unblocks place waits
  | initialises place =>
    simp only [logWaits, place]
    refine h.restage (t := t) rfl (fun p other => ?_) rfl ?_ (by rw [place]; rfl)
      (by rw [place]; rfl)
    · change (update m.signal t _ p).value = _
      rw [update_of_ne other]
    · change (update m.signal t _ t).value = 0
      rw [update_self]
  | pushes place => exact h.pushes place rfl rfl rfl
  | waiterDown place =>
    have unlogged : logWaits m (.run t) log = log := by
      rcases place with here | here <;> simp only [logWaits, here]
    rw [unlogged]
    exact h.waiterDown place
  | @popsNobody c place nobody =>
    simp only [logWaits, place, nobody]
    refine h.moves rfl rfl rfl ?_
    rw [place]
    cases c <;> rfl
  | pops place list => exact h.pops place list rfl rfl rfl
  | signals place | wakes place => exact h.signalUp lock place taken
  | loops place | ends place =>
    simp only [logWaits, place]
    exact h.moves rfl rfl rfl (by rw [place]; rfl)

theorem SignalOk.step (h : SignalOk m log) (lock : LockOk m owner) {e : MonitorEvent}
    (taken : m.step e = .ok after) : SignalOk after (logWaits m e log) := by
  cases e with
  | call t op =>
    simp only [Monitor.step] at taken
    split at taken
    · rename_i place
      cases taken
      refine h.moves rfl rfl rfl ?_
      rw [place]
      cases op <;> rfl
    · cases taken
  | run t => exact h.statement lock taken

end
end Calendarizador.Source
