import Calendarizador.Invariant.Broadcast

/-!
# Condition variables lose no signal

Any number of threads use one condition variable with its lock, under any scheduling. The
record of the run counts the signals directed at and delivered to each `cond_wait`, and stamps
the moment at which it entered the list.

* `leaves_wait`: a `cond_wait` ends only with the lock and after one signal.
* `pops_longest`, `raises_waiter`, `passes_sema`: a signal goes to the waiter that entered the
  list first and takes it past its `sema_down`, whether or not it has reached that yet.
* `broadcast_returns`: what has happened when a `cond_broadcast` returns.
-/
namespace Calendarizador.Guarantees
open Foundation Source Function List

/-- In a `cond_wait`, on the list, and not signalled yet. -/
def Unsignalled (m : Monitor) (log : WaitLog) (p : Page) : Prop :=
  m.inWait p ∧ log.directed p = 0

section
variable {m after : Monitor} {waits : WaitLog} {log : BroadcastLog} {owner : Option Page}
  {t p : Page}

theorem inside_unblocked {pc next : MonitorPc} (h : pc.unblocked = some next) :
    next.waitStage.inside = pc.waitStage.inside := by
  cases pc with
  | acquireBlocked c =>
    cases h
    cases c <;> rfl
  | waitBlocked =>
    cases h
    rfl
  | _ => cases h

/-- The only way out of a `cond_wait` is its last statement. -/
theorem wait_last (lock : LockOk m owner) {e : MonitorEvent} (taken : m.step e = .ok after)
    (inside : m.inWait p) (outside : ¬ after.inWait p) :
    e = .run p ∧ m.pc p = .acquireHolder .wait := by
  by_cases other : p ≠ e.actor
  · rcases step_others lock taken other with same | unblocked
    · rw [Monitor.inWait, same] at outside
      exact absurd inside outside
    · rw [Monitor.inWait, inside_unblocked unblocked] at outside
      exact absurd inside outside
  · rw [not_not] at other
    subst other
    cases e with
    | call t op =>
      simp only [Monitor.step] at taken
      split at taken
      · rename_i place
        change m.inWait t at inside
        rw [Monitor.inWait, place] at inside
        cases op <;> cases inside
      · cases taken
    | run t =>
      change m.inWait t at inside
      change ¬ after.inWait t at outside
      refine ⟨rfl, ?_⟩
      cases lock.queues.executes taken with
      | assigns place =>
        rcases place with here | ⟨c, here⟩
        · rw [Monitor.inWait, here] at inside
          cases inside
        · cases c with
          | wait => exact here
          | user =>
            rw [Monitor.inWait, here] at inside
            cases inside
      | @clears c place | @ups c place | @unblocks c _ _ _ place =>
        simp only [Monitor.inWait, Monitor.goto, update_self] at outside
        rw [Monitor.inWait, place] at inside
        cases c with
        | user => cases inside
        | wait => exact absurd rfl outside
      | asserts place =>
        rw [inWait_stage rfl] at outside
        · exact absurd inside outside
        · rw [(Prod.mk.inj (MonitorPc.asserted_stage place)).1]
      | lockDown place | waiterDown place =>
        have owns : (m.pc t).owns = false := by
          rcases place with here | here <;> rw [here] <;> rfl
        obtain ⟨_, _, _, pc, moved, stays⟩ := foreign_statement lock.queues owns taken
        rw [Monitor.inWait, moved, update_self] at outside
        exact absurd (stays inside) outside
      | tryDown place | initialises place | pushes place | popsNobody place | pops place
      | signals place | wakes place | loops place | ends place =>
        rw [Monitor.inWait, place] at inside
        cases inside

theorem leaves_wait (lock : LockOk m owner) (signals : SignalOk m waits) {e : MonitorEvent}
    (taken : m.step e = .ok after) (inside : m.inWait p) (outside : ¬ after.inWait p) :
    waits.directed p = 1 ∧ waits.delivered p = 1 ∧ after.pc p = .holding ∧
      after.holder = some p := by
  obtain ⟨rfl, place⟩ := wait_last lock taken inside outside
  obtain ⟨directed, delivered, _⟩ := signals.past (t := p) (by rw [place]; rfl)
  simp only [Monitor.step, Monitor.statement, place] at taken
  cases taken
  exact ⟨directed, delivered, update_self .., rfl⟩

/-- A signal pops the waiter that has been on the list for longest. -/
theorem pops_longest (signals : SignalOk m waits) {c : SignalCaller} (place : m.pc t = .signalPop c)
    (someone : ∃ q, Unsignalled m waits q) : ∃ w, Unsignalled m waits w ∧
      (∀ q, Unsignalled m waits q → q ≠ w → waits.enqueuedAt w < waits.enqueuedAt q) ∧
      ∃ after, m.step (.run t) = .ok after ∧ after.pc t = .signalUp c w ∧
        (logWaits m (.run t) waits).directed = update waits.directed w 1 := by
  obtain ⟨q, waiting⟩ := someone
  have member := (signals.waiter q).queue.mpr waiting
  cases list : m.waiters with
  | nil =>
    rw [list] at member
    cases member
  | cons w rest =>
    have first := (signals.waiter w).queue.mp (by rw [list]; exact mem_cons_self)
    have order := signals.order
    rw [list, pairwise_cons] at order
    refine ⟨w, first, fun q waiting other => ?_,
      { m with waiters := rest }.goto t (.signalUp c w), ?_, ?_, ?_⟩
    · have member := (signals.waiter q).queue.mpr waiting
      rw [list] at member
      exact order.1 q ((mem_cons.mp member).resolve_left other)
    · simp only [Monitor.step, Monitor.statement, place, list]
    · exact update_self ..
    · simp only [logWaits, place, list, first.2]

/-- The up gives the waiter its one unit, and touches nobody else. -/
theorem raises_waiter (lock : LockOk m owner) (signals : SignalOk m waits) {c : SignalCaller}
    {w : Page} (place : m.pc t = .signalUp c w) :
    m.inWait w ∧ waits.directed w = 1 ∧ waits.delivered w = 0 ∧
      ∃ after, m.step (.run t) = .ok after ∧ (after.signal w).value = 1 ∧
        (after.pc w = if m.pc w = .waitBlocked then .waitRetest else m.pc w) ∧
        (logWaits m (.run t) waits).delivered = update waits.delivered w 1 ∧
        ∀ q, q ≠ w → after.signal q = m.signal q ∧ (q ≠ t → after.pc q = m.pc q) := by
  obtain ⟨inside, directed, undelivered⟩ := (signals.waiter w).raised t (by rw [place]; rfl)
  obtain ⟨after, executed, _, _, signal, _, woken, others⟩ :=
    signalUp_effects lock.queues place (signals.raised_ne place)
  have zero : (m.signal w).value = 0 := by
    have units := (signals.waiter w).units
    rw [undelivered] at units
    rw [Monitor.inWait] at inside
    cases stage : (m.pc w).waitStage <;> rw [stage] at units inside <;> first
      | cases inside; done
      | exact units
      | exact units.1
      | cases units.2
  refine ⟨inside, directed, undelivered, after, executed, ?_, woken, ?_, fun q other => ⟨?_, ?_⟩⟩
  · rw [signal, update_self, Semaphore.up, zero]
  · simp only [logWaits, place, undelivered]
  · rw [signal, update_of_ne other]
  · exact fun different => others q different other

/-- A waiter whose signal was delivered does not block any more. -/
theorem passes_sema (signals : SignalOk m waits) (delivered : waits.delivered p = 1)
    (place : m.pc p = .waitDown ∨ m.pc p = .waitRetest) :
    ∃ after, m.step (.run p) = .ok after ∧ after.pc p = .acquireAssert .wait := by
  have unit : (m.signal p).value = 1 := by
    have units := (signals.waiter p).units
    rcases place with here | here
    · rw [here] at units
      exact Eq.trans units delivered
    · rw [here] at units
      exact units.1
  refine ⟨m.waiterDown p, ?_, ?_⟩
  · rcases place with here | here <;> simp only [Monitor.step, Monitor.statement, here]
  · simp [Monitor.waiterDown, Monitor.goto, unit]

/-- A broadcast is never blocked. -/
theorem broadcast_continues (lock : LockOk m owner) (inside : (m.pc t).broadcasts = true) :
    ∃ after, m.step (.run t) = .ok after := by
  simp only [Monitor.step]
  rcases MonitorPc.broadcasts_cases inside with place | place | place | ⟨w, place⟩
  · simp only [Monitor.statement, place]
    split <;> exact ⟨_, rfl⟩
  · have held : m.holder = some t := (lock.owned.holder t).mpr (by rw [place]; rfl)
    simp only [Monitor.statement, place]
    exact ⟨_, if_pos (by simpa [Monitor.lockHeldByCurrentThread] using held)⟩
  · simp only [Monitor.statement, place]
    split <;> exact ⟨_, rfl⟩
  · simp only [Monitor.statement, place, lock.queues.unblockFirst_signal, Except.map]
    exact ⟨_, rfl⟩

theorem broadcast_returns (signals : SignalOk m waits) {owner : Option Page} (lock : LockOk m owner)
    (broadcast : Broadcasting m t waits log) (place : m.pc t = .broadcastLoop)
    (empty : m.waiters = []) : log.signalled = log.enqueued ∧
      ∀ q ∈ log.enqueued, waits.directed q = 1 ∧ waits.delivered q = 1 := by
  have parts := broadcast.parts
  rw [empty, append_nil] at parts
  refine ⟨parts.symm, fun q member => ?_⟩
  obtain ⟨inside, directed⟩ := broadcast.signalled q (parts ▸ member)
  refine ⟨directed, ?_⟩
  rcases (signals.waiter q).settled inside with same | ⟨x, raises⟩
  · rw [same, directed]
  · -- The caller of the broadcast owns the lock, so nobody is inside a signal.
    exfalso
    have owns : (m.pc x).owns = true := by
      cases at_x : m.pc x <;> rw [at_x] at raises <;> first | rfl | cases raises
    rw [lock.unique owns (q := t) (by rw [place]; rfl), place] at raises
    cases raises

end

/-- Condition variables lose no signal. -/
theorem condition_signals (m : Monitor) (waits : WaitLog) (log : BroadcastLog)
    (h : Reachable signalRun (m, waits, log)) :
    -- A `cond_wait` returns with the lock, after exactly one signal.
    (∀ e after p, m.step e = .ok after → m.inWait p → ¬ after.inWait p →
      waits.directed p = 1 ∧ waits.delivered p = 1 ∧ after.pc p = .holding ∧
        after.holder = some p) ∧
    -- A signal goes to the waiter that has been enqueued for longest,
    (∀ t c, m.pc t = .signalPop c → (∃ q, Unsignalled m waits q) →
      ∃ w, Unsignalled m waits w ∧
        (∀ q, Unsignalled m waits q → q ≠ w → waits.enqueuedAt w < waits.enqueuedAt q) ∧
        ∃ after, m.step (.run t) = .ok after ∧ after.pc t = .signalUp c w ∧
          (logWaits m (.run t) waits).directed = Function.update waits.directed w 1) ∧
    (∀ t c w, m.pc t = .signalUp c w →
      m.inWait w ∧ waits.directed w = 1 ∧ waits.delivered w = 0 ∧
        ∃ after, m.step (.run t) = .ok after ∧ (after.signal w).value = 1 ∧
          (after.pc w = if m.pc w = .waitBlocked then .waitRetest else m.pc w) ∧
          (logWaits m (.run t) waits).delivered = Function.update waits.delivered w 1 ∧
          ∀ q, q ≠ w → after.signal q = m.signal q ∧ (q ≠ t → after.pc q = m.pc q)) ∧
    -- and takes that waiter past its `sema_down`.
    (∀ p, m.pc p = .waitBlocked → waits.delivered p = 0) ∧
    (∀ p, waits.delivered p = 1 → m.pc p = .waitDown ∨ m.pc p = .waitRetest →
      ∃ after, m.step (.run p) = .ok after ∧ after.pc p = .acquireAssert .wait) ∧
    -- Without a waiter a signal only moves its caller.
    (∀ t, m.pc t = .signalPop .user → (∀ q, ¬ Unsignalled m waits q) →
      m.step (.run t) = .ok (m.goto t .holding) ∧ logWaits m (.run t) waits = waits ∧
        logBroadcast m (.run t) log = log) ∧
    -- A broadcast starts with the waiters that are enqueued,
    (m.waiters.Nodup ∧ ∀ q, q ∈ m.waiters ↔ Unsignalled m waits q) ∧
    -- never blocks, ends after a fixed number of its own statements,
    (∀ t, (m.pc t).broadcasts = true → (∃ after, m.step (.run t) = .ok after) ∧
      log.enqueued.Nodup ∧ log.enqueued = log.signalled ++ m.waiters ∧
      0 < (m.pc t).broadcastLeft m.waiters.length ∧
      (m.pc t).broadcastLeft m.waiters.length + log.steps = 4 * log.enqueued.length + 1) ∧
    -- and has then signalled each of them once, and nobody else.
    (∀ t, m.pc t = .broadcastLoop → m.waiters = [] →
      m.step (.run t) = .ok (m.goto t .holding) ∧ log.signalled = log.enqueued ∧
        ∀ q ∈ log.enqueued, waits.directed q = 1 ∧ waits.delivered q = 1) := by
  obtain ⟨reached, signals, broadcast⟩ := reachable_signals h
  obtain ⟨owner, lock⟩ := reachable_lockOk reached
  refine ⟨?_, ?_, ?_, ?_, ?_, ?_, ?_, ?_, ?_⟩
  · exact fun e after p taken => leaves_wait lock signals taken
  · exact fun t c place => pops_longest signals place
  · exact fun t c w place => raises_waiter lock signals place
  · intro p place
    have units := (signals.waiter p).units
    rw [place] at units
    exact units.2
  · exact fun p => passes_sema signals
  · intro t place nobody
    have empty : m.waiters = [] := by
      refine eq_nil_iff_forall_not_mem.mpr fun q member => ?_
      exact nobody q ((signals.waiter q).queue.mp member)
    refine ⟨?_, ?_, ?_⟩
    · simp only [Monitor.step, Monitor.statement, place, empty]
      rfl
    · simp only [logWaits, place, empty]
    · simp [logBroadcast, place, empty, MonitorPc.broadcasts]
  · exact ⟨signals.nodup, fun q => (signals.waiter q).queue⟩
  · intro t inside
    exact ⟨broadcast_continues lock inside, (broadcast t inside).nodup, (broadcast t inside).parts,
      (broadcast t inside).left_pos inside, (broadcast t inside).steps⟩
  · intro t place empty
    refine ⟨?_, ?_⟩
    · simp only [Monitor.step, Monitor.statement, place, if_pos empty]
    · exact broadcast_returns signals lock (broadcast t (by rw [place]; rfl)) place empty

/-- Threads 2 and 3 wait; thread 4 has popped the element of thread 2, which has not reached
its `sema_down` yet, in a broadcast to both. -/
theorem condition_signals_early : ∃ m waits log, Reachable signalRun (m, waits, log) ∧
    m.pc 2 = .waitDown ∧ m.pc 4 = .signalUp .broadcast 2 ∧ m.waiters = [3] ∧
    log.enqueued = [2, 3] ∧ waits.directed 2 = 1 ∧ waits.delivered 2 = 0 ∧
    ∃ after, m.step (.run 4) = .ok after ∧ (after.signal 2).value = 1 ∧
      after.pc 2 = .waitDown := by
  obtain ⟨⟨m, waits, log⟩, reached, waiter, signaller, waiters, enqueued⟩ := run_holds signalRun
    (.init, ⟨0, fun _ => 0, fun _ => 0, fun _ => 0⟩, ⟨[], [], 0⟩) ⟨rfl, rfl⟩
    [.call 2 .lockAcquire, .run 2, .run 2, .run 2, .call 2 .condWait, .run 2, .run 2, .run 2,
      .run 2, .run 2, .run 2,
      .call 3 .lockAcquire, .run 3, .run 3, .run 3, .call 3 .condWait, .run 3, .run 3, .run 3,
      .run 3, .run 3, .run 3, .run 3,
      .call 4 .lockAcquire, .run 4, .run 4, .run 4, .call 4 .condBroadcast, .run 4, .run 4,
      .run 4]
    (P := fun s => s.1.pc 2 = .waitDown ∧ s.1.pc 4 = .signalUp .broadcast 2 ∧
      s.1.waiters = [3] ∧ s.2.2.enqueued = [2, 3]) (by decide +kernel)
  obtain ⟨_, _, raises, _⟩ := condition_signals m waits log reached
  obtain ⟨_, directed, undelivered, after, taken, unit, woken, _⟩ := raises 4 _ 2 signaller
  rw [waiter, if_neg (by rintro ⟨⟩)] at woken
  exact ⟨m, waits, log, reached, waiter, signaller, waiters, enqueued, directed, undelivered,
    after, taken, unit, woken⟩

end Calendarizador.Guarantees
