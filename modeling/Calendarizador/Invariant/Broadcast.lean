import Calendarizador.Invariant.Signals

/-!
# How far a broadcast has come

The thread in `cond_broadcast` owns the lock from the call to the return. Meanwhile nobody
else pushes or pops an element, so the list shrinks by one waiter in every four statements.
The record keeps the waiters on the list at the call, those signalled since, and the number
of statements the caller has executed.
-/
namespace Calendarizador.Source
open Foundation Function List

namespace MonitorPc
variable {pc : MonitorPc}

/-- In `cond_broadcast`. -/
def broadcasts : MonitorPc → Bool
  | .broadcastLoop | .signalAssert .broadcast | .signalPop .broadcast
  | .signalUp .broadcast _ => true
  | _ => false

/-- The statements left to execute with `waiting` elements on the list. -/
def broadcastLeft (waiting : Nat) : MonitorPc → Nat
  | .broadcastLoop => 4 * waiting + 1
  | .signalAssert .broadcast => 4 * waiting
  | .signalPop .broadcast => 4 * waiting - 1
  | .signalUp .broadcast _ => 4 * waiting + 2
  | _ => 0

theorem owns_of_broadcasts (h : pc.broadcasts = true) : pc.owns = true := by
  cases pc <;> first | rfl | cases h

theorem broadcasts_cases (h : pc.broadcasts = true) :
    pc = .broadcastLoop ∨ pc = .signalAssert .broadcast ∨ pc = .signalPop .broadcast ∨
      ∃ w, pc = .signalUp .broadcast w := by
  cases pc with
  | broadcastLoop => exact .inl rfl
  | signalAssert c =>
    cases c <;> cases h
    exact .inr (.inl rfl)
  | signalPop c =>
    cases c <;> cases h
    exact .inr (.inr (.inl rfl))
  | signalUp c w =>
    cases c <;> cases h
    exact .inr (.inr (.inr ⟨w, rfl⟩))
  | _ => cases h

theorem asserted_broadcasts {next : MonitorPc} (h : pc.asserted = some next) :
    next.broadcasts = pc.broadcasts := by
  cases pc <;> cases h <;> first | rfl | (rename_i c; cases c <;> rfl)

theorem unblocked_broadcasts {next : MonitorPc} (h : pc.unblocked = some next) :
    next.broadcasts = false := by
  cases pc with
  | acquireBlocked c | waitBlocked =>
    cases h
    rfl
  | _ => cases h

end MonitorPc

/-- About the latest `cond_broadcast`. -/
structure BroadcastLog where
  enqueued : List Page
  signalled : List Page
  steps : Nat

def logBroadcast (m : Monitor) (e : MonitorEvent) (log : BroadcastLog) : BroadcastLog :=
  match e with
  | .call _ .condBroadcast => ⟨m.waiters, [], 0⟩
  | .call _ _ => log
  | .run t =>
    { enqueued := log.enqueued
      signalled :=
        match m.pc t, m.waiters with
        | .signalPop _, w :: _ => log.signalled ++ [w]
        | _, _ => log.signalled
      steps := if (m.pc t).broadcasts = true then log.steps + 1 else log.steps }

/-- The monitor with both records. -/
def signalRun : System (Monitor × WaitLog × BroadcastLog) MonitorEvent Fault :=
  monitorSystem.recording (⟨0, fun _ => 0, fun _ => 0, fun _ => 0⟩, ⟨[], [], 0⟩)
    fun m e _ log => (logWaits m e log.1, logBroadcast m e log.2)

def MonitorEvent.actor : MonitorEvent → Page
  | .call t _ | .run t => t

/-- The state of the broadcast that `t` is in. -/
structure Broadcasting (m : Monitor) (t : Page) (waits : WaitLog) (log : BroadcastLog) :
    Prop where
  parts : log.enqueued = log.signalled ++ m.waiters
  nodup : log.enqueued.Nodup
  signalled : ∀ p ∈ log.signalled, m.inWait p ∧ waits.directed p = 1
  steps : (m.pc t).broadcastLeft m.waiters.length + log.steps = 4 * log.enqueued.length + 1
  more : m.pc t = .signalAssert .broadcast ∨ m.pc t = .signalPop .broadcast → m.waiters ≠ []

def BroadcastOk (m : Monitor) (waits : WaitLog) (log : BroadcastLog) : Prop :=
  ∀ t, (m.pc t).broadcasts = true → Broadcasting m t waits log

section
variable {m after : Monitor} {waits : WaitLog} {log : BroadcastLog} {t : Page}
variable {owner : Option Page} {e : MonitorEvent}

/-- A thread moves by its own statements, or is unblocked. -/
theorem step_others (lock : LockOk m owner) (taken : m.step e = .ok after) {p : Page}
    (other : p ≠ e.actor) : after.pc p = m.pc p ∨ (m.pc p).unblocked = some (after.pc p) := by
  cases e with
  | call t op =>
    simp only [Monitor.step] at taken
    split at taken
    · cases taken
      exact .inl (update_of_ne other ..)
    · cases taken
  | run t =>
    change p ≠ t at other
    cases lock.queues.executes taken with
    | @unblocks _ _ q _ place _ blocked =>
      by_cases here : p = q
      · subst here
        exact .inr (by simp [Monitor.goto, other, blocked, MonitorPc.unblocked])
      · exact .inl (by simp [Monitor.goto, other, here])
    | @wakes _ w place blocked =>
      by_cases here : p = w
      · subst here
        exact .inr (by simp [Monitor.goto, other, blocked, MonitorPc.unblocked])
      · exact .inl (by simp [Monitor.goto, other, here])
    | _ => exact .inl (update_of_ne other ..)

theorem logWaits_foreign (without : (m.pc t).owns = false) : logWaits m (.run t) waits = waits := by
  cases place : m.pc t <;> rw [place] at without <;> cases without <;>
    simp only [logWaits, place]

theorem logBroadcast_foreign (without : (m.pc t).owns = false) :
    logBroadcast m (.run t) log = log := by
  cases place : m.pc t <;> rw [place] at without <;> cases without <;>
    simp [logBroadcast, place, MonitorPc.broadcasts]

/-- A thread that does not own the lock changes neither the list nor the records, and nobody
leaves a `cond_wait` by its statements. -/
theorem foreign_statement (queues : Queues m) (without : (m.pc t).owns = false)
    (taken : m.statement t = .ok after) :
    after.waiters = m.waiters ∧ (∀ waits, logWaits m (.run t) waits = waits) ∧
      (∀ log, logBroadcast m (.run t) log = log) ∧ ∃ pc, after.pc = update m.pc t pc ∧
        (m.inWait t → pc.waitStage.inside = true) := by
  have unlogged (waits : WaitLog) : logWaits m (.run t) waits = waits := logWaits_foreign without
  have unlogged' (log : BroadcastLog) : logBroadcast m (.run t) log = log :=
    logBroadcast_foreign without
  -- The places without the lock from which there is a next statement.
  cases queues.executes taken with
  | asserts place =>
    refine ⟨rfl, unlogged, unlogged', _, rfl, fun inside => ?_⟩
    rw [(Prod.mk.inj (MonitorPc.asserted_stage place)).1]
    exact inside
  | @lockDown c place =>
    refine ⟨rfl, unlogged, unlogged', _, rfl, fun inside => ?_⟩
    rw [Monitor.inWait] at inside
    rcases place with here | here
    all_goals
      rw [here] at inside
      split <;> cases c <;> exact inside
  | tryDown place =>
    refine ⟨rfl, unlogged, unlogged', _, rfl, fun inside => ?_⟩
    rw [Monitor.inWait, place] at inside
    cases inside
  | waiterDown place =>
    refine ⟨rfl, unlogged, unlogged', _, rfl, fun _ => ?_⟩
    split <;> rfl
  | assigns place =>
    rcases place with here | ⟨c, here⟩
    all_goals
      rw [here] at without
      cases without
  | clears place | ups place | unblocks place | initialises place | pushes place
  | popsNobody place | pops place | signals place | wakes place | loops place | ends place =>
    rw [place] at without
    cases without

theorem foreign_step (queues : Queues m) (without : (m.pc e.actor).owns = false)
    (taken : m.step e = .ok after) :
    after.waiters = m.waiters ∧ (∀ waits, logWaits m e waits = waits) ∧
      (∀ log, logBroadcast m e log = log) ∧ ∃ pc, after.pc = update m.pc e.actor pc ∧
        (m.inWait e.actor → pc.waitStage.inside = true) := by
  cases e with
  | run t => exact foreign_statement queues without taken
  | call t op =>
    simp only [Monitor.step] at taken
    change (m.pc t).owns = false at without
    split at taken
    · rename_i place
      cases taken
      have out : ¬ m.inWait t := by
        rw [Monitor.inWait, place]
        cases op <;> simp [MonitorCall.caller, MonitorPc.waitStage, WaitStage.inside]
      refine ⟨rfl, fun _ => rfl, fun _ => ?_, op.entry, rfl, fun inside => absurd inside out⟩
      cases op with
      | condBroadcast =>
        rw [place] at without
        cases without
      | _ => rfl
    · cases taken

/-- The broadcast of `t` does not notice the statements of others. -/
theorem Broadcasting.others (h : Broadcasting m t waits log) (lock : LockOk m owner)
    (inside : (m.pc t).broadcasts = true) (other : t ≠ e.actor) (taken : m.step e = .ok after) :
    Broadcasting after t (logWaits m e waits) (logBroadcast m e log) := by
  have without : (m.pc e.actor).owns = false := by
    rw [← Bool.not_eq_true]
    intro owns
    exact other (lock.unique (MonitorPc.owns_of_broadcasts inside) owns)
  obtain ⟨waiters, sameWaits, sameLog, pc, moved, stays⟩ :=
    foreign_step lock.queues without taken
  have here : after.pc t = m.pc t := by rw [moved, update_of_ne other]
  rw [sameWaits, sameLog]
  refine ⟨by rw [waiters]; exact h.parts, h.nodup, fun p member => ?_, ?_, ?_⟩
  · obtain ⟨waiting, directed⟩ := h.signalled p member
    refine ⟨?_, directed⟩
    by_cases actor : p = e.actor
    · rw [Monitor.inWait, moved, actor, update_self]
      exact stays (actor ▸ waiting)
    · exact (inWait_moved moved actor).mpr waiting
  · rw [here, waiters]
    exact h.steps
  · rw [here, waiters]
    exact h.more

/-- One statement of the broadcast itself. -/
theorem Broadcasting.own (h : Broadcasting m t waits log) (signals : SignalOk m waits)
    (lock : LockOk m owner) (taken : m.statement t = .ok after)
    (inside : (m.pc t).broadcasts = true) (goes : (after.pc t).broadcasts = true) :
    Broadcasting after t (logWaits m (.run t) waits) (logBroadcast m (.run t) log) := by
  have steps := h.steps
  rcases MonitorPc.broadcasts_cases inside with place | place | place | ⟨w, place⟩
  · simp only [Monitor.statement, place] at taken
    split at taken
    · cases taken
      simp [Monitor.goto, MonitorPc.broadcasts] at goes
    · rename_i more
      cases taken
      simp only [logWaits, logBroadcast, place, MonitorPc.broadcasts, if_true]
      refine ⟨h.parts, h.nodup, fun p member => ?_, ?_, fun _ => more⟩
      · rw [inWait_stage rfl (by rw [place]; rfl)]
        exact h.signalled p member
      · rw [place] at steps
        simp only [Monitor.goto, update_self, MonitorPc.broadcastLeft] at steps ⊢
        omega
  · have more := h.more (.inl place)
    have some := length_pos_iff.mpr more
    simp only [Monitor.statement, place] at taken
    rw [(assertHeld_ok taken).2]
    simp only [logWaits, logBroadcast, place, MonitorPc.broadcasts, if_true]
    refine ⟨h.parts, h.nodup, fun p member => ?_, ?_, fun _ => more⟩
    · rw [inWait_stage rfl (by rw [place]; rfl)]
      exact h.signalled p member
    · rw [place] at steps
      simp only [Monitor.goto, update_self, MonitorPc.broadcastLeft] at steps ⊢
      omega
  · have pushed := signals.statement lock taken
    simp only [Monitor.statement, place] at taken
    split at taken
    · rename_i nobody
      exact absurd nobody (h.more (.inr place))
    · rename_i w rest list
      cases taken
      have waiting := (signals.waiter w).queue.mp (by rw [list]; exact mem_cons_self)
      have directed := ((pushed.waiter w).raised t (by simp [Monitor.goto, MonitorPc.raises])).2.1
      simp only [logWaits, logBroadcast, place, list, MonitorPc.broadcasts, if_true]
        at directed ⊢
      refine ⟨?_, h.nodup, fun p member => ?_, ?_, ?_⟩
      · rw [h.parts, list, append_assoc]
        rfl
      · rw [inWait_stage rfl (by rw [place]; rfl)]
        rcases mem_append.mp member with before | new
        · obtain ⟨inWait, one⟩ := h.signalled p before
          have other : p ≠ w := by
            rintro rfl
            cases one.symm.trans waiting.2
          simp only [update_of_ne other]
          exact ⟨inWait, one⟩
        · rw [mem_singleton] at new
          rw [new]
          exact ⟨waiting.1, directed⟩
      · rw [place, list] at steps
        simp only [Monitor.goto, update_self, MonitorPc.broadcastLeft,
          length_cons] at steps ⊢
        omega
      · simp [Monitor.goto]
  · obtain ⟨done, executed, waiters, _, _, moved, woken, others⟩ :=
      signalUp_effects lock.queues place (signals.raised_ne place)
    cases executed.symm.trans taken
    have inWait := inWait_signalUp place moved woken others
    simp only [logWaits, logBroadcast, place, MonitorPc.broadcasts, if_true]
    refine ⟨by rw [waiters]; exact h.parts, h.nodup, fun p member => ?_, ?_, ?_⟩
    · rw [inWait]
      exact h.signalled p member
    · rw [place] at steps
      rw [moved, waiters]
      simp only [SignalCaller.signalled, MonitorPc.broadcastLeft] at steps ⊢
      omega
    · simp [moved, SignalCaller.signalled]

/-- Inside the loop there is an element left. -/
theorem Broadcasting.left_pos (broadcast : Broadcasting m t waits log)
    (inside : (m.pc t).broadcasts = true) : 0 < (m.pc t).broadcastLeft m.waiters.length := by
  rcases MonitorPc.broadcasts_cases inside with place | place | place | ⟨w, place⟩
  · rw [place]
    exact Nat.succ_pos _
  · have some := length_pos_iff.mpr (broadcast.more (.inl place))
    rw [place]
    change 0 < 4 * m.waiters.length
    omega
  · have some := length_pos_iff.mpr (broadcast.more (.inr place))
    rw [place]
    change 0 < 4 * m.waiters.length - 1
    omega
  · rw [place]
    exact Nat.succ_pos _

/-- The list holds no waiter twice. -/
theorem SignalOk.nodup (h : SignalOk m waits) : m.waiters.Nodup := by
  refine h.order.imp ?_
  intro p q before same
  rw [same] at before
  exact Nat.lt_irrefl _ before

/-- A statement of ordinary code does not lead into a broadcast. -/
theorem statement_broadcasts (lock : LockOk m owner) (taken : m.statement t = .ok after)
    (goes : (after.pc t).broadcasts = true) : (m.pc t).broadcasts = true := by
  cases lock.queues.executes taken with
  | asserts place =>
    rw [← MonitorPc.asserted_broadcasts place]
    simpa [Monitor.goto] using goes
  | lockDown =>
    simp only [Monitor.lockDown, Monitor.goto, update_self] at goes
    split at goes <;> cases goes
  | waiterDown =>
    simp only [Monitor.waiterDown, Monitor.goto, update_self] at goes
    split at goes <;> cases goes
  | tryDown =>
    simp only [Monitor.goto, update_self] at goes
    split at goes <;> cases goes
  | @ups c | @unblocks c =>
    simp only [Monitor.goto, update_self] at goes
    cases c <;> cases goes
  | @popsNobody c place | @pops c _ _ place | @signals c _ place | @wakes c _ place =>
    rw [place]
    cases c with
    | user => simp [Monitor.goto, SignalCaller.signalled, MonitorPc.broadcasts] at goes
    | broadcast => rfl
  | loops place | ends place =>
    rw [place]
    rfl
  | assigns | clears | initialises | pushes =>
    simp [Monitor.goto, MonitorPc.broadcasts] at goes

theorem BroadcastOk.step (h : BroadcastOk m waits log) (signals : SignalOk m waits)
    (lock : LockOk m owner) (taken : m.step e = .ok after) :
    BroadcastOk after (logWaits m e waits) (logBroadcast m e log) := by
  intro t goes
  by_cases other : t ≠ e.actor
  · have same : after.pc t = m.pc t := by
      rcases step_others lock taken other with same | unblocked
      · exact same
      · rw [MonitorPc.unblocked_broadcasts unblocked] at goes
        cases goes
    rw [same] at goes
    exact (h t goes).others lock goes other taken
  · rw [not_not] at other
    subst other
    cases e with
    | run t =>
      have inside := statement_broadcasts lock taken goes
      exact (h t inside).own signals lock taken inside goes
    | call t op =>
      simp only [Monitor.step] at taken
      split at taken
      · cases taken
        cases op with
        | condBroadcast =>
          refine ⟨rfl, signals.nodup, fun p member => absurd member not_mem_nil, ?_, ?_⟩
          · simp [Monitor.goto, MonitorEvent.actor, MonitorCall.entry, logBroadcast,
              MonitorPc.broadcastLeft]
          · simp [Monitor.goto, MonitorEvent.actor, MonitorCall.entry]
        | _ =>
          simp [Monitor.goto, MonitorEvent.actor, MonitorCall.entry, MonitorPc.broadcasts] at goes
      · cases taken

theorem reachable_signals {logs : WaitLog × BroadcastLog} (h : Reachable signalRun (m, logs)) :
    Reachable monitorSystem m ∧ SignalOk m logs.1 ∧ BroadcastOk m logs.1 logs.2 := by
  refine Reachable.recorded (P := fun m logs => SignalOk m logs.1 ∧ BroadcastOk m logs.1 logs.2)
    ?_ ?_ h
  · rintro m rfl
    have out : ∀ p, ¬ Monitor.init.inWait p := fun p inside => by cases inside
    refine ⟨⟨fun p => ⟨trivial, iff_of_false not_mem_nil fun no => out p no.1, ?_,
      fun inside => absurd inside (out p), fun inside => absurd inside (out p)⟩, .nil,
      fun p member => absurd member not_mem_nil⟩, ?_⟩
    · exact fun t raises => by cases raises
    · exact fun t inside => by cases inside
  · rintro m logs e after before ⟨signals, broadcast⟩ taken
    obtain ⟨owner, lock⟩ := reachable_lockOk before
    exact ⟨signals.step lock taken, broadcast.step signals lock taken⟩

end
end Calendarizador.Source
