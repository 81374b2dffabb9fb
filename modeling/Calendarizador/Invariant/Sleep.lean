import Calendarizador.Invariant.Effects

/-!
# The sleep queue

`wait_list` is kept in order of wake-up time, and the interrupt handler takes threads off
its front. Each call of `timer_sleep` is logged with the tick at which it was made and
the ticks at which its thread was made ready, so that the log says when, and how often,
every call was served.
-/
namespace Calendarizador.Source
open Foundation List

/-- One call of `timer_sleep`. -/
structure SleepCall where
  called : Nat
  ticks : Nat
  serial : Nat
  woken : List Nat
  deriving DecidableEq, Repr

/-- The tick at which the call is to be served: a thread sleeps for one tick at least. -/
def SleepCall.due (c : SleepCall) : Nat := c.called + max c.ticks 1

/-- All calls of each thread, newest first, and the number of calls so far. -/
structure SleepLog where
  calls : Page → List SleepCall
  count : Nat

/-- A thread blocked in `timer_sleep` that the step made ready. -/
def MadeReady (k after : Kernel) (p : Page) : Prop :=
  p ∈ k.waitList ∧ after.status p ≠ .blocked

instance (k after : Kernel) (p : Page) : Decidable (MadeReady k after p) :=
  inferInstanceAs (Decidable (_ ∧ _))

/-- Adds the tick of a wake-up to the newest call. -/
def addWake (tick : Nat) : List SleepCall → List SleepCall
  | [] => []
  | c :: rest => { c with woken := c.woken ++ [tick] } :: rest

def SleepLog.noteWakes (log : SleepLog) (k after : Kernel) : SleepLog :=
  { log with calls := fun p =>
      if MadeReady k after p then addWake after.ticks (log.calls p) else log.calls p }

def SleepLog.noteCall (log : SleepLog) (k : Kernel) : Event → SleepLog
  | .sleep n =>
    if n < 0 then log
    else
      { calls := Function.update log.calls k.current
          (⟨k.ticks, n.toNat, log.count, []⟩ :: log.calls k.current)
        count := log.count + 1 }
  | _ => log

/-- No call asks for a tick that the clock cannot show. -/
def sleepFits (k : Kernel) : Event → Bool
  | .sleep n => k.ticks + n < 9223372036854775808
  | _ => true

/-- The kernel with a log of its sleeps. -/
def sleepSystem (mode : Mode) : System (Kernel × SleepLog) Event Fault where
  initial s := (kernelSystem mode).initial s.1 ∧ s.2 = ⟨fun _ => [], 0⟩
  step s e :=
    if sleepFits s.1 e = true then
      (step s.1 e).map fun after => (after, (s.2.noteWakes s.1 after).noteCall s.1 e)
    else .error .disabled

/-- The order of the sleep queue: by wake-up time, and by call for equal times. -/
def Before (k : Kernel) (log : SleepLog) (a b : Page) : Prop :=
  (k.thread a).wakeupTime < (k.thread b).wakeupTime ∨
    ((k.thread a).wakeupTime = (k.thread b).wakeupTime ∧
      ((log.calls a).head?.map SleepCall.serial).getD 0 <
        ((log.calls b).head?.map SleepCall.serial).getD 0)

def Served (k : Kernel) (c : SleepCall) : Prop := c.woken = [c.due] ∧ c.due ≤ k.ticks

structure Pending (k : Kernel) (log : SleepLog) (p : Page) (c : SleepCall) : Prop where
  woken : c.woken = []
  called : c.called ≤ k.ticks
  due : k.ticks < c.due
  wakeup : (k.thread p).wakeupTime = c.called + c.ticks
  serial : c.serial < log.count

structure SleepOk (k : Kernel) (log : SleepLog) : Prop where
  sorted : k.waitList.Pairwise (Before k log)
  asleep : ∀ p ∈ k.waitList, ∃ c rest, log.calls p = c :: rest ∧ Pending k log p c ∧
    ∀ d ∈ rest, Served k d
  awake : ∀ p, p ∉ k.waitList → ∀ c ∈ log.calls p, Served k c

section
variable {k after : Kernel} {log : SleepLog} {e : Event}

theorem sleepSystem_reachable {mode : Mode} {s : Kernel × SleepLog}
    (h : Reachable (sleepSystem mode) s) : Reachable (kernelSystem mode) s.1 := by
  refine h.invariant (P := fun s => Reachable (kernelSystem mode) s.1) ?_ ?_
  · exact fun s start => .initial start.1
  · intro s e next _ before taken
    change (if sleepFits s.1 e = true then
      (step s.1 e).map fun after => (after, (s.2.noteWakes s.1 after).noteCall s.1 e)
      else .error .disabled) = .ok next at taken
    split at taken
    · obtain ⟨kernel, stepped, rfl⟩ := map_eq_ok.mp taken
      exact before.step e stepped
    · cases taken

/-- The threads the handler takes off the queue: those at the front whose time has come,
appended to the run queue in the order of the queue. -/
theorem wakeSleepers_woken (list : List Page) (h : Inv k) (front : k.waitList = list)
    (taken : wakeSleepers list k = .ok after) :
    ∃ woken, list = woken ++ after.waitList ∧ after.readyList = k.readyList ++ woken ∧
      (∀ p ∈ woken, (k.thread p).wakeupTime ≤ k.ticks) ∧
      ∀ p, after.waitList.head? = some p → k.ticks < (k.thread p).wakeupTime := by
  induction list generalizing k with
  | nil =>
    cases taken
    exact ⟨[], by simp [front], by simp, by simp, by simp [front]⟩
  | cons t rest ih =>
    rw [wakeSleepers] at taken
    split at taken
    · rename_i early
      cases taken
      refine ⟨[], by simp [front], by simp, by simp, fun p first => ?_⟩
      rw [front, List.head?_cons, Option.some.injEq] at first
      exact first ▸ early
    · rename_i due
      obtain ⟨upped, upping, effects, kept⟩ := h.wakeRound front
      rw [upping] at taken
      obtain ⟨woken, split, ready, times, later⟩ := ih kept rfl taken
      have wakeup : ∀ p, (upped.thread p).wakeupTime = (k.thread p).wakeupTime :=
        effects.keeps (fun t => t.wakeupTime) (fun _ _ => rfl) (fun _ _ => rfl) fun _ _ => rfl
      have clock : upped.ticks = k.ticks := effects.globals.ticks
      refine ⟨t :: woken, by rw [split]; rfl, ?_, fun p member => ?_, fun p first => ?_⟩
      · rw [ready]
        rw [effects.ready]
        simp
      · rcases mem_cons.mp member with rfl | member
        · omega
        · have time := times p member
          rwa [wakeup, clock] at time
      · have time := later p first
        rwa [wakeup, clock] at time

/-- The handler never trips over a sleeper: each is blocked when its turn comes. -/
theorem wakeSleepers_total (list : List Page) (h : Inv k) (front : k.waitList = list) :
    ∃ after, wakeSleepers list k = .ok after := by
  induction list generalizing k with
  | nil => exact ⟨k, rfl⟩
  | cons t rest ih =>
    rw [wakeSleepers]
    split
    · exact ⟨k, rfl⟩
    · obtain ⟨upped, upping, _, kept⟩ := h.wakeRound front
      obtain ⟨after, more⟩ := ih kept rfl
      exact ⟨after, bind_eq_ok.mpr ⟨upped, upping, more⟩⟩

/-- A timer interrupt on an ordered queue: exactly the threads whose time has come leave
it, and they are appended to the run queue in the order of the queue. -/
theorem timerInterrupt_woken (h : Inv k)
    (sorted : k.waitList.Pairwise fun a b => (k.thread a).wakeupTime ≤ (k.thread b).wakeupTime)
    (taken : timerInterrupt k = .ok after) : after.ticks = k.ticks + 1 ∧ ∃ ticked woken,
      threadTick { k with ticks := k.ticks + 1 } = .ok ticked ∧
      k.waitList = woken ++ after.waitList ∧ after.readyList = ticked.readyList ++ woken ∧
      (∀ p ∈ woken, (k.thread p).wakeupTime ≤ after.ticks) ∧
      ∀ p ∈ after.waitList, after.ticks < (k.thread p).wakeupTime := by
  have clock := (timerInterrupt_keeps Thread.wakeupTime {} taken).2.2
  unfold timerInterrupt at taken
  rw [bind_eq_ok] at taken
  obtain ⟨ticked, counted, woke⟩ := taken
  have accounts := threadTick_accounting counted
  have inv := (h.registers (k.ticks + 1) k.yieldOnReturn).accounting accounts
  have wakeup : ∀ p, (ticked.thread p).wakeupTime = (k.thread p).wakeupTime :=
    accounts.keeps (fun t => t.wakeupTime) fun _ => rfl
  obtain ⟨woken, split, ready, due, first⟩ := wakeSleepers_woken ticked.waitList inv rfl woke
  have now : ticked.ticks = after.ticks := accounts.ticks.trans clock.symm
  have queue : k.waitList = woken ++ after.waitList := accounts.waitList.symm.trans split
  refine ⟨clock, ticked, woken, counted, queue, ready, fun p member => ?_, fun p member => ?_⟩
  · rw [← wakeup, ← now]
    exact due p member
  · -- the front is later than now, and everybody behind it later still
    have order := (pairwise_append.mp (queue ▸ sorted)).2.1
    cases rest : after.waitList with
    | nil => simp [rest] at member
    | cons front others =>
      rw [rest] at order member
      have time := first front (by simp [rest])
      rw [wakeup, now] at time
      rcases mem_cons.mp member with rfl | behind
      · exact time
      · exact Int.lt_of_lt_of_le time ((pairwise_cons.mp order).1 p behind)

/-- What a step does to the sleep queue after the body of its event: nothing. -/
structure Finished (k after : Kernel) : Prop where
  waitList : after.waitList = k.waitList
  ticks : after.ticks = k.ticks
  allList : after.allList = k.allList
  code : ∀ p, after.code p = k.code p
  wakeup : ∀ p, (after.thread p).wakeupTime = (k.thread p).wakeupTime

theorem step_finished (taken : step k e = .ok after) :
    ∃ outcome, e.enabled k = true ∧ opBody k e = .ok outcome ∧ Finished outcome.kernel after := by
  obtain ⟨enabled, body | ⟨ready, body, switched⟩⟩ := step_effects taken
  · exact ⟨_, enabled, body, rfl, rfl, rfl, fun _ => rfl, fun _ => rfl⟩
  · obtain ⟨_, next, rest, _, rfl⟩ := schedule_effects switched
    refine ⟨_, enabled, body, dispatch_waitList _ _, dispatch_ticks _ _, dispatch_allList _ _,
      dispatch_code _ _, ?_⟩
    exact dispatch_keeps _ _ (fun t => t.wakeupTime) {}

/-- The effect of a step on the sleep queue. -/
theorem step_sleepers (h : Inv k) (taken : step k e = .ok after) :
    (after.waitList = k.waitList ∧ after.ticks = k.ticks ∧
      (∀ p ∈ k.waitList, (after.thread p).wakeupTime = (k.thread p).wakeupTime) ∧
      ∀ n, e = .sleep n → n < 0) ∨
    (∃ n, e = .sleep n ∧ 0 ≤ n ∧ after.waitList = (enterWaitList k n).waitList ∧
      after.ticks = k.ticks ∧ ∀ p, (after.thread p).wakeupTime =
        ((enterWaitList k n).thread p).wakeupTime) ∨
    (e = .timer ∧ ∃ handled, timerInterrupt { k with yieldOnReturn := false } = .ok handled ∧
      after.waitList = handled.waitList ∧ after.ticks = handled.ticks ∧
      after.allList = k.allList ∧ (∀ p, after.code p = k.code p) ∧
      ∀ p, (after.thread p).wakeupTime = (k.thread p).wakeupTime) := by
  obtain ⟨outcome, enabled, body, finished⟩ := step_finished taken
  rcases opBody_effects h enabled body with ⟨notSleep, _, calm⟩ | ⟨t, name, creates, born⟩ |
    ⟨rfl, rep, seen, code, exits⟩ | ⟨n, rfl, nonneg, rfl⟩ | ⟨rfl, handled⟩
  · refine .inl ⟨finished.waitList.trans calm.waitList, finished.ticks.trans calm.ticks,
      fun p _ => ?_, notSleep⟩
    rw [finished.wakeup]
    exact congrArg (fun s => s.2.2.2.2.1) (calm.kept p)
  · refine .inl ⟨finished.waitList.trans born.waitList, finished.ticks.trans born.ticks,
      fun p member => ?_, ?_⟩
    · have other : p ≠ t := by
        rintro rfl
        have used := ((h.core.threads p).wait.mp member).1.1
        rw [born.free] at used
        cases used
      rw [finished.wakeup]
      exact congrArg (fun s => s.2.2.2.2.1) (born.kept p other)
    · rintro n rfl
      cases creates
  · have kept := threadExit_keeps (fun t => t.wakeupTime) {} exits
    obtain ⟨learned, total, learning, rfl⟩ := threadExit_effects exits
    have accounts := learnAtExit_accounting learning
    exact .inl ⟨finished.waitList.trans accounts.waitList, finished.ticks.trans accounts.ticks,
      fun p _ => (finished.wakeup p).trans (kept p), by simp⟩
  · have globals := blockOn_globals (enterWaitList k n) (.timer k.current)
    refine .inr (.inl ⟨n, rfl, nonneg, finished.waitList.trans globals.waitList,
      finished.ticks.trans globals.ticks, fun p => ?_⟩)
    rw [finished.wakeup]
    exact blockOn_keeps _ _ (fun t => t.wakeupTime) {} p
  · obtain ⟨kept, lists⟩ := intrHandler_keeps (fun t => (t.code, t.wakeupTime)) {} handled
    unfold intrHandler at handled
    rw [bind_eq_ok] at handled
    obtain ⟨returned, interrupted, ⟨⟩⟩ := handled
    refine .inr (.inr ⟨rfl, returned, interrupted, finished.waitList.trans ?_,
      finished.ticks.trans ?_, finished.allList.trans lists.allList, fun p => ?_, fun p => ?_⟩)
    · split <;> rfl
    · split <;> rfl
    · exact (finished.code p).trans (congrArg (fun s => s.1) (kept p))
    · exact (finished.wakeup p).trans (congrArg (fun s => s.2) (kept p))

theorem SleepOk.quiet (h : SleepOk k log) (wait : after.waitList = k.waitList)
    (ticks : after.ticks = k.ticks)
    (wakeup : ∀ p ∈ k.waitList, (after.thread p).wakeupTime = (k.thread p).wakeupTime) :
    SleepOk after log := by
  have served : ∀ c, Served k c → Served after c := fun c done => ⟨done.1, ticks ▸ done.2⟩
  refine ⟨?_, fun p member => ?_, fun p apart c called => ?_⟩
  · rw [wait]
    refine h.sorted.imp_of_mem fun {a b} first second order => ?_
    unfold Before
    rw [wakeup a first, wakeup b second]
    exact order
  · rw [wait] at member
    obtain ⟨c, rest, calls, pending, past⟩ := h.asleep p member
    refine ⟨c, rest, calls, ⟨pending.woken, ?_, ?_, ?_, pending.serial⟩,
      fun d old => served d (past d old)⟩
    · rw [ticks]
      exact pending.called
    · rw [ticks]
      exact pending.due
    · rw [wakeup p member]
      exact pending.wakeup
  · rw [wait] at apart
    exact served c (h.awake p apart c called)

theorem noteWakes_none (still : ∀ p ∈ k.waitList, after.status p = .blocked) :
    log.noteWakes k after = log := by
  have none : ∀ p, ¬ MadeReady k after p := fun p ready => ready.2 (still p ready.1)
  simp [SleepLog.noteWakes, none]

theorem SleepOk.ordered (h : SleepOk k log) :
    k.waitList.Pairwise fun a b => (k.thread a).wakeupTime ≤ (k.thread b).wakeupTime := by
  refine h.sorted.imp fun {a b} order => ?_
  rcases order with earlier | ⟨same, _⟩
  · exact Int.le_of_lt earlier
  · exact Int.le_of_eq same

/-- A call enters the queue behind every earlier call for the same tick. -/
theorem SleepOk.sleep (h : SleepOk k log) (n : Int) (nonneg : 0 ≤ n)
    (fits : k.ticks + n < 9223372036854775808) (absent : k.current ∉ k.waitList)
    (wait : after.waitList = (enterWaitList k n).waitList) (ticks : after.ticks = k.ticks)
    (wakeup : ∀ p, (after.thread p).wakeupTime = ((enterWaitList k n).thread p).wakeupTime) :
    SleepOk after (log.noteCall k (.sleep n)) := by
  have logged : log.noteCall k (.sleep n) =
      ⟨Function.update log.calls k.current
        (⟨k.ticks, n.toNat, log.count, []⟩ :: log.calls k.current), log.count + 1⟩ := by
    simp only [SleepLog.noteCall]
    rw [if_neg (by omega)]
  have cmp : ∀ e, wakeupCmp (k.upd k.current (Thread.setWakeupTime (i64 (k.ticks + n)))) k.current
      e = decide ((after.thread k.current).wakeupTime < (after.thread e).wakeupTime) := by
    intro e
    rw [wakeup, wakeup]
    rfl
  have mine : (after.thread k.current).wakeupTime = k.ticks + n := by
    rw [wakeup]
    simp only [enterWaitList, Kernel.upd_thread_self, Thread.setWakeupTime_wakeupTime]
    exact i64_of_bounds _ (by omega) fits
  have others : ∀ p ∈ k.waitList, p ≠ k.current ∧
      (after.thread p).wakeupTime = (k.thread p).wakeupTime := by
    intro p member
    have other : p ≠ k.current := fun same => absent (same ▸ member)
    refine ⟨other, ?_⟩
    rw [wakeup]
    simp [enterWaitList, other]
  have kept : ∀ a ∈ k.waitList, ∀ b ∈ k.waitList, Before k log a b →
      Before after (log.noteCall k (.sleep n)) a b := by
    intro a first b second order
    rw [logged]
    simpa [Before, others a first, others b second] using order
  have served : ∀ c, Served k c → Served after c := fun c done => ⟨done.1, ticks ▸ done.2⟩
  have perm := enterWaitList_perm k n
  refine ⟨?_, fun p member => ?_, fun p apart c called => ?_⟩
  · rw [wait, enterWaitList_waitList]
    refine listInsertOrdered_pairwise ?_ ?_ ?_ ?_
    · exact h.sorted.imp_of_mem fun {a b} first second => kept a first b second
    · intro e member sooner
      rw [cmp, decide_eq_true_eq] at sooner
      exact .inl sooner
    · intro e member notSooner
      rw [cmp, decide_eq_false_iff_not] at notSooner
      obtain ⟨c, rest, calls, pending, _⟩ := h.asleep e member
      rcases Int.lt_or_eq_of_le (Int.not_lt.mp notSooner) with earlier | same
      · exact .inl earlier
      · refine .inr ⟨same, ?_⟩
        rw [logged]
        simpa [(others e member).1, calls] using pending.serial
    · intro e member later afterwards sooner order
      rw [cmp, decide_eq_true_eq] at sooner
      left
      rcases order with earlier | ⟨same, _⟩
      · exact Int.lt_trans sooner earlier
      · rwa [same] at sooner
  · rw [wait, perm.mem_iff, mem_cons] at member
    rw [logged]
    rcases member with rfl | member
    · refine ⟨⟨k.ticks, n.toNat, log.count, []⟩, log.calls k.current, by simp,
        ⟨rfl, ?_, ?_, ?_, Nat.lt_succ_self _⟩, fun d old => served d (h.awake _ absent d old)⟩
      · rw [ticks]
      · rw [ticks]
        simp only [SleepCall.due]
        omega
      · rw [mine]
        simp only
        omega
    · obtain ⟨c, rest, calls, pending, past⟩ := h.asleep p member
      refine ⟨c, rest, by simp [(others p member).1, calls],
        ⟨pending.woken, ?_, ?_, ?_, Nat.lt_succ_of_lt pending.serial⟩,
        fun d old => served d (past d old)⟩
      · rw [ticks]
        exact pending.called
      · rw [ticks]
        exact pending.due
      · rw [(others p member).2]
        exact pending.wakeup
  · rw [wait, perm.mem_iff, mem_cons, not_or] at apart
    rw [logged] at called
    simp only [Function.update_of_ne apart.1] at called
    exact served c (h.awake p apart.2 c called)

theorem SleepOk.timer (h : SleepOk k log) {woken : List Page} (nodup : k.waitList.Nodup)
    (split : k.waitList = woken ++ after.waitList) (ticks : after.ticks = k.ticks + 1)
    (wakeup : ∀ p, (after.thread p).wakeupTime = (k.thread p).wakeupTime)
    (ready : ∀ p ∈ k.waitList, after.status p ≠ .blocked ↔ p ∈ woken)
    (due : ∀ p ∈ woken, (k.thread p).wakeupTime ≤ after.ticks)
    (later : ∀ p ∈ after.waitList, after.ticks < (k.thread p).wakeupTime) :
    SleepOk after (log.noteWakes k after) := by
  rw [split, nodup_append] at nodup
  have apart : ∀ p ∈ after.waitList, p ∉ woken := fun p left taken => nodup.2.2 p taken p left rfl
  have members : ∀ p, p ∈ k.waitList ↔ p ∈ woken ∨ p ∈ after.waitList := by
    intro p
    rw [split, mem_append]
  have served : ∀ c, Served k c → Served after c := fun c done => ⟨done.1, by
    rw [ticks]
    exact Nat.le_succ_of_le done.2⟩
  have made : ∀ p, MadeReady k after p ↔ p ∈ woken := by
    intro p
    constructor
    · exact fun both => (ready p both.1).mp both.2
    · exact fun member =>
        ⟨(members p).mpr (.inl member), (ready p ((members p).mpr (.inl member))).mpr member⟩
  have calls : ∀ p, (log.noteWakes k after).calls p =
      if p ∈ woken then addWake after.ticks (log.calls p) else log.calls p := by
    intro p
    simp only [SleepLog.noteWakes, made]
  refine ⟨?_, fun p member => ?_, fun p awake c called => ?_⟩
  · have rest := (pairwise_append.mp (split ▸ h.sorted)).2.1
    refine rest.imp_of_mem fun {a b} first second order => ?_
    unfold Before
    rw [calls, calls, if_neg (apart a first), if_neg (apart b second), wakeup, wakeup]
    exact order
  · obtain ⟨c, rest, past, pending, done⟩ := h.asleep p ((members p).mpr (.inr member))
    refine ⟨c, rest, by rw [calls, if_neg (apart p member), past],
      ⟨pending.woken, ?_, ?_, ?_, pending.serial⟩, fun d old => served d (done d old)⟩
    · rw [ticks]
      exact Nat.le_succ_of_le pending.called
    · -- the thread stays because its time has not come
      have time := later p member
      rw [pending.wakeup] at time
      simp only [SleepCall.due]
      omega
    · rw [wakeup]
      exact pending.wakeup
  · rw [calls] at called
    by_cases member : p ∈ woken
    · -- the newest call is served now, at its due tick
      obtain ⟨d, rest, past, pending, done⟩ := h.asleep p ((members p).mpr (.inl member))
      rw [if_pos member, past, addWake, mem_cons] at called
      rcases called with rfl | old
      · have time := due p member
        have soon := pending.due
        have begun := pending.called
        rw [pending.wakeup] at time
        have now : after.ticks = d.due := by
          simp only [SleepCall.due] at soon ⊢
          omega
        refine ⟨?_, Nat.le_of_eq ?_⟩
        · simp only [pending.woken, nil_append, now]
          rfl
        · rw [now]
          rfl
      · exact served c (done c old)
    · rw [if_neg member] at called
      refine served c (h.awake p ?_ c called)
      rw [members]
      exact not_or.mpr ⟨member, awake⟩

theorem step_sleepOk (h : Inv k) (ok : SleepOk k log) (fits : sleepFits k e = true)
    (taken : step k e = .ok after) : SleepOk after ((log.noteWakes k after).noteCall k e) := by
  have inv := step_inv h taken
  have blocked : ∀ p ∈ after.waitList, after.status p = .blocked :=
    fun p member => ((inv.core.threads p).wait.mp member).2.1
  rcases step_sleepers h taken with ⟨wait, ticks, wakeup, notSleep⟩ |
    ⟨n, rfl, nonneg, wait, ticks, wakeup⟩ |
    ⟨rfl, handled, interrupted, wait, ticks, allList, code, wakeup⟩
  · rw [noteWakes_none fun p member => blocked p (wait ▸ member)]
    have unlogged : log.noteCall k e = log := by
      cases e with
      | sleep n => simp [SleepLog.noteCall, notSleep n rfl]
      | _ => rfl
    rw [unlogged]
    exact ok.quiet wait ticks wakeup
  · have perm := enterWaitList_perm k n
    rw [noteWakes_none fun p member =>
      blocked p (wait ▸ perm.mem_iff.mpr (mem_cons_of_mem _ member))]
    exact ok.sleep n nonneg (of_decide_eq_true fits) h.current_free.2.2.1 wait ticks wakeup
  · obtain ⟨clock, ticked, woken, _, queue, _, due, later⟩ :=
      timerInterrupt_woken (h.registers k.ticks false) ok.ordered interrupted
    have queue' : k.waitList = woken ++ after.waitList := wait ▸ queue
    refine ok.timer h.core.wait_nodup queue' (ticks.trans clock) wakeup (fun p member => ?_)
      (ticks ▸ due) (wait ▸ ticks ▸ later)
    -- a sleeper has left the queue exactly if it is no longer blocked
    obtain ⟨alive, _, down⟩ := (h.core.threads p).wait.mp member
    have living : after.Live p := by
      rw [← (inv.core.threads p).all, allList, (h.core.threads p).all]
      exact alive
    have still := (inv.core.threads p).wait
    rw [code, down] at still
    have nodup := h.core.wait_nodup
    rw [queue', nodup_append] at nodup
    rw [queue', mem_append] at member
    constructor
    · intro ready
      exact member.resolve_right fun left => ready (still.mp left).2.1
    · intro taken blocked
      exact nodup.2.2 p taken p (still.mpr ⟨living, blocked, rfl⟩) rfl

theorem reachable_sleepOk {mode : Mode} {s : Kernel × SleepLog}
    (h : Reachable (sleepSystem mode) s) : SleepOk s.1 s.2 := by
  refine h.invariant (P := fun s => SleepOk s.1 s.2) ?_ ?_
  · rintro ⟨k, log⟩ ⟨⟨values, booted⟩, rfl⟩
    have facts := threadInit_booted booted
    have wait : k.waitList = [] := facts.waitList
    exact ⟨by simp [wait], by simp [wait], by simp⟩
  · intro s e next reached before taken
    change (if sleepFits s.1 e = true then
      (step s.1 e).map fun after => (after, (s.2.noteWakes s.1 after).noteCall s.1 e)
      else .error .disabled) = .ok next at taken
    split at taken
    · rename_i fits
      obtain ⟨kernel, stepped, rfl⟩ := map_eq_ok.mp taken
      exact step_sleepOk (reachable_inv (sleepSystem_reachable reached)) before fits stepped
    · cases taken

end
end Calendarizador.Source
