import Calendarizador.Invariant.Arrivals

/-!
# Waiting times

`thread_unblock` and `thread_yield` stamp a thread with the tick at which they put it on
the ready list, and `thread_schedule_tail` turns the stamp into a waiting time. `Stamps`
says that the body of an operation writes stamps nowhere else; the log of a thread records
when it was put on the ready list and when it was dispatched, and `Waited` ties the two
fields of the thread to its log.
-/
namespace Calendarizador.Source
open Foundation

/-- The fields of a thread that its waiting time depends on. -/
def Thread.waits (t : Thread) : Status × Int × Int := (t.status, t.recentWait, t.totalWait)

/-- The threads whose waits are counted: neither `idle_thread` nor `initial_thread`. -/
def Kernel.Waiter (k : Kernel) (p : Page) : Prop := k.idleThread ≠ some p ∧ p ≠ k.initialThread

instance (k : Kernel) (p : Page) : Decidable (k.Waiter p) := inferInstanceAs (Decidable (_ ∧ _))

/-- Only threads that become ready are stamped, with the present tick. -/
structure Stamps (k after : Kernel) : Prop where
  ticks : after.ticks = k.ticks
  idleThread : after.idleThread = k.idleThread
  initialThread : after.initialThread = k.initialThread
  total : Kernel.Keeps Thread.totalWait k after
  recent : ∀ p, (after.thread p).recentWait =
    if k.status p ≠ .ready ∧ after.status p = .ready ∧ k.Waiter p then i32 k.ticks
    else (k.thread p).recentWait
  stays : ∀ p, k.status p = .ready → after.status p = .ready
  runs : ∀ p, after.status p = .running → k.status p = .running

namespace Stamps
variable {k middle after : Kernel}

/-- An operation that touches no stamp and readies nobody. -/
theorem quiet (ticks : after.ticks = k.ticks) (idleThread : after.idleThread = k.idleThread)
    (initialThread : after.initialThread = k.initialThread)
    (kept : Kernel.Keeps (fun t => (t.recentWait, t.totalWait)) k after)
    (status : ∀ p, after.status p = k.status p ∨
      (k.status p ≠ .ready ∧ after.status p ≠ .ready ∧ after.status p ≠ .running)) :
    Stamps k after where
  ticks := ticks
  idleThread := idleThread
  initialThread := initialThread
  total p := congrArg (fun w => w.2) (kept p)
  recent p := by
    rw [if_neg]
    · exact congrArg (fun w => w.1) (kept p)
    · rintro ⟨before, now, _⟩
      rcases status p with same | ⟨_, other, _⟩
      · exact before (same ▸ now)
      · exact other now
  stays p ready := by
    rcases status p with same | ⟨before, _⟩
    · rw [same, ready]
    · exact absurd ready before
  runs p running := by
    rcases status p with same | ⟨_, _, other⟩
    · rw [← same, running]
    · exact absurd running other

theorem refl (k : Kernel) : Stamps k k :=
  quiet rfl rfl rfl (fun _ => rfl) fun _ => .inl rfl

theorem accounting (h : Accounting k after) : Stamps k after :=
  quiet h.ticks h.idleThread h.initialThread
    (h.keeps (fun t => (t.recentWait, t.totalWait)) fun _ => rfl) fun p => .inl (h.status p)

theorem waiter (h : Stamps k after) (p : Page) : after.Waiter p ↔ k.Waiter p := by
  rw [Kernel.Waiter, Kernel.Waiter, h.idleThread, h.initialThread]

theorem trans (first : Stamps k middle) (second : Stamps middle after) : Stamps k after where
  ticks := second.ticks.trans first.ticks
  idleThread := second.idleThread.trans first.idleThread
  initialThread := second.initialThread.trans first.initialThread
  total := first.total.trans second.total
  recent p := by
    rw [second.recent, first.recent, first.ticks]
    simp only [first.waiter]
    by_cases between : middle.status p = .ready
    · have later := second.stays p between
      simp only [between, later, ne_eq, not_true_eq_false, false_and, if_false]
    · have before : k.status p ≠ .ready := fun ready => between (first.stays p ready)
      simp only [between, before, ne_eq, not_false_eq_true, true_and, false_and, if_false]
  stays p ready := second.stays p (first.stays p ready)
  runs p running := first.runs p (second.runs p running)

end Stamps

section
variable {k after : Kernel} {t : Page} {outcome : Outcome}

theorem stampWait_recent (k : Kernel) (t p : Page) : ((stampWait k t).thread p).recentWait =
      if p = t ∧ k.Waiter t then i32 k.ticks else (k.thread p).recentWait := by
  by_cases here : p = t
  · subst here
    by_cases counted : k.Waiter p
    · rw [if_pos ⟨rfl, counted⟩, stampWait, Kernel.upd_thread_self]
      exact if_pos counted
    · rw [if_neg fun both => counted both.2, stampWait, Kernel.upd_thread_self]
      exact if_neg counted
  · simp [stampWait, here]

/-- Stamping a thread that is not ready and readying it. -/
theorem stamps_readied (t : Page) (queue : List Page) (waits : k.status t ≠ .ready) :
    Stamps k { (stampWait k t).setStatus t .ready with readyList := queue } := by
  have status : ∀ p, ((stampWait k t).setStatus t .ready).status p =
      if p = t then .ready else k.status p := by
    intro p
    by_cases here : p = t <;> simp [stampWait, here]
  have recent : ∀ p, (((stampWait k t).setStatus t .ready).thread p).recentWait =
      ((stampWait k t).thread p).recentWait :=
    Kernel.keeps_upd (fun t => t.recentWait) _ t (Thread.setStatus .ready) fun _ => rfl
  refine ⟨rfl, rfl, rfl, ?_, fun p => ?_, fun p ready => ?_, fun p running => ?_⟩
  · have stamped : Kernel.Keeps Thread.totalWait k (stampWait k t) :=
      Kernel.keeps_upd Thread.totalWait k t _ fun _ => rfl
    exact stamped.trans
      (Kernel.keeps_upd Thread.totalWait _ t (Thread.setStatus .ready) fun _ => rfl)
  · have now : ∀ p, ({ (stampWait k t).setStatus t .ready with readyList := queue } :
        Kernel).status p = if p = t then .ready else k.status p := status
    rw [now]
    refine (recent p).trans ?_
    rw [stampWait_recent]
    by_cases here : p = t
    · subst here
      simp only [waits, true_and, if_true, ne_eq, not_false_eq_true]
    · rw [if_neg fun both => here both.1, if_neg here, if_neg fun all => all.1 all.2.1]
  · change ((stampWait k t).setStatus t .ready).status p = .ready
    rw [status]
    split
    · rfl
    · exact ready
  · change ((stampWait k t).setStatus t .ready).status p = .running at running
    rw [status] at running
    split at running
    · cases running
    · exact running

theorem threadUnblock_stamps (taken : threadUnblock k t = .ok after) : Stamps k after := by
  have blocked := (threadUnblock_effects taken).blocked
  unfold threadUnblock at taken
  split at taken
  · cases taken
    exact stamps_readied t _ (by rw [blocked]; simp)
  · cases taken

theorem threadYield_stamps (running : k.status k.current = .running) :
    Stamps k (threadYield k).kernel :=
  stamps_readied k.current _ (by rw [running]; simp)

theorem setSema_stamps (k : Kernel) (s : SemaId) (v : Semaphore) : Stamps k (k.setSema s v) :=
  .quiet (Kernel.setSema_ticks k s v) (Kernel.setSema_idleThread k s v)
    (Kernel.setSema_initialThread k s v)
    (Kernel.keeps_setSema k s v (fun t => (t.recentWait, t.totalWait)) fun _ _ => rfl)
    fun p => .inl (Kernel.setSema_status k s v p)

theorem setCode_stamps (k : Kernel) (t : Page) (c : Code) : Stamps k (k.setCode t c) :=
  .quiet rfl rfl rfl
    (Kernel.keeps_upd (fun t => (t.recentWait, t.totalWait)) k t (Thread.setCode c) fun _ => rfl)
    fun p => .inl (Kernel.keeps_upd Thread.status k t (Thread.setCode c) (fun _ => rfl) p)

theorem setStatus_stamps {status : Status} (running : k.status t ≠ .ready) (ready : status ≠ .ready)
    (runs : status ≠ .running) : Stamps k (k.setStatus t status) := by
  refine .quiet rfl rfl rfl (Kernel.keeps_upd (fun t => (t.recentWait, t.totalWait)) k t
    (Thread.setStatus status) fun _ => rfl) fun p => ?_
  by_cases here : p = t
  · subst here
    exact .inr ⟨running, by simpa using ready, by simpa using runs⟩
  · exact .inl (by simp [here])

theorem semaUp_stamps {s : SemaId} (taken : semaUp k s = .ok after) : Stamps k after := by
  unfold semaUp at taken
  rw [bind_eq_ok] at taken
  obtain ⟨woken, unblocked, ⟨⟩⟩ := taken
  refine Stamps.trans ?_ (setSema_stamps woken s _)
  unfold wakeFirst at unblocked
  split at unblocked
  · cases unblocked
    exact Stamps.refl k
  · exact (setSema_stamps k s _).trans (threadUnblock_stamps unblocked)

theorem semaDown_stamps (running : k.status k.current = .running) (s : SemaId) :
    Stamps k (semaDown k s).kernel := by
  by_cases zero : (k.sema s).value = 0
  · rw [semaDown_zero zero]
    refine ((setSema_stamps k s _).trans (setCode_stamps _ k.current (.downing s))).trans
      (setStatus_stamps ?_ (by simp) (by simp))
    simp_all
  · rw [semaDown_pos zero]
    exact (setSema_stamps k s _).trans (setCode_stamps _ _ _)

theorem wakeSleepers_stamps (list : List Page) (taken : wakeSleepers list k = .ok after) :
    Stamps k after := by
  refine wakeSleepers_invariant (P := Stamps k) list (Stamps.refl k) ?_ taken
  intro s upped t rest before upping
  have dropped : Stamps upped { upped with waitList := rest } :=
    .quiet rfl rfl rfl (fun _ => rfl) fun _ => .inl rfl
  exact (before.trans (semaUp_stamps upping)).trans dropped

/-- The clock has already moved when the handler stamps. -/
theorem intrHandler_stamps (h : Inv k) (taken : intrHandler k = .ok outcome) :
    Stamps (atTick k) outcome.kernel := by
  unfold intrHandler at taken
  rw [bind_eq_ok] at taken
  obtain ⟨handled, interrupted, ⟨⟩⟩ := taken
  have inv : Inv handled := (h.registers k.ticks false).timerInterrupt interrupted
  unfold timerInterrupt at interrupted
  rw [bind_eq_ok] at interrupted
  obtain ⟨ticked, counted, woke⟩ := interrupted
  have accounts : Accounting (atTick k) ticked := threadTick_accounting counted
  have stamps : Stamps (atTick k) handled :=
    (Stamps.accounting accounts).trans (wakeSleepers_stamps _ woke)
  split
  · exact stamps.trans (threadYield_stamps inv.running)
  · exact stamps

theorem threadExit_stamps (running : k.status k.current = .running) {rep : Int}
    (taken : threadExit k rep = .ok outcome) : Stamps k outcome.kernel := by
  obtain ⟨learned, total, learning, rfl⟩ := threadExit_effects taken
  have accounts := learnAtExit_accounting learning
  have removed : Stamps learned { learned with
      totalWaitTime := total, allList := learned.allList.erase learned.current } :=
    .quiet rfl rfl rfl (fun _ => rfl) fun _ => .inl rfl
  refine ((Stamps.accounting accounts).trans removed).trans
    (setStatus_stamps ?_ (by simp) (by simp))
  change learned.status learned.current ≠ .ready
  rw [accounts.status, accounts.current, running]
  simp

/-- The state whose stamps the body of an event starts from: the clock has moved, the idle
thread is known, or a new thread has been set up. -/
structure Prepares (k : Kernel) (e : Event) (base : Kernel) : Prop where
  ticks : k.ticks ≤ base.ticks
  waiter : ∀ p, base.Waiter p → k.Waiter p
  kept : ∀ p, (∀ name, e.creates ≠ some (p, name)) →
    (base.thread p).waits = (k.thread p).waits
  fresh : ∀ p name, e.creates = some (p, name) → (base.thread p).waits = (.blocked, 0, 0)

theorem Prepares.same (k : Kernel) {e : Event} (none : e.creates = none) : Prepares k e k where
  ticks := le_rfl
  waiter _ counted := counted
  kept _ _ := rfl
  fresh p name creates := by
    rw [none] at creates
    cases creates

theorem threadAllocate_prepares {name : Name} {priority : Int}
    (created : threadAllocate k t name priority = .ok after) :
    after.ticks = k.ticks ∧ (∀ p, after.Waiter p ↔ k.Waiter p) ∧
      ∀ p, (after.thread p).waits = if p = t then (.blocked, 0, 0) else (k.thread p).waits := by
  obtain ⟨_, _, _, effects⟩ := threadAllocate_effects created
  refine ⟨effects.ticks, fun p => ?_, fun p => ?_⟩
  · rw [Kernel.Waiter, effects.idleThread, effects.initialThread]
    rfl
  · rw [effects.thread]
    split <;> rfl

/-- Every body stamps the threads it readies and no others. -/
theorem opBody_stamps (h : Inv k) {e : Event} (enabled : e.enabled k = true)
    (taken : opBody k e = .ok outcome) :
    ∃ base, Prepares k e base ∧ Stamps base outcome.kernel := by
  have notReady : k.status k.current ≠ .ready := by
    rw [h.running]
    simp
  cases opBody_performs taken with
  | @startIdle p created unblocked allocates unblocks =>
    obtain ⟨ticks, waiter, waits⟩ := threadAllocate_prepares allocates
    refine ⟨created, ⟨ticks.ge, fun q => (waiter q).mp, fun q other => ?_, fun q name here => ?_⟩,
      (threadUnblock_stamps unblocks).trans (setCode_stamps _ _ _)⟩
    · have different : q ≠ p := fun same => other idleName (by rw [same]; rfl)
      rw [waits, if_neg different]
      exact Kernel.keeps_upd Thread.waits k k.current (Thread.setCode .startWait) (fun _ => rfl) q
    · cases here
      rw [waits, if_pos rfl]
  | @create p name priority created allocates =>
    obtain ⟨ticks, waiter, waits⟩ := threadAllocate_prepares allocates
    refine ⟨created, ⟨ticks.ge, fun q => (waiter q).mp, fun q other => ?_, fun q name here => ?_⟩,
      Stamps.refl created⟩
    · have different : q ≠ p := fun same => other (name.take 15) (by rw [same]; rfl)
      rw [waits, if_neg different]
    · cases here
      rw [waits, if_pos rfl]
  | noPage | noSleep => exact ⟨k, .same k rfl, Stamps.refl k⟩
  | startDown | semaDown | semaRetry => exact ⟨k, .same k rfl, semaDown_stamps h.running _⟩
  | unblock unblocks =>
    exact ⟨k, .same k rfl, (threadUnblock_stamps unblocks).trans (setCode_stamps _ _ _)⟩
  | block =>
    refine ⟨k, .same k rfl, (setCode_stamps k k.current .parked).trans
      (setStatus_stamps ?_ (by simp) (by simp))⟩
    simpa using notReady
  | idleBlock => exact ⟨k, .same k rfl, setStatus_stamps notReady (by simp) (by simp)⟩
  | semaTryDown n =>
    refine ⟨k, .same k rfl, ?_⟩
    simp only [Outcome.kernel, semaTryDown]
    split
    · exact setSema_stamps k _ _
    · exact Stamps.refl k
  | semaUp ups => exact ⟨k, .same k rfl, semaUp_stamps ups⟩
  | idleUp ups => exact ⟨k, .same k rfl, (semaUp_stamps ups).trans (setCode_stamps _ _ _)⟩
  | @sleep n nonneg =>
    have entered : Stamps k (enterWaitList k n) :=
      .quiet rfl rfl rfl (enterWaitList_keeps k n (fun t => (t.recentWait, t.totalWait))
        fun _ _ => rfl) fun p => .inl (enterWaitList_status k n p)
    have running : (enterWaitList k n).status (enterWaitList k n).current = .running := by
      rw [enterWaitList_status]
      exact h.running
    exact ⟨k, .same k rfl, entered.trans (semaDown_stamps running _)⟩
  | yield => exact ⟨k, .same k rfl, threadYield_stamps h.running⟩
  | exit => exact ⟨k, .same k rfl, setCode_stamps _ _ _⟩
  | exitFinish place exits => exact ⟨k, .same k rfl, threadExit_stamps h.running exits⟩
  | setPriority priority =>
    exact ⟨k, .same k rfl, .accounting (threadSetPriority_accounting k priority)⟩
  | setNice nice => exact ⟨k, .same k rfl, .accounting (threadSetNice_accounting k nice)⟩
  | idleSet =>
    refine ⟨{ k with idleThread := some k.current }, ⟨le_rfl, fun p counted => ⟨?_, counted.2⟩,
      fun _ _ => rfl, fun p name creates => by cases creates⟩, setCode_stamps _ _ _⟩
    have entry : k.code k.current = .idleEntry := of_decide_eq_true enabled
    rw [((h.core.threads k.current).entry h.live entry).1]
    simp
  | timer handles =>
    exact ⟨atTick k, ⟨Nat.le_succ _, fun _ counted => counted, fun _ _ => rfl,
      fun p name creates => by cases creates⟩, intrHandler_stamps h handles⟩

end

/-- When a thread was last put on the ready list, and its waits so far, each as the tick it
was put there and the tick it was dispatched. -/
structure ReadyLog where
  since : Nat
  waits : List (Nat × Nat)

namespace ReadyLog

def empty : ReadyLog := ⟨0, []⟩

/-- The time spent in the waits of the log. -/
def total (log : ReadyLog) : Int := (log.waits.map fun wait => (wait.2 : Int) - wait.1).sum

def put (log : ReadyLog) (now : Nat) : ReadyLog := { log with since := now }

def dispatch (log : ReadyLog) (now : Nat) : ReadyLog :=
  { log with waits := log.waits ++ [(log.since, now)] }

theorem total_dispatch (log : ReadyLog) (now : Nat) :
    (log.dispatch now).total = log.total + ((now : Int) - log.since) := by
  simp [total, dispatch]

end ReadyLog

/-- The logs when the body of an event is done: a new thread starts an empty log, and a
thread that the event put on the ready list was put there at the present tick. -/
def logReady (k : Kernel) (e : Event) (outcome : Outcome) (logs : Page → ReadyLog) (p : Page) :
    ReadyLog :=
  let log := if (e.creates.map fun made => made.1) = some p then ReadyLog.empty else logs p
  if p ∈ outcome.kernel.readyList ∧ p ∉ k.readyList then log.put outcome.kernel.ticks else log

/-- The logs after the `schedule` call of a body, if it makes one. -/
def logDispatch (outcome : Outcome) (after : Kernel) (logs : Page → ReadyLog) (p : Page) :
    ReadyLog :=
  match outcome with
  | .returns _ => logs p
  | .schedules _ => if p = after.current then (logs p).dispatch after.ticks else logs p

/-- What a step adds to the logs. -/
def logReadying (k : Kernel) (e : Event) (after : Kernel) (logs : Page → ReadyLog) :
    Page → ReadyLog :=
  match opBody k e with
  | .error _ => logs
  | .ok outcome => logDispatch outcome after (logReady k e outcome logs)

/-- A thread and its log. The waits of a thread do not overlap, so their sum is bounded by
the clock. -/
structure Waited (k : Kernel) (log : ReadyLog) (p : Page) : Prop where
  total : (k.thread p).totalWait = log.total
  nonneg : 0 ≤ log.total
  bound : log.total ≤ k.ticks
  ready : k.status p = .ready →
    (k.thread p).recentWait = log.since ∧ log.total ≤ log.since ∧ log.since ≤ k.ticks
  running : k.status p = .running → (k.thread p).recentWait = 0

/-- Every thread whose waits are counted agrees with its log, as long as the clock fits an
`int`. -/
def WaitsLogged (k : Kernel) (logs : Page → ReadyLog) : Prop :=
  k.ticks < 2147483648 → ∀ p, k.Live p → k.Waiter p → Waited k (logs p) p

section
variable {k after : Kernel} {logs : Page → ReadyLog} {p : Page} {log : ReadyLog} {ready : Kernel}

/-- Being on the ready list and being ready is the same for a thread that is counted. -/
theorem Core.ready_iff (h : Core k) (alive : k.Live p) (counted : k.Waiter p) :
    p ∈ k.readyList ↔ k.status p = .ready := by
  rw [(h.threads p).ready]
  exact ⟨fun all => all.2.1, fun ready => ⟨alive, ready, counted.1⟩⟩

theorem i32_clock {now : Nat} (small : now < 2147483648) : i32 (now : Int) = now :=
  i32_of_bounds _ (by omega) (by omega)

/-- A thread that was set up in the same event. -/
theorem waited_fresh {base : Kernel} (stamps : Stamps base after) (small : after.ticks < 2147483648)
    (counted : base.Waiter p) (fresh : (base.thread p).waits = (.blocked, 0, 0))
    (new : log =
      if after.status p = .ready then ReadyLog.empty.put after.ticks else ReadyLog.empty) :
    Waited after log p := by
  have blocked : base.status p = .blocked := congrArg (fun w => w.1) fresh
  have nothing : (base.thread p).totalWait = 0 := congrArg (fun w => w.2.2) fresh
  have empty : log.total = 0 := by
    rw [new]
    split <;> rfl
  refine ⟨?_, empty.ge, ?_, fun ready => ?_, fun running => ?_⟩
  · rw [stamps.total, nothing, empty]
  · rw [empty]
    exact Int.natCast_nonneg _
  · have stamped := stamps.recent p
    rw [if_pos ⟨by rw [blocked]; simp, ready, counted⟩, ← stamps.ticks, i32_clock small] at stamped
    rw [if_pos ready] at new
    have since : log.since = after.ticks := by rw [new]; rfl
    rw [since, empty]
    exact ⟨stamped, Int.natCast_nonneg _, le_rfl⟩
  · have before := stamps.runs p running
    rw [blocked] at before
    cases before

/-- A thread that was there before the event. -/
theorem Waited.stamps {base : Kernel} {new : ReadyLog} (h : Waited k log p)
    (stamps : Stamps base after) (small : after.ticks < 2147483648) (clock : k.ticks ≤ base.ticks)
    (counted : base.Waiter p) (kept : (base.thread p).waits = (k.thread p).waits)
    (noted : new = if after.status p = .ready ∧ k.status p ≠ .ready then log.put after.ticks
      else log) : Waited after new p := by
  have status : base.status p = k.status p := congrArg (fun w => w.1) kept
  have recent : (base.thread p).recentWait = (k.thread p).recentWait :=
    congrArg (fun w => w.2.1) kept
  have total : (base.thread p).totalWait = (k.thread p).totalWait := congrArg (fun w => w.2.2) kept
  have same : new.total = log.total := by
    rw [noted]
    split <;> rfl
  have later : k.ticks ≤ after.ticks := clock.trans stamps.ticks.ge
  have bound := h.bound
  have stamped := stamps.recent p
  rw [status, recent] at stamped
  refine ⟨?_, by rw [same]; exact h.nonneg, by omega, fun ready => ?_, fun running => ?_⟩
  · rw [stamps.total, total, same]
    exact h.total
  · by_cases before : k.status p = .ready
    · obtain ⟨since, waited, past⟩ := h.ready before
      rw [if_neg fun both => both.2 before] at noted
      rw [if_neg fun all => all.1 before] at stamped
      subst noted
      exact ⟨stamped.trans since, waited, past.trans later⟩
    · rw [if_pos ⟨ready, before⟩] at noted
      rw [if_pos ⟨before, ready, counted⟩, ← stamps.ticks, i32_clock small] at stamped
      subst noted
      exact ⟨stamped, by rw [same]; exact bound.trans (by exact_mod_cast later), le_rfl⟩
  · have before := stamps.runs p running
    rw [status] at before
    rw [if_neg fun all => by rw [running] at all; cases all.2.1] at stamped
    rw [stamped]
    exact h.running before

/-- The body of an event. -/
theorem WaitsLogged.opBody (h : WaitsLogged k logs) (inv : Inv k) {e : Event}
    (enabled : e.enabled k = true) {outcome : Outcome} (taken : opBody k e = .ok outcome) :
    WaitsLogged outcome.kernel (logReady k e outcome logs) := by
  intro small p alive counted
  obtain ⟨base, prepares, stamps⟩ := opBody_stamps inv enabled taken
  have core := (opBody_inv inv e enabled taken).core
  have listed := core.ready_iff alive counted
  have waiter := (stamps.waiter p).mp counted
  rcases (opBody_live inv enabled taken).1 p alive with was | ⟨free, name, creates⟩
  · have old : ∀ name, e.creates ≠ some (p, name) :=
      fun _ => created_fresh inv enabled taken was.1
    have before := inv.core.ready_iff was (prepares.waiter p waiter)
    have clock : k.ticks ≤ outcome.kernel.ticks := prepares.ticks.trans stamps.ticks.ge
    refine (h (clock.trans_lt small) p was (prepares.waiter p waiter)).stamps stamps small
      prepares.ticks waiter (prepares.kept p old) ?_
    have other : (e.creates.map fun made => made.1) ≠ some p := by
      intro made
      obtain ⟨⟨q, name⟩, creates, rfl⟩ := Option.map_eq_some_iff.mp made
      exact old name creates
    simp only [logReady, other, if_false, listed, before, ne_eq]
  · have unlisted : p ∉ k.readyList := by
      intro member
      have allocated := ((inv.core.threads p).ready.mp member).1.1
      rw [free] at allocated
      cases allocated
    refine waited_fresh stamps small waiter (prepares.fresh p name creates) ?_
    simp only [logReady, creates, Option.map_some, if_true, listed, unlisted,
      not_false_eq_true, and_true]

/-- What a dispatch does to the waiting times. -/
theorem schedule_waits (taken : schedule ready = .ok after) :
    (after.current ∈ ready.readyList ∨ ready.idleThread = some after.current) ∧
      after.ticks = ready.ticks ∧ ∀ p, (after.thread p).waits =
        if p = after.current then (.running, 0, i32 ((ready.thread p).totalWait +
          i32 (ready.ticks - (ready.thread p).recentWait)))
        else (ready.thread p).waits := by
  obtain ⟨_, next, rest, picked, rfl⟩ := schedule_effects taken
  rw [dispatch_current]
  refine ⟨?_, dispatch_ticks _ _, fun p => ?_⟩
  · rcases picked with front | ⟨_, _, idle⟩
    · exact .inl (by simp [front])
    · exact .inr idle
  · rw [dispatch_thread]
    split
    · split <;> rfl
    · split <;> rfl

/-- The thread put on the CPU ends its wait. -/
theorem Waited.dispatch (h : Waited ready log p) (queued : ready.status p = .ready)
    (clock : after.ticks = ready.ticks) (small : after.ticks < 2147483648)
    (waits : (after.thread p).waits = (.running, 0, i32 ((ready.thread p).totalWait +
      i32 (ready.ticks - (ready.thread p).recentWait)))) :
    Waited after (log.dispatch after.ticks) p := by
  obtain ⟨since, before, past⟩ := h.ready queued
  have nonneg := h.nonneg
  have running : after.status p = .running := congrArg (fun w => w.1) waits
  have total : (after.thread p).totalWait = log.total + ((after.ticks : Int) - log.since) := by
    have stored : (after.thread p).totalWait = i32 ((ready.thread p).totalWait +
        i32 (ready.ticks - (ready.thread p).recentWait)) := congrArg (fun w => w.2.2) waits
    rw [stored, h.total, since, i32_add_right, clock]
    exact i32_of_bounds _ (by omega) (by omega)
  refine ⟨?_, ?_, ?_, fun ready => ?_, fun _ => congrArg (fun w => w.2.1) waits⟩
  · rw [total, ReadyLog.total_dispatch]
  · rw [ReadyLog.total_dispatch]
    omega
  · rw [ReadyLog.total_dispatch]
    omega
  · rw [running] at ready
    cases ready

/-- The other threads are left as they are. -/
theorem Waited.frame (h : Waited ready log p) (clock : after.ticks = ready.ticks)
    (waits : (after.thread p).waits = (ready.thread p).waits) : Waited after log p := by
  have status : after.status p = ready.status p := congrArg (fun w => w.1) waits
  have recent : (after.thread p).recentWait = (ready.thread p).recentWait :=
    congrArg (fun w => w.2.1) waits
  have total : (after.thread p).totalWait = (ready.thread p).totalWait :=
    congrArg (fun w => w.2.2) waits
  refine ⟨total.trans h.total, h.nonneg, by rw [clock]; exact h.bound, fun queued => ?_,
    fun running => ?_⟩
  · rw [status] at queued
    rw [recent, clock]
    exact h.ready queued
  · rw [status] at running
    exact recent.trans (h.running running)

/-- The `schedule` call of a body. -/
theorem WaitsLogged.schedule (h : WaitsLogged ready logs) (core : Core ready)
    (taken : schedule ready = .ok after) :
    WaitsLogged after (logDispatch (.schedules ready) after logs) := by
  intro small p alive counted
  have switched := schedule_switched core taken
  obtain ⟨picked, clock, waits⟩ := schedule_waits taken
  have waiter : ready.Waiter p := by
    rw [Kernel.Waiter, switched.idleThread, switched.initialThread] at counted
    exact counted
  have waited := h (clock ▸ small) p ((switched.live p).mp alive) waiter
  have wrote := waits p
  simp only [logDispatch]
  by_cases here : p = after.current
  · rw [if_pos here] at wrote ⊢
    have queued : ready.status p = .ready := by
      rcases picked with front | idle
      · rw [← here] at front
        exact ((core.threads p).ready.mp front).2.1
      · rw [← here] at idle
        exact absurd idle waiter.1
    exact waited.dispatch queued clock small wrote
  · rw [if_neg here] at wrote ⊢
    exact waited.frame clock wrote

/-- No thread is counted when the run starts: there is only `initial_thread`. -/
theorem waitsLogged_start {mode : Mode} {values : Nat → Nat}
    (booted : threadInit mode values = .ok k) : WaitsLogged k fun _ => ReadyLog.empty := by
  intro _ p alive counted
  have start := threadInit_booted booted
  exact absurd ((start.live p alive).trans start.initialThread.symm) counted.2

theorem WaitsLogged.step (h : WaitsLogged k logs) (inv : Inv k) {e : Event}
    (taken : step k e = .ok after) : WaitsLogged after (logReadying k e after logs) := by
  obtain ⟨enabled, body | ⟨ready, body, scheduled⟩⟩ := step_effects taken
  · simp only [logReadying, body]
    exact h.opBody inv enabled body
  · simp only [logReadying, body]
    exact (h.opBody inv enabled body).schedule (opBody_inv inv e enabled body).core scheduled

/-- Along every run the threads agree with their logs. -/
theorem reachable_waitsLogged {mode : Mode} {s : Kernel × (Page → ReadyLog)}
    (h : Reachable ((kernelSystem mode).recording (fun _ => ReadyLog.empty) logReadying) s) :
    Reachable (kernelSystem mode) s.1 ∧ WaitsLogged s.1 s.2 := by
  refine h.recorded ?_ ?_
  · rintro k ⟨values, booted⟩
    exact waitsLogged_start booted
  · intro k logs e after reached logged taken
    exact logged.step (reachable_inv reached) taken

end
end Calendarizador.Source
