import Calendarizador.Invariant.Run

/-!
# What one step can do

`opBody_effects` sorts the events by their effect on the data that outlives a single
operation: name, stack, counters, wake-up time, burst estimate and recent CPU time of the
threads, the records, the sleep queue, the clock and the load average. All but five kinds of
event leave these alone (`Calm`). The invariants about histories start from this lemma.
-/
namespace Calendarizador.Source
open Foundation
variable {outcome : Outcome} {k after middle : Kernel} {β : Type} {mode : Mode}

/-- The lasting part of a thread. -/
def Thread.kept (t : Thread) : Name × Frame × Nat × Int × Int × Int × Int :=
  (t.name, t.frame, t.dispatches, t.repeats, t.wakeupTime, t.totalExec, t.recentCpu)

/-- The state in which an operation returns or calls `schedule`. -/
def Outcome.kernel : Outcome → Kernel
  | .returns k => k
  | .schedules k => k

theorem Outcome.Good.core (h : outcome.Good) : Core outcome.kernel := by
  cases outcome with
  | returns k => exact Inv.core h
  | schedules k => exact h

/-- Live threads of the new state existed before if `all_list` did not grow. -/
theorem live_of_allList (h : Core k) (good : Core after) (allList : after.allList ⊆ k.allList)
    (p : Page) (alive : after.Live p) : k.Live p :=
  (h.threads p).all.mp (allList ((good.threads p).all.mpr alive))

/-- `rep` and `seen` are read by the running thread or were read before. -/
def ExitsRead (k after : Kernel) : Prop :=
  ∀ p rep seen, after.code p = .exiting rep seen → k.code p = .exiting rep seen ∨
    (p = k.current ∧ rep = (k.thread p).repeats ∧ seen = (k.thread p).dispatches)

/-- Nothing happens to the lists of threads and to what a thread keeps. -/
structure Calm (k after : Kernel) : Prop extends SameThreads k after where
  kept : Kernel.Keeps Thread.kept k after
  exits : ExitsRead k after

/-- A thread was created on the page `t`. -/
structure Born (k : Kernel) (t : Page) (name : Name) (after : Kernel) : Prop where
  free : k.allocated t = false
  kept : ∀ p, p ≠ t → (after.thread p).kept = (k.thread p).kept
  fresh : (after.thread t).kept =
    (name, .entry, 0, 0, 0, if k.mode = .sjf then estimate k name else 0, 0)
  mode : after.mode = k.mode
  allocated : after.allocated = Function.update k.allocated t true
  allList : after.allList = k.allList ++ [t]
  allAllList : after.allAllList =
    if k.mode = .sjf ∧ recordOf k name = none then k.allAllList ++ [t] else k.allAllList
  waitList : after.waitList = k.waitList
  current : after.current = k.current
  initialThread : after.initialThread = k.initialThread
  ticks : after.ticks = k.ticks
  loadAvg : after.loadAvg = k.loadAvg
  exits : ∀ p rep seen, after.code p = .exiting rep seen → p ≠ t ∧ k.code p = .exiting rep seen

theorem Calm.refl (k : Kernel) : Calm k k :=
  ⟨⟨rfl, rfl, rfl, rfl, rfl, rfl, rfl, rfl, rfl⟩, fun _ => rfl, fun _ _ _ => .inl⟩

theorem Calm.trans (first : Calm k middle) (second : Calm middle after)
    (settled : ∀ p rep seen, after.code p = .exiting rep seen → middle.code p = .exiting rep seen) :
    Calm k after where
  toSameThreads := first.toSameThreads.trans second.toSameThreads
  kept := first.kept.trans second.kept
  exits p rep seen code := first.exits p rep seen (settled p rep seen code)

/-- A write of one thread's status, code or stamps. -/
theorem calm_upd (k : Kernel) (p : Page) (f : Thread → Thread) (ignores : ∀ t, (f t).kept = t.kept)
    (settled : ∀ t rep seen, (f t).code = .exiting rep seen → t.code = .exiting rep seen) :
    Calm k (k.upd p f) := by
  refine ⟨(upd_globals k p f).toSameThreads, Kernel.keeps_upd _ k p f ignores, ?_⟩
  intro q rep seen code
  left
  by_cases here : q = p
  · subst here
    exact settled _ rep seen (by simpa using code)
  · simpa [here] using code

/-- Moving a thread to a place where it does not exit. -/
theorem Calm.setCode (h : Calm k middle) (p : Page) {code : Code}
    (stays : ∀ rep seen, code ≠ .exiting rep seen) : Calm k (middle.setCode p code) := by
  refine h.trans (calm_upd middle p _ (fun _ => rfl) ?_) ?_
  · exact fun _ rep seen exits => absurd exits (stays rep seen)
  · intro q rep seen exits
    by_cases here : q = p
    · subst here
      exact absurd (by simpa using exits) (stays rep seen)
    · simpa [here] using exits

theorem calm_globals (globals : SameGlobals k after) (kept : Kernel.Keeps Thread.kept k after)
    (exits : ExitsRead k after) : Calm k after :=
  ⟨globals.toSameThreads, kept, exits⟩

theorem calm_setSema (k : Kernel) (s : SemaId) (v : Semaphore) : Calm k (k.setSema s v) := by
  refine calm_globals (setSema_globals k s v)
    (Kernel.keeps_setSema k s v Thread.kept fun _ _ => rfl) fun p rep seen code => .inl ?_
  simpa using code

theorem Unblocked.calm {t : Page} (h : Unblocked k t after) : Calm k after := by
  refine calm_globals h.globals (h.keeps Thread.kept (fun _ _ => rfl) fun _ _ => rfl)
    fun p rep seen code => .inl ?_
  rwa [h.code] at code

theorem semaUp_calm {s : SemaId} (taken : semaUp k s = .ok after) : Calm k after := by
  rcases semaUp_effects taken with ⟨_, rfl⟩ | ⟨t, woken⟩
  · exact calm_setSema k s _
  · refine calm_globals woken.globals
      (woken.keeps Thread.kept (fun _ _ => rfl) (fun _ _ => rfl) fun _ _ => rfl)
      fun p rep seen code => .inl ?_
    rwa [woken.code] at code

theorem blockOn_calm (k : Kernel) (s : SemaId) : Calm k (blockOn k s) := by
  refine calm_globals (blockOn_globals k s)
    (blockOn_keeps k s Thread.kept {})
    fun p rep seen code => .inl ?_
  rw [blockOn_code] at code
  split at code
  · cases code
  · exact code

theorem semaDown_calm (k : Kernel) (s : SemaId) : Calm k (semaDown k s).kernel := by
  by_cases zero : (k.sema s).value = 0
  · rw [semaDown_zero zero]
    exact blockOn_calm k s
  · rw [semaDown_pos zero]
    exact (calm_setSema k s _).setCode _ (by simp)

theorem threadYield_calm (k : Kernel) : Calm k (threadYield k).kernel := by
  have stamped : Calm k (stampWait k k.current) :=
    calm_upd k k.current _ (fun _ => rfl) fun _ _ _ code => code
  have readied : Calm (stampWait k k.current)
      ((stampWait k k.current).setStatus k.current .ready) :=
    calm_upd _ _ _ (fun _ => rfl) fun _ _ _ code => code
  have same : ∀ p, ((stampWait k k.current).setStatus k.current .ready).code p =
      (stampWait k k.current).code p := by
    intro p
    by_cases here : p = k.current <;> simp [here]
  have both := stamped.trans readied fun p rep seen code => by rwa [same] at code
  exact ⟨⟨both.mode, both.allocated, both.allList, both.allAllList, both.waitList, both.current,
    both.initialThread, both.ticks, both.loadAvg⟩, both.kept, both.exits⟩

/-- Refreshing priorities writes nothing but priorities and their history. -/
theorem refreshPriority_keeps (f : Thread → β) (ignores : ∀ t, f (Thread.refreshPriority t) = f t)
    (k : Kernel) : Kernel.Keeps f k (refreshPriority k) :=
  refreshPriority_invariant (fun _ => rfl) fun s t before =>
    before.trans (Kernel.keeps_upd f s t _ ignores)

theorem refreshPriority_eq (k : Kernel) :
    refreshPriority k = { k with thread := (refreshPriority k).thread } := by
  refine refreshPriority_invariant (P := fun s => s = { k with thread := s.thread }) rfl ?_
  intro s t same
  rw [same]
  rfl

theorem refreshPriority_calm (k : Kernel) : Calm k (refreshPriority k) := by
  have accounts := refreshPriority_accounting k
  refine ⟨⟨accounts.mode, accounts.allocated, accounts.allList, by rw [refreshPriority_eq],
    accounts.waitList, accounts.current, accounts.initialThread, accounts.ticks,
    by rw [refreshPriority_eq]⟩, refreshPriority_keeps Thread.kept (fun _ => rfl) k,
    fun p rep seen code => .inl ?_⟩
  rwa [accounts.code] at code

/-- `thread_set_priority` and `thread_set_nice`. -/
theorem setting_calm (k : Kernel) (f : Thread → Thread) (ignores : ∀ t, (f t).kept = t.kept)
    (code : ∀ t, (f t).code = t.code) :
    Calm k (if (k.upd k.current f).mode = .mlfqs then refreshPriority (k.upd k.current f)
      else k.upd k.current f) := by
  have set : Calm k (k.upd k.current f) :=
    calm_upd k k.current f ignores fun t rep seen exits => by rwa [code] at exits
  split
  · refine set.trans (refreshPriority_calm _) fun p rep seen exits => ?_
    rwa [(refreshPriority_accounting _).code] at exits
  · exact set

theorem threadAllocate_born (h : Inv k) {t : Page} {name : Name} {priority : Int}
    (created : threadAllocate k t name priority = .ok after) : Born k t (name.take 15) after := by
  obtain ⟨free, _, _, effects⟩ := threadAllocate_effects created
  have unused : k.allocated t = false := by simpa using free
  -- the new page is not a record, so the lookup sees the records as they were
  have others : ∀ r ∈ k.allAllList,
      ((pallocGetPage k t).upd t fun _ => blankThread name priority).thread r = k.thread r := by
    intro r member
    have other : r ≠ t := fun same => free (same ▸ ((h.core.threads r).record member).1)
    simp [pallocGetPage, other]
  have lookup : recordOf ((pallocGetPage k t).upd t fun _ => blankThread name priority)
      (name.take 15) = recordOf k (name.take 15) :=
    recordOf_congr rfl fun r member => by rw [others r member]
  have value : estimate ((pallocGetPage k t).upd t fun _ => blankThread name priority)
      (name.take 15) = estimate k (name.take 15) :=
    estimate_congr rfl (fun r member => by rw [others r member])
      fun r member => by rw [others r member]
  have named : (((pallocGetPage k t).upd t fun _ => blankThread name priority).thread t).name =
    name.take 15 := by simp [blankThread]
  refine ⟨unused, fun p other => ?_, ?_, effects.mode, effects.allocated, effects.allList, ?_,
    effects.wait, effects.current, effects.initialThread, effects.ticks, effects.loadAvg,
    fun p rep seen code => ?_⟩
  · rw [effects.thread, if_neg other]
    rfl
  · rw [effects.thread, if_pos rfl, newThread, firstEstimate, getTotalExec_fst, named, value]
    rfl
  · rw [effects.records, firstRecords, getTotalExec_snd, named, lookup]
    by_cases sjf : k.mode = .sjf
    · simp [sjf, pallocGetPage]
    · simp [sjf, pallocGetPage]
  · rw [effects.code] at code
    split at code
    · cases code
    · rename_i other
      exact ⟨other, code⟩

theorem startIdle_born {created : Kernel} (h : Inv k) (early : k.code k.current = .start) {p : Page}
    (allocated : threadAllocate (k.setCode k.current .startWait) p idleName priMin = .ok created)
    (unblocked : threadUnblock created p = .ok after) :
    Born k p idleName (after.setCode p .idleEntry) := by
  have begun : Inv (k.setCode k.current .startWait) := h.startWait early
  have wait : Calm k (k.setCode k.current .startWait) :=
    (Calm.refl k).setCode k.current (by simp)
  have born : Born (k.setCode k.current .startWait) p idleName created :=
    threadAllocate_born begun allocated
  have entered : Calm created (after.setCode p .idleEntry) :=
    (threadUnblock_effects unblocked).calm.setCode p (by simp)
  have code : ∀ q, (after.setCode p .idleEntry).code q =
      if q = p then .idleEntry else created.code q := by
    intro q
    rw [← (threadUnblock_effects unblocked).code]
    by_cases here : q = p <;> simp [here]
  have name : ∀ q, (k.setCode k.current .startWait |>.thread q).name = (k.thread q).name :=
    fun q => congrArg (fun t => t.1) (wait.kept q)
  have exec : ∀ q, (k.setCode k.current .startWait |>.thread q).totalExec =
      (k.thread q).totalExec := fun q => congrArg (fun t => t.2.2.2.2.2.1) (wait.kept q)
  have lookup : recordOf (k.setCode k.current .startWait) idleName = recordOf k idleName :=
    recordOf_congr rfl fun r _ => name r
  have value : estimate (k.setCode k.current .startWait) idleName = estimate k idleName :=
    estimate_congr rfl (fun r _ => name r) fun r _ => exec r
  refine ⟨born.free, fun q other => ?_, ?_, ?_, ?_, ?_, ?_, ?_, ?_, ?_, ?_, ?_, ?_⟩
  · rw [entered.kept, born.kept q other, wait.kept]
  · rw [entered.kept, born.fresh, value]
    rfl
  · exact entered.mode.trans born.mode
  · exact entered.allocated.trans born.allocated
  · exact entered.allList.trans born.allList
  · rw [entered.allAllList, born.allAllList, lookup]
    rfl
  · exact entered.waitList.trans born.waitList
  · exact entered.current.trans born.current
  · exact entered.initialThread.trans born.initialThread
  · exact entered.ticks.trans born.ticks
  · exact entered.loadAvg.trans born.loadAvg
  · intro q rep seen exits
    rw [code] at exits
    split at exits
    · cases exits
    · rename_i other
      refine ⟨other, ?_⟩
      rcases wait.exits q rep seen (born.exits q rep seen exits).2 with old | ⟨here, _⟩
      · exact old
      · have now := (born.exits q rep seen exits).2
        rw [here] at now
        simp at now

/-- What `thread_init` leaves: one thread, `main`, on page 0. -/
structure Booted (chosen : Mode) (k : Kernel) : Prop where
  mode : k.mode = chosen
  live : ∀ p, k.Live p → p = 0
  kept : (k.thread 0).kept = (mainName, .onCpu, 0, 0, 0, 0, 0)
  records : k.allAllList = if chosen = .sjf then [0] else []
  current : k.current = 0
  initialThread : k.initialThread = 0
  readyList : k.readyList = []
  waitList : k.waitList = []
  ticks : k.ticks = 0
  loadAvg : k.loadAvg = 0
  recentCpu : ∀ p, (k.thread p).recentCpu = 0

theorem threadInit_booted {values : Nat → Nat} (booted : threadInit mode values = .ok k) :
    Booted mode k := by
  obtain ⟨made, effects, rfl⟩ := threadInit_effects booted
  have named : (((blankKernel mode values).upd 0 fun _ => blankThread mainName 0).thread 0).name =
    mainName := by simp [blankThread, mainName]
  have missing : recordOf ((blankKernel mode values).upd 0 fun _ => blankThread mainName 0)
    mainName = none := rfl
  have value : estimate ((blankKernel mode values).upd 0 fun _ => blankThread mainName 0)
    mainName = 0 := rfl
  refine ⟨effects.mode, fun p alive => ?_, ?_, ?_, effects.current, effects.initialThread,
    effects.ready, effects.wait, effects.ticks, effects.loadAvg, fun p => ?_⟩
  · have used : made.allocated p = true := alive.1
    rw [effects.allocated] at used
    exact of_decide_eq_true used
  · have made_kept : (made.thread 0).kept = (mainName, .entry, 0, 0, 0, 0, 0) := by
      rw [effects.thread, if_pos rfl, newThread, firstEstimate, getTotalExec_fst, named, value,
        ite_self]
      rfl
    simp only [Thread.kept, Kernel.upd_thread_self, Prod.mk.injEq] at made_kept ⊢
    exact ⟨made_kept.1, trivial, made_kept.2.2⟩
  · change made.allAllList = _
    rw [effects.records, firstRecords, getTotalExec_snd, named, missing]
    rfl
  · have made_cpu : (made.thread p).recentCpu = 0 := by
      rw [effects.thread]
      split <;> rfl
    by_cases here : p = 0
    · subst here
      simpa using made_cpu
    · simpa [here] using made_cpu

theorem threadInit_code {values : Nat → Nat} (booted : threadInit mode values = .ok k) (p : Page) :
    k.code p = if p = 0 then .start else .parked := by
  obtain ⟨made, effects, rfl⟩ := threadInit_effects booted
  by_cases here : p = 0
  · simp [here]
  · rw [if_neg here, Kernel.code, Kernel.upd_thread_of_ne _ _ _ _ here, effects.thread, if_neg here]
    rfl

/-- The registers and lists that a timer interrupt leaves alone. -/
structure SameLists (k after : Kernel) : Prop where
  mode : after.mode = k.mode
  allocated : after.allocated = k.allocated
  allList : after.allList = k.allList
  current : after.current = k.current
  idleThread : after.idleThread = k.idleThread
  initialThread : after.initialThread = k.initialThread

theorem SameLists.trans (first : SameLists k middle) (second : SameLists middle after) :
    SameLists k after :=
  ⟨second.mode.trans first.mode, second.allocated.trans first.allocated,
    second.allList.trans first.allList, second.current.trans first.current,
    second.idleThread.trans first.idleThread, second.initialThread.trans first.initialThread⟩

theorem SameGlobals.lists (h : SameGlobals k after) : SameLists k after :=
  ⟨h.mode, h.allocated, h.allList, h.current, h.idleThread, h.initialThread⟩

theorem SameLists.control (h : SameLists k after) : SameControl k after :=
  ⟨h.mode, h.current, h.idleThread, h.initialThread⟩

theorem Accounting.lists (h : Accounting k after) : SameLists k after :=
  ⟨h.mode, h.allocated, h.allList, h.current, h.idleThread, h.initialThread⟩

/-- The wake-ups of a tick write the status, the wait stamp and the semaphore of the
threads they wake. -/
theorem wakeSleepers_keeps (f : Thread → β) (steady : Thread.Steady f) (list : List Page)
    (taken : wakeSleepers list k = .ok after) :
    Kernel.Keeps f k after ∧ SameLists k after ∧ after.allAllList = k.allAllList ∧
      after.ticks = k.ticks := by
  refine wakeSleepers_invariant (P := fun s => Kernel.Keeps f k s ∧ SameLists k s ∧
    s.allAllList = k.allAllList ∧ s.ticks = k.ticks) list
    ⟨fun _ => rfl, ⟨rfl, rfl, rfl, rfl, rfl, rfl⟩, rfl, rfl⟩ ?_ taken
  rintro s upped t rest ⟨kept, lists, records, clock⟩ upping
  have globals := semaUp_globals upping
  have one := kept.trans (semaUp_keeps f steady upping)
  have shorter : SameLists upped { upped with waitList := rest } := ⟨rfl, rfl, rfl, rfl, rfl, rfl⟩
  exact ⟨one, (lists.trans globals.lists).trans shorter, globals.allAllList.trans records,
    globals.ticks.trans clock⟩

theorem timerInterrupt_keeps (f : Thread → β) (settled : Thread.Settled f)
    (taken : timerInterrupt k = .ok after) :
    Kernel.Keeps f k after ∧ SameLists k after ∧ after.ticks = k.ticks + 1 := by
  unfold timerInterrupt at taken
  rw [bind_eq_ok] at taken
  obtain ⟨ticked, counted, woke⟩ := taken
  have accounts := threadTick_accounting counted
  obtain ⟨kept, lists, _, clock⟩ := wakeSleepers_keeps f settled.toSteady _ woke
  have tick : SameLists k { k with ticks := k.ticks + 1 } := ⟨rfl, rfl, rfl, rfl, rfl, rfl⟩
  exact ⟨(accounts.keeps f settled.shaped).trans kept, tick.trans (accounts.lists.trans lists),
    clock.trans accounts.ticks⟩

theorem threadYield_keeps (f : Thread → β) (steady : Thread.Steady f) (k : Kernel) :
    Kernel.Keeps f k (threadYield k).kernel := by
  have stamped : Kernel.Keeps f k (stampWait k k.current) :=
    Kernel.keeps_upd f k _ _ fun t => steady.stamp _ t
  exact stamped.trans (Kernel.keeps_upd f _ k.current _ (steady.status .ready))

theorem intrHandler_keeps (f : Thread → β) (settled : Thread.Settled f)
    (taken : intrHandler k = .ok outcome) :
    Kernel.Keeps f k outcome.kernel ∧ SameLists k outcome.kernel := by
  unfold intrHandler at taken
  rw [bind_eq_ok] at taken
  obtain ⟨handled, interrupted, ⟨⟩⟩ := taken
  obtain ⟨kept, lists, _⟩ := timerInterrupt_keeps f settled interrupted
  have flag : SameLists k { k with yieldOnReturn := false } := ⟨rfl, rfl, rfl, rfl, rfl, rfl⟩
  split
  · have yielded : Kernel.Keeps f handled (threadYield handled).kernel :=
      threadYield_keeps f settled.toSteady handled
    exact ⟨kept.trans yielded, (flag.trans lists).trans ⟨rfl, rfl, rfl, rfl, rfl, rfl⟩⟩
  · exact ⟨kept, flag.trans lists⟩

theorem threadExit_keeps (f : Thread → β) (settled : Thread.Settled f) {rep : Int}
    (taken : threadExit k rep = .ok outcome) : Kernel.Keeps f k outcome.kernel := by
  obtain ⟨learned, total, learning, rfl⟩ := threadExit_effects taken
  intro p
  refine Eq.trans ?_ ((learnAtExit_accounting learning).keeps f settled.shaped p)
  by_cases here : p = learned.current
  · subst here
    simp [Outcome.kernel, settled.status]
  · simp [Outcome.kernel, here]

/-- Events other than creations, the end of an exit, changes of settings and ticks. -/
def Event.plain : Event → Bool
  | .startIdle _ | .create (some _) _ _ | .exitFinish | .setPriority _ | .setNice _
  | .timer => false
  | _ => true

theorem semaDown_keeps (f : Thread → β) (lasting : Thread.Lasting f) (k : Kernel) (s : SemaId) :
    Kernel.Keeps f k (semaDown k s).kernel := by
  by_cases zero : (k.sema s).value = 0
  · rw [semaDown_zero zero]
    exact blockOn_keeps k s f lasting
  · rw [semaDown_pos zero]
    have taken : Kernel.Keeps f k (k.setSema s { k.sema s with value := (k.sema s).value - 1 }) :=
      Kernel.keeps_setSema k s _ f lasting.set
    exact taken.trans (Kernel.keeps_upd f _ _ _ (lasting.code _))

/-- A plain event writes to no thread more than its place, status, wait stamp, wake-up time and
semaphore. -/
theorem opBody_keeps (f : Thread → β) (lasting : Thread.Lasting f)
    (wakeup : ∀ w t, f (Thread.setWakeupTime w t) = f t) {e : Event} (plain : e.plain = true)
    (taken : opBody k e = .ok outcome) : Kernel.Keeps f k outcome.kernel := by
  have code : ∀ (s : Kernel) (p : Page) (c : Code), Kernel.Keeps f s (s.setCode p c) :=
    fun s p c => Kernel.keeps_upd f s p _ (lasting.code c)
  have status : ∀ (s : Kernel) (p : Page) (new : Status), Kernel.Keeps f s (s.setStatus p new) :=
    fun s p new => Kernel.keeps_upd f s p _ (lasting.status new)
  cases opBody_performs taken with
  | startIdle | create | exitFinish | setPriority | setNice | timer => cases plain
  | noPage | noSleep => exact fun _ => rfl
  | startDown | semaDown | semaRetry => exact semaDown_keeps f lasting k _
  | unblock unblocks =>
    exact ((threadUnblock_effects unblocks).keeps f lasting.stamp lasting.status).trans
      (code _ _ .user)
  | block => exact (code k _ .parked).trans (status _ k.current .blocked)
  | idleBlock => exact status k _ .blocked
  | semaTryDown n =>
    simp only [Outcome.kernel, semaTryDown]
    split
    · exact Kernel.keeps_setSema k _ _ f lasting.set
    · exact fun _ => rfl
  | semaUp ups => exact semaUp_keeps f lasting.toSteady ups
  | idleUp ups => exact (semaUp_keeps f lasting.toSteady ups).trans (code _ _ .idleLoop)
  | @sleep n nonneg =>
    have entered : Kernel.Keeps f k (enterWaitList k n) := enterWaitList_keeps k n f wakeup
    exact entered.trans (semaDown_keeps f lasting _ _)
  | yield => exact threadYield_keeps f lasting.toSteady k
  | exit => exact code k _ _
  | idleSet => exact code { k with idleThread := some k.current } _ .idleUp

/-- The page and the stored name of the thread that an event creates. -/
def Event.creates : Event → Option (Page × Name)
  | .startIdle p => some (p, idleName)
  | .create (some p) name _ => some (p, name.take 15)
  | _ => none

/-- What an enabled event can do. -/
theorem opBody_effects (h : Inv k) {e : Event} (enabled : e.enabled k = true)
    (taken : opBody k e = .ok outcome) :
    ((∀ n, e = .sleep n → n < 0) ∧ (e.creates = none ∧ e ≠ .exitFinish ∧ e ≠ .timer) ∧
      Calm k outcome.kernel) ∨
    (∃ t name, e.creates = some (t, name) ∧ Born k t name outcome.kernel) ∨
    (e = .exitFinish ∧ ∃ rep seen, k.code k.current = .exiting rep seen ∧
      threadExit k rep = .ok outcome) ∨
    (∃ n, e = .sleep n ∧ 0 ≤ n ∧
      outcome = .schedules (blockOn (enterWaitList k n) (.timer k.current))) ∨
    (e = .timer ∧ intrHandler k = .ok outcome) := by
  -- Most operations are calm, and are neither a creation, the end of an exit nor a tick.
  have calm : ∀ {after : Kernel}, (∀ n, e ≠ .sleep n) →
      e.creates = none ∧ e ≠ .exitFinish ∧ e ≠ .timer → Calm k after →
      (∀ n, e = .sleep n → n < 0) ∧ (e.creates = none ∧ e ≠ .exitFinish ∧ e ≠ .timer) ∧
        Calm k after :=
    fun awake other calm => ⟨fun n sleeps => absurd sleeps (awake n), other, calm⟩
  cases opBody_performs taken with
  | @startIdle p _ _ allocates unblocks =>
    exact .inr (.inl ⟨p, _, rfl, startIdle_born h (of_decide_eq_true enabled) allocates unblocks⟩)
  | startDown => exact .inl (calm (by simp) (by simp [Event.creates]) (semaDown_calm k _))
  | noPage => exact .inl (calm (by simp) (by simp [Event.creates]) (Calm.refl k))
  | @create p _ _ _ allocates => exact .inr (.inl ⟨p, _, rfl, threadAllocate_born h allocates⟩)
  | @unblock t _ unblocks =>
    exact .inl (calm (by simp) (by simp [Event.creates])
      ((threadUnblock_effects unblocks).calm.setCode t (by simp)))
  | block =>
    have parked : Calm k (k.setCode k.current .parked) :=
      (Calm.refl k).setCode k.current (by simp)
    refine .inl (calm (by simp) (by simp [Event.creates]) (parked.trans
      (calm_upd _ _ (Thread.setStatus .blocked) (fun _ => rfl) fun _ _ _ code => code) ?_))
    intro p rep seen code
    by_cases here : p = k.current
    · simp [Outcome.kernel, threadBlock, here] at code
    · simpa [Outcome.kernel, threadBlock, here] using code
  | semaDown n => exact .inl (calm (by simp) (by simp [Event.creates]) (semaDown_calm k _))
  | semaTryDown n =>
    refine .inl (calm (by simp) (by simp [Event.creates]) ?_)
    simp only [Outcome.kernel, semaTryDown]
    split
    · exact calm_setSema k _ _
    · exact Calm.refl k
  | semaUp ups => exact .inl (calm (by simp) (by simp [Event.creates]) (semaUp_calm ups))
  | semaRetry down => exact .inl (calm (by simp) (by simp [Event.creates]) (semaDown_calm k _))
  | noSleep negative =>
    refine .inl ⟨?_, by simp [Event.creates], Calm.refl k⟩
    rintro _ ⟨⟩
    exact negative
  | @sleep n nonneg =>
    have user : k.code k.current = .user := of_decide_eq_true enabled
    have zero := h.timer_zero (by rw [user]; simp)
    rw [semaDown_zero (by rw [enterWaitList_sema]; exact zero)]
    exact .inr (.inr (.inr (.inl ⟨n, rfl, nonneg, rfl⟩)))
  | yield => exact .inl (calm (by simp) (by simp [Event.creates]) (threadYield_calm k))
  | exit =>
    refine .inl (calm (by simp) (by simp [Event.creates]) ⟨(upd_globals k _ _).toSameThreads,
      Kernel.keeps_upd _ k _ _ fun _ => rfl, ?_⟩)
    intro p rep seen code
    by_cases here : p = k.current
    · subst here
      simp only [Outcome.kernel, Kernel.setCode, Kernel.code, Kernel.upd_thread_self,
        Thread.setCode_code, Code.exiting.injEq] at code
      exact .inr ⟨rfl, code.1.symm, code.2.symm⟩
    · exact .inl (by simpa [Outcome.kernel, here] using code)
  | exitFinish exiting exits => exact .inr (.inr (.inl ⟨rfl, _, _, exiting, exits⟩))
  | setPriority priority =>
    exact .inl (calm (by simp) (by simp [Event.creates])
      (setting_calm k _ (fun _ => rfl) fun _ => rfl))
  | setNice nice =>
    exact .inl (calm (by simp) (by simp [Event.creates])
      (setting_calm k _ (fun _ => rfl) fun _ => rfl))
  | idleSet =>
    have set : Calm k { k with idleThread := some k.current } :=
      ⟨⟨rfl, rfl, rfl, rfl, rfl, rfl, rfl, rfl, rfl⟩, fun _ => rfl, fun _ _ _ => .inl⟩
    exact .inl (calm (by simp) (by simp [Event.creates]) (set.setCode k.current (by simp)))
  | idleUp ups =>
    exact .inl (calm (by simp) (by simp [Event.creates]) ((semaUp_calm ups).setCode _ (by simp)))
  | idleBlock =>
    exact .inl (calm (by simp) (by simp [Event.creates])
      (calm_upd k k.current (Thread.setStatus .blocked) (fun _ => rfl) fun _ _ _ code => code))
  | timer handles => exact .inr (.inr (.inr (.inr ⟨rfl, handles⟩)))

theorem opBody_mode (h : Inv k) {e : Event} (enabled : e.enabled k = true)
    (taken : opBody k e = .ok outcome) : outcome.kernel.mode = k.mode := by
  rcases opBody_effects h enabled taken with ⟨_, _, calm⟩ | ⟨t, name, _, born⟩ |
    ⟨rfl, rep, seen, code, exits⟩ | ⟨n, rfl, _, rfl⟩ | ⟨rfl, handled⟩
  · exact calm.mode
  · exact born.mode
  · obtain ⟨learned, total, learning, rfl⟩ := threadExit_effects exits
    exact (learnAtExit_accounting learning).mode
  · exact (blockOn_globals (enterWaitList k n) _).mode
  · exact (intrHandler_keeps Thread.name {} handled).2.mode

/-- The mode is fixed at boot. -/
theorem reachable_mode (h : Reachable (kernelSystem mode) k) : k.mode = mode := by
  refine h.invariant (P := fun k => k.mode = mode) ?_ ?_
  · rintro s ⟨values, booted⟩
    exact (threadInit_booted booted).mode
  · intro s e after reached before taken
    have inv := reachable_inv reached
    rw [← before]
    obtain ⟨enabled, body | ⟨ready, body, switched⟩⟩ := step_effects taken
    · exact opBody_mode inv enabled body
    · obtain ⟨_, next, rest, _, rfl⟩ := schedule_effects switched
      exact (dispatch_mode _ _).trans (opBody_mode inv enabled body)

end Calendarizador.Source
