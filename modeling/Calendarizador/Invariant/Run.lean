import Calendarizador.Invariant.Steps

/-!
# The representation invariant over whole runs

`opBody_inv` goes through the events once; `Reachable.inv` is the induction over a run.
-/
namespace Calendarizador.Source
open Foundation

/-- What holds when an operation returns or calls `schedule`. -/
def Outcome.Good : Outcome → Prop
  | .returns k => Inv k
  | .schedules k => Core k

section
variable {k after : Kernel} {outcome : Outcome}

theorem Inv.semaDown (h : Inv k) {s : SemaId} (own : ∀ q, s = .timer q → q = k.current)
    (notIdle : ¬ (k.code k.current).isIdle)
    (returning : k.code k.current = .downing (.timer k.current) ↔ s = .timer k.current) :
    (semaDown k s).Good := by
  by_cases zero : (k.sema s).value = 0
  · rw [semaDown_zero zero]
    -- a thread inside `sema_down` on its own timer semaphore always finds a unit
    have notOwn : s ≠ .timer k.current := by
      intro same
      have value := (h.core.threads k.current).timer h.live
      rw [if_pos ⟨returning.mpr same, by rw [h.running]; simp⟩, ← same, zero] at value
      cases value
    have empty := h.timer_zero fun down => notOwn (returning.mp down)
    have globals := blockOn_globals k s
    exact h.waits globals.control empty
      own notIdle (blockOn_status k s) (blockOn_code k s) (blockOn_sema k s) globals.allocated
      globals.allList (blockOn_readyList k s) globals.allAllList
      (globals.waitList ▸ h.core.wait_nodup) (fun p => by simp [globals.waitList, notOwn])
  · rw [semaDown_pos zero]
    exact h.takes own notIdle returning

theorem Inv.timerSleep (h : Inv k) (user : k.code k.current = .user) (ticks : Int) :
    (timerSleep k ticks).Good := by
  unfold Source.timerSleep
  split
  · exact h
  · have empty : (k.sema (.timer k.current)).value = 0 := h.timer_zero (by rw [user]; simp)
    have perm := enterWaitList_perm k ticks
    have globals := blockOn_globals (enterWaitList k ticks) (.timer k.current)
    obtain ⟨_, _, notAsleep, _⟩ := h.current_free
    rw [semaDown_zero (by rw [enterWaitList_sema]; exact empty)]
    refine h.waits (s := .timer k.current)
      ⟨globals.mode, globals.current, globals.idleThread, globals.initialThread⟩ empty ?_ ?_ ?_ ?_
      ?_ globals.allocated globals.allList (blockOn_readyList _ _) globals.allAllList ?_ ?_
    · exact fun q same => (SemaId.timer.inj same).symm
    · rw [user]
      simp [Code.isIdle]
    · intro p
      rw [blockOn_status, enterWaitList_status]
      rfl
    · intro p
      rw [blockOn_code, enterWaitList_code]
      rfl
    · intro x
      rw [blockOn_sema, enterWaitList_sema, enterWaitList_sema]
      rfl
    · rw [globals.waitList, perm.nodup_iff, List.nodup_cons]
      exact ⟨notAsleep, h.core.wait_nodup⟩
    · intro p
      rw [globals.waitList, perm.mem_iff, List.mem_cons]
      simp [or_comm]

/-- One round of the loop in `timer_interrupt`: the first sleeper is blocked on its own
semaphore, the up wakes it, and the invariant holds when it has left the queue. -/
theorem Inv.wakeRound {t : Page} {rest : List Page} (h : Inv k) (front : k.waitList = t :: rest) :
    ∃ upped, Source.semaUp k (.timer t) = .ok upped ∧ Woken k (.timer t) t upped ∧
      Inv { upped with waitList := rest } := by
  obtain ⟨alive, blocked, down⟩ := (h.core.threads t).wait.mp (by simp [front])
  have waiting := ((h.core.threads t).waiters (.timer t)).mpr ⟨alive, blocked, down⟩
  obtain ⟨upped, upping⟩ := semaUp_total
    fun p member => (((h.core.threads p).waiters (.timer t)).mp member).2.1
  rcases semaUp_effects upping with ⟨nobody, _⟩ | ⟨first, effects⟩
  · simp [nobody] at waiting
  · obtain ⟨_, _, _, own⟩ := h.core.woken_waiter effects
    obtain rfl := own t rfl
    have kept := h.wakes effects
    rw [front, List.erase_cons_head] at kept
    exact ⟨upped, upping, effects, kept⟩

/-- What every round of the wake-ups keeps. -/
theorem wakeSleepers_invariant {P : Kernel → Prop} (list : List Page) (start : P k)
    (round : ∀ {s upped : Kernel} {t : Page} {rest : List Page}, P s →
      semaUp s (.timer t) = .ok upped → P { upped with waitList := rest })
    (taken : wakeSleepers list k = .ok after) : P after := by
  induction list generalizing k with
  | nil =>
    cases taken
    exact start
  | cons t rest ih =>
    rw [wakeSleepers] at taken
    split at taken
    · cases taken
      exact start
    · obtain ⟨upped, upping, more⟩ := bind_eq_ok.mp taken
      exact ih (round start upping) more

theorem Inv.wakeSleepers (list : List Page) (h : Inv k) (front : k.waitList = list)
    (taken : wakeSleepers list k = .ok after) : Inv after := by
  induction list generalizing k with
  | nil =>
    cases taken
    exact h
  | cons t rest ih =>
    rw [Source.wakeSleepers] at taken
    split at taken
    · cases taken
      exact h
    · obtain ⟨upped, upping, _, kept⟩ := h.wakeRound front
      rw [upping] at taken
      exact ih kept rfl taken

/-- The clock and the flag of the interrupt handler are not part of the invariant. -/
theorem Inv.registers (h : Inv k) (now : Nat) (flag : Bool) :
    Inv { k with ticks := now, yieldOnReturn := flag } :=
  h.frame ⟨rfl, rfl, rfl, rfl⟩
    (fun _ => ⟨rfl, rfl, rfl, Iff.rfl, Iff.rfl, fun _ => Iff.rfl, Iff.rfl, Or.inl, rfl⟩)
    h.core.all_nodup h.core.ready_nodup h.core.waiters_nodup h.core.wait_nodup

theorem Inv.timerInterrupt (h : Inv k) (taken : timerInterrupt k = .ok after) : Inv after := by
  unfold Source.timerInterrupt at taken
  rw [bind_eq_ok] at taken
  obtain ⟨ticked, counted, woke⟩ := taken
  have clock := h.registers (k.ticks + 1) k.yieldOnReturn
  exact (clock.accounting (threadTick_accounting counted)).wakeSleepers _ rfl woke

theorem Inv.threadYield (h : Inv k) : (threadYield k).Good := by
  have ok := h.core.threads k.current
  obtain ⟨after, made⟩ : ∃ after, after =
    { (stampWait k k.current).setStatus k.current .ready with
      readyList := if k.idleThread ≠ some k.current then k.readyList ++ [k.current]
        else k.readyList } := ⟨_, rfl⟩
  unfold Source.threadYield
  rw [← made]
  refine h.leaves .ready (k.code k.current) ?_ (.inr rfl) (fun no => by cases no)
    (.inl rfl) ?_ (fun _ => rfl) (fun no => by cases no) ?_ ?_ ?_ ?_ ?_ ?_ ?_ ?_
  · rw [made]
    exact ⟨rfl, rfl, rfl, rfl⟩
  · intro park
    have blocked := ok.parked h.live park
    rw [h.running] at blocked
    cases blocked
  · intro p
    rw [made]
    by_cases here : p = k.current <;> simp [stampWait, here]
  · intro p
    rw [made]
    by_cases here : p = k.current <;> simp [stampWait, here]
  · intro x
    rw [made]
    cases x with
    | timer p => by_cases here : p = k.current <;> simp [stampWait, Kernel.sema, here]
    | _ => rfl
  · rw [made]
    rfl
  · rw [made]
    rfl
  · rw [made]
    rfl
  · rw [made]
    rfl
  · rw [made]
    simp

theorem Inv.intrHandler (h : Inv k) (taken : intrHandler k = .ok outcome) : outcome.Good := by
  unfold Source.intrHandler at taken
  rw [bind_eq_ok] at taken
  obtain ⟨handled, interrupted, ⟨⟩⟩ := taken
  have kept := (h.registers k.ticks false).timerInterrupt interrupted
  split
  · exact kept.threadYield
  · exact kept

theorem Inv.threadBlock (h : Inv k) {c : Code} (codes : c = .parked ∧ k.code k.current = .user ∨
      c = k.code k.current ∧ k.code k.current = .idleLoop) :
    Core ((k.setCode k.current c).setStatus k.current .blocked) := by
  have sema : ∀ x, ((k.setCode k.current c).setStatus k.current .blocked).sema x = k.sema x := by
    intro x
    rw [Kernel.setStatus_sema, Kernel.setCode_sema]
  refine h.leaves .blocked c ⟨rfl, rfl, rfl, rfl⟩ (.inl rfl) ?_ ?_ (fun _ => rfl) ?_
    ?_ ?_ ?_ sema rfl rfl rfl rfl (by simp)
  · intro _ s down
    rcases codes with ⟨rfl, _⟩ | ⟨rfl, loop⟩
    · cases down
    · rw [loop] at down
      cases down
  · rcases codes with ⟨rfl, user⟩ | ⟨rfl, _⟩
    · refine .inr ⟨rfl, ?_⟩
      rw [user]
      simp [Code.isIdle]
    · exact .inl rfl
  · intro enter
    rcases codes with ⟨rfl, _⟩ | ⟨rfl, loop⟩
    · cases enter
    · rw [loop] at enter
      cases enter
  · rintro _ down
    rcases codes with ⟨_, user⟩ | ⟨_, loop⟩
    · rw [user] at down
      cases down
    · rw [loop] at down
      cases down
  · intro p
    by_cases here : p = k.current <;> simp [here]
  · intro p
    by_cases here : p = k.current <;> simp [here]

theorem Inv.threadExit (h : Inv k) {rep : Int} (exiting : ¬ (k.code k.current).isIdle)
    (taken : threadExit k rep = .ok outcome) : outcome.Good := by
  obtain ⟨learned, total, learning, rfl⟩ := threadExit_effects taken
  have accounts := learnAtExit_accounting learning
  have counted : Accounting k { learned with totalWaitTime := total } := { accounts with }
  refine (h.accounting counted).exits ?_
  rw [counted.code, counted.current]
  exact exiting

theorem Inv.startWait (h : Inv k) (early : k.code k.current = .start) :
    Inv (k.setCode k.current .startWait) := by
  refine h.setCode .startWait ?_ ?_ (by simp) (by simp) (by simp) (by simp)
  · rw [early]
    simp
  · rw [early]
    simp [Code.isIdle]

/-- The idle thread is created while `main` still runs `thread_start`. -/
theorem Inv.startIdle (h : Inv k) (early : k.code k.current = .start) {p : Page} {created : Kernel}
    (allocated : threadAllocate (k.setCode k.current .startWait) p idleName priMin = .ok created)
    (unblocked : threadUnblock created p = .ok after) : Inv (after.setCode p .idleEntry) := by
  obtain ⟨first, unset, noneEnters⟩ := h.core.start k.current h.live early
  obtain ⟨ready, alive, parked, control, others⟩ := (h.startWait early).creates allocated
  refine ready.unblocks (threadUnblock_effects unblocked) alive parked
    (.inr ⟨rfl, control.idleThread.trans unset, fun q aliveq => ?_⟩)
  by_cases here : q = p
  · subst here
    rw [parked]
    simp
  · have same := others q here
    rw [same.live] at aliveq
    rw [same.code]
    by_cases current : q = k.current
    · simp [current]
    · have old : k.Live q := by simpa [Kernel.Live, current] using aliveq
      have code : (k.setCode k.current .startWait).code q = k.code q := by simp [current]
      rw [code]
      exact ⟨noneEnters q old, fun again =>
        current ((h.core.start q old again).1.trans first.symm)⟩

/-- Every event keeps the invariant. -/
theorem opBody_inv (h : Inv k) (e : Event) (enabled : e.enabled k = true)
    (taken : opBody k e = .ok outcome) : outcome.Good := by
  have notTimer : ∀ n q, SemaId.user n ≠ .timer q := by simp
  have userNotIdle : k.code k.current = .user → ¬ (k.code k.current).isIdle := by
    intro user
    rw [user]
    simp [Code.isIdle]
  cases opBody_performs taken with
  | startIdle allocates unblocks => exact h.startIdle (of_decide_eq_true enabled) allocates unblocks
  | startDown =>
    have wait : k.code k.current = .startWait := of_decide_eq_true enabled
    refine h.semaDown (by simp) ?_ ?_
    · rw [wait]
      simp [Code.isIdle]
    · rw [wait]
      simp
  | noPage => exact h
  | create allocates => exact (h.creates allocates).1
  | unblock unblocks =>
    have effects := threadUnblock_effects unblocks
    have able := (of_decide_eq_true enabled).2
    have alive : k.Live _ := ⟨able.1, by rw [effects.blocked]; simp⟩
    exact h.unblocks effects alive able.2 (.inl rfl)
  | block => exact h.threadBlock (.inl ⟨rfl, of_decide_eq_true enabled⟩)
  | semaDown n =>
    have user : k.code k.current = .user := of_decide_eq_true enabled
    refine h.semaDown (by simp) (userNotIdle user) ?_
    rw [user]
    simp
  | semaTryDown n =>
    unfold semaTryDown
    split
    · exact h.semaValue (notTimer n) _
    · exact h
  | @semaUp n upped ups => exact h.semaUp (notTimer n) ups
  | semaRetry down =>
    refine h.semaDown ?_ ?_ ?_
    · rintro q rfl
      exact (h.core.threads k.current).ownTimer q h.live down
    · rw [down]
      simp [Code.isIdle]
    · rw [down]
      simp
  | noSleep negative => exact h
  | @sleep n nonneg =>
    have slept := h.timerSleep (of_decide_eq_true enabled) n
    rwa [timerSleep, if_neg (not_lt.mpr nonneg)] at slept
  | yield => exact h.threadYield
  | exit =>
    have user : k.code k.current = .user := of_decide_eq_true enabled
    refine h.setCode _ ?_ ?_ (by simp) (by simp) (by simp) (by simp)
    · rw [user]
      simp
    · rw [user]
      simp [Code.isIdle]
  | exitFinish exiting exits =>
    refine h.threadExit ?_ exits
    rw [exiting]
    simp [Code.isIdle]
  | setPriority priority => exact h.accounting (threadSetPriority_accounting k priority)
  | setNice nice => exact h.accounting (threadSetNice_accounting k nice)
  | idleSet => exact h.idleSets (of_decide_eq_true enabled)
  | @idleUp upped ups =>
    have idling : k.code k.current = .idleUp := of_decide_eq_true enabled
    have kept := h.semaUp (by simp) ups
    have code : upped.code upped.current = .idleUp := by
      rcases semaUp_effects ups with ⟨_, rfl⟩ | ⟨t, woken⟩
      · simpa using idling
      · rw [woken.code, woken.globals.current]
        exact idling
    refine kept.setCode .idleLoop ?_ ?_ (by simp) (by simp) (by simp) (by simp)
    · rw [code]
      simp
    · rw [code]
      exact ⟨fun _ => .inr rfl, fun _ => .inl rfl⟩
  | idleBlock =>
    have loop : k.code k.current = .idleLoop := of_decide_eq_true enabled
    have same : k.setCode k.current (k.code k.current) = k := by
      change { k with thread := Function.update k.thread k.current (k.thread k.current) } = k
      rw [Function.update_eq_self]
    have kept := h.threadBlock (.inr ⟨rfl, loop⟩)
    rw [same] at kept
    exact kept
  | timer handles => exact h.intrHandler handles

theorem step_inv (h : Inv k) {e : Event} (taken : step k e = .ok after) : Inv after := by
  obtain ⟨enabled, body | ⟨ready, body, switched⟩⟩ := step_effects taken
  · exact opBody_inv h e enabled body
  · exact Core.schedule (opBody_inv h e enabled body) switched

theorem threadInit_effects {mode : Mode} {values : Nat → Nat}
    (booted : threadInit mode values = .ok k) :
    ∃ made, Created (blankKernel mode values) 0 mainName 0 made ∧
      k = made.upd 0 fun t => { t with status := .running, frame := .onCpu, code := .start } := by
  obtain ⟨made, created, ⟨⟩⟩ := bind_eq_ok.mp booted
  exact ⟨made, (initThread_effects created).2.2, rfl⟩

/-- The invariant holds when `thread_init` returns. -/
theorem threadInit_inv {mode : Mode} {values : Nat → Nat}
    (booted : threadInit mode values = .ok k) : Inv k := by
  obtain ⟨made, effects, booted⟩ := threadInit_effects booted
  have status : ∀ p, k.status p = if p = 0 then .running else made.status p := by
    intro p
    cases booted
    by_cases here : p = 0 <;> simp [here]
  have code : ∀ p, k.code p = if p = 0 then .start else made.code p := by
    intro p
    cases booted
    by_cases here : p = 0 <;> simp [here]
  have sema : ∀ x, k.sema x = made.sema x := by
    intro x
    cases booted
    exact Kernel.upd_sema made 0 _ x rfl
  have waiters : ∀ x, (k.sema x).waiters = [] := by
    intro x
    rw [sema, effects.sema]
    split
    · rfl
    · cases x <;> rfl
  cases booted
  have allocated : ∀ p, made.allocated p = true ↔ p = 0 := by
    intro p
    rw [effects.allocated]
    exact decide_eq_true_iff
  have live : ∀ p, Kernel.Live (made.upd 0 fun t =>
      { t with status := .running, frame := .onCpu, code := .start }) p ↔ p = 0 := by
    intro p
    rw [Kernel.Live, status]
    constructor
    · exact fun alive => (allocated p).mp alive.1
    · rintro rfl
      exact ⟨(allocated 0).mpr rfl, by simp⟩
  have current : made.current = 0 := effects.current
  have unset : made.idleThread = none := effects.idleThread
  have all : made.allList = [0] := effects.allList
  have ready : made.readyList = [] := effects.ready
  have wait : made.waitList = [] := effects.wait
  refine ⟨⟨?_, ?_, ?_, ?_, ?_, ?_, ?_, ?_, ?_⟩, ?_, ?_⟩
  · simp [all]
  · simp [ready]
  · intro s
    simp [waiters s]
  · simp [wait]
  · intro p
    by_cases here : p = 0
    · subst here
      refine .of_unqueued ((live 0).mpr rfl) (status 0) (code 0) (by simp [all]) (by simp [ready])
        (fun s => by simp [waiters s]) (by simp [wait]) (by simp) (by simp) (fun _ => current.symm)
        (by simp) (by simp [unset, Code.isIdle]) (by simp) (fun member => ?_) ?_
      · rcases effects.mem_records member with old | ⟨_, sjf⟩
        · cases old
        · exact effects.mode.trans sjf
      · rw [sema, effects.sema, if_pos rfl]
    · refine ThreadOk.of_dead (fun alive => here ((live p).mp alive)) ?_ ?_ ?_ ?_ ?_ ?_
      · simp [all, here]
      · simp [ready]
      · intro s
        simp [waiters s]
      · simp [wait]
      · simp [unset]
      · intro member
        rcases effects.mem_records member with old | ⟨same, _⟩
        · cases old
        · exact absurd same here
  · intro p q alive aliveq _ _
    exact ((live p).mp alive).trans ((live q).mp aliveq).symm
  · intro p alive _
    refine ⟨((live p).mp alive).trans effects.initialThread.symm, unset, fun q aliveq => ?_⟩
    rw [code, if_pos ((live q).mp aliveq)]
    simp
  · exact (allocated _).mpr effects.initialThread
  · exact (allocated _).mpr current
  · exact (live _).mpr current
  · rw [status, if_pos]
    exact current

/-- Every reachable state satisfies the invariant. -/
theorem reachable_inv {mode : Mode} (h : Reachable (kernelSystem mode) k) : Inv k := by
  refine h.invariant ?_ ?_
  · rintro s ⟨values, booted⟩
    exact threadInit_inv booted
  · intro s e after _ before taken
    exact step_inv before taken

end
end Calendarizador.Source
