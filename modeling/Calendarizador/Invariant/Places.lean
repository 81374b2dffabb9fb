import Calendarizador.Invariant.Arrivals

/-!
# Who may enter which list

`opBody_placed` says, for each event, who can enter the ready list and the lists of waiters.
Unlike the representation invariant it does not ask where each thread is in its code, so it
also holds for a kernel whose threads wait for the console inside `schedule`.
-/
namespace Calendarizador.Source
open Foundation Function List

/-- `after` differs from `k` in what `schedule` counts and prints. -/
structure SamePlaces (k after : Kernel) : Prop where
  status : ∀ p, after.status p = k.status p
  code : ∀ p, after.code p = k.code p
  sema : ∀ s, after.sema s = k.sema s
  readyList : after.readyList = k.readyList
  allList : after.allList = k.allList
  allAllList : after.allAllList = k.allAllList
  waitList : after.waitList = k.waitList
  allocated : after.allocated = k.allocated
  control : SameControl k after

/-- Threads leave lists of waiters for the ready list. -/
structure Rouses (k after : Kernel) : Prop where
  keeps : ∀ p ∈ k.readyList, p ∈ after.readyList
  arrives : ∀ p ∈ after.readyList, p ∈ k.readyList ∨ ∃ s, p ∈ (k.sema s).waiters
  waits : ∀ s, ∀ p ∈ (after.sema s).waiters, p ∈ (k.sema s).waiters
  code : ∀ p, after.code p = k.code p
  allocated : after.allocated = k.allocated

/-- Somebody a section of the kernel may append to the ready list. -/
def Arrives (k : Kernel) (p : Page) : Prop :=
  (∃ s, p ∈ (k.sema s).waiters) ∨ (p = k.current ∧ k.idleThread ≠ some p) ∨
    k.allocated p = false ∨ k.code p = .parked

/-- Only the running thread enters a list of waiters, and not if it is the idle thread. -/
structure Placed (k after : Kernel) : Prop where
  keeps : ∀ p ∈ k.readyList, p ∈ after.readyList
  arrives : ∀ p ∈ after.readyList, p ∈ k.readyList ∨ Arrives k p
  waits : ∀ s, ∀ p ∈ (after.sema s).waiters,
    p ∈ (k.sema s).waiters ∨ (p = k.current ∧ ¬ (k.code k.current).isIdle)
  idles : ∀ i, k.allocated i = true → (k.code i).isIdle → (after.code i).isIdle
  allocated : ∀ p, k.allocated p = true → after.allocated p = true

/-- The codes of a thread before it becomes `main` or the idle thread proper. -/
def Code.early (c : Code) : Prop := c = .start ∨ c = .idleEntry

section
variable {k middle after : Kernel} {outcome : Outcome}

theorem Inv.samePlaces (h : Inv k) (same : SamePlaces k after) : Inv after := by
  refine h.frame same.control (fun p => ⟨same.status p, same.code p, ?_, ?_, ?_, fun s => ?_, ?_,
    fun member => .inl (same.allAllList ▸ member), ?_⟩) (same.allList ▸ h.core.all_nodup)
    (same.readyList ▸ h.core.ready_nodup) (fun s => same.sema s ▸ h.core.waiters_nodup s)
    (same.waitList ▸ h.core.wait_nodup)
  · rw [same.allocated]
  · rw [same.allList]
  · rw [same.readyList]
  · rw [same.sema]
  · rw [same.waitList]
  · rw [same.sema]

theorem Rouses.refl (k : Kernel) : Rouses k k :=
  ⟨fun _ => id, fun _ => .inl, fun _ _ => id, fun _ => rfl, rfl⟩

theorem Rouses.trans (first : Rouses k middle) (second : Rouses middle after) : Rouses k after := by
  refine ⟨fun p member => second.keeps p (first.keeps p member), fun p member => ?_,
    fun s p member => first.waits s p (second.waits s p member),
    fun p => (second.code p).trans (first.code p), second.allocated.trans first.allocated⟩
  rcases second.arrives p member with old | ⟨s, waiting⟩
  · exact first.arrives p old
  · exact .inr ⟨s, first.waits s p waiting⟩

theorem semaUp_rouses {s : SemaId} (taken : semaUp k s = .ok after) : Rouses k after := by
  have ready := semaUp_ready taken
  refine ⟨fun p member => ?_, fun p member => ?_, fun x p member => ?_,
    congrFun (semaUp_code taken), (semaUp_globals taken).allocated⟩
  · rw [ready]
    exact mem_append_left _ member
  · rw [ready, mem_append, Option.mem_toList] at member
    exact member.imp id fun first => ⟨s, mem_of_mem_head? first⟩
  · rw [semaUp_sema taken] at member
    split at member
    · rename_i here
      rw [here]
      exact mem_of_mem_tail member
    · exact member

theorem setValue_rouses (k : Kernel) (s : SemaId) (value : Nat) :
    Rouses k (k.setSema s { k.sema s with value := value }) := by
  have globals := setSema_globals k s { k.sema s with value := value }
  refine ⟨fun p member => ?_, fun p member => .inl ?_, fun x p member => ?_, fun p => ?_,
    globals.allocated⟩
  · rw [Kernel.setSema_readyList]
    exact member
  · rwa [Kernel.setSema_readyList] at member
  · rw [Kernel.setSema_sema] at member
    split at member
    · rename_i here
      rw [here]
      exact member
    · exact member
  · exact Kernel.setSema_code k s _ p

theorem Accounting.rouses (h : Accounting k after) : Rouses k after :=
  ⟨fun _ => h.ready.mem_iff.mpr, fun _ member => .inl (h.ready.mem_iff.mp member),
    fun s _ member => h.sema s ▸ member, h.code, h.allocated⟩

theorem wakeSleepers_rouses (list : List Page) (woke : wakeSleepers list k = .ok after) :
    Rouses k after := by
  refine wakeSleepers_invariant (P := Rouses k) list (.refl k) ?_ woke
  intro s upped t rest before upping
  have shorter : Rouses upped { upped with waitList := rest } :=
    ⟨fun _ => id, fun _ => .inl, fun s p member => by cases s <;> exact member,
      fun _ => rfl, rfl⟩
  exact (before.trans (semaUp_rouses upping)).trans shorter

theorem timerInterrupt_rouses (taken : timerInterrupt k = .ok after) : Rouses k after := by
  obtain ⟨ticked, counted, woke⟩ := bind_eq_ok.mp taken
  have clock : Rouses k { k with ticks := k.ticks + 1 } :=
    ⟨fun _ => id, fun _ => .inl, fun s p member => by cases s <;> exact member,
      fun _ => rfl, rfl⟩
  exact (clock.trans (threadTick_accounting counted).rouses).trans (wakeSleepers_rouses _ woke)

theorem Rouses.placed (h : Rouses k after) : Placed k after :=
  ⟨h.keeps, fun p member => (h.arrives p member).imp id .inl,
    fun s p member => .inl (h.waits s p member),
    fun i _ idles => by rw [h.code]; exact idles, fun p used => by rw [h.allocated, used]⟩

/-- One thread moves in its code, and neither it nor anybody else enters a list. -/
theorem placed_moves (q : Page) (ready : after.readyList = k.readyList)
    (sema : ∀ s, ∀ p ∈ (after.sema s).waiters, p ∈ (k.sema s).waiters)
    (allocated : ∀ p, k.allocated p = true → after.allocated p = true)
    (code : ∀ p, p ≠ q → after.code p = k.code p)
    (here : k.allocated q = true → (k.code q).isIdle → (after.code q).isIdle) : Placed k after := by
  refine ⟨fun p member => ready ▸ member, fun p member => .inl (ready ▸ member),
    fun s p member => .inl (sema s p member), fun i used idles => ?_, allocated⟩
  by_cases same : i = q
  · subst same
    exact here used idles
  · rw [code i same]
    exact idles

theorem semaDown_placed (s : SemaId) (notIdle : ¬ (k.code k.current).isIdle) :
    Placed k (semaDown k s).kernel := by
  have globals := semaDown_globals k s
  refine ⟨fun p member => ?_, fun p member => ?_, fun x p member => ?_, fun i _ idles => ?_,
    fun p used => ?_⟩
  · rw [semaDown_ready]
    exact member
  · rw [semaDown_ready] at member
    exact .inl member
  · rw [semaDown_sema] at member
    split at member
    · rename_i here
      subst here
      unfold Semaphore.down at member
      split at member
      · rw [mem_append, mem_singleton] at member
        exact member.imp id fun same => ⟨same, notIdle⟩
      · exact .inl member
    · exact .inl member
  · have other : i ≠ k.current := fun same => notIdle (same ▸ idles)
    rw [semaDown_code, update_of_ne other]
    exact idles
  · rw [globals.allocated]
    exact used

theorem threadAllocate_placed {t : Page} {name : Name} {priority : Int}
    (created : threadAllocate k t name priority = .ok after) :
    k.allocated t = false ∧ Placed k after := by
  have code := threadAllocate_code created
  have ready := threadAllocate_ready created
  obtain ⟨free, _, _, effects⟩ := threadAllocate_effects created
  have free : k.allocated t = false := by simpa using free
  refine ⟨free, placed_moves t ready (fun s p member => ?_) (fun p used => ?_)
    (fun p other => ?_) fun used => ?_⟩
  · rw [effects.sema] at member
    split at member
    · cases member
    · cases s <;> exact member
  · rw [effects.allocated]
    change update k.allocated t true p = true
    rw [update_apply]
    split
    · rfl
    · exact used
  · rw [code, update_of_ne other]
  · rw [free] at used
    cases used

theorem setCode_placed {c : Code} (notIdle : (k.code k.current).isIdle → c.isIdle) :
    Placed k (k.setCode k.current c) := by
  refine placed_moves k.current (by simp) (fun s p member => ?_) (fun p used => by simpa using used)
    (fun p other => ?_) fun _ idles => ?_
  · rwa [Kernel.setCode_sema] at member
  · rw [setCode_code, update_of_ne other]
  · rw [setCode_code, update_self]
    exact notIdle idles

theorem startIdle_placed {p : Page} {created unblocked : Kernel} (early : k.code k.current = .start)
    (allocated : threadAllocate (k.setCode k.current .startWait) p idleName priMin = .ok created)
    (unblocking : threadUnblock created p = .ok unblocked) :
    Placed k (unblocked.setCode p .idleEntry) := by
  have notIdle : ¬ (k.code k.current).isIdle := by
    rw [early]
    simp [Code.isIdle]
  have before : Placed k (k.setCode k.current .startWait) :=
    setCode_placed fun idles => absurd idles notIdle
  obtain ⟨free, placed⟩ := threadAllocate_placed allocated
  have free : k.allocated p = false := free
  have effects := threadUnblock_effects unblocking
  have queue : (unblocked.setCode p .idleEntry).readyList = k.readyList ++ [p] := by
    change unblocked.readyList = _
    rw [effects.ready, threadAllocate_ready allocated]
    rfl
  refine ⟨fun q member => ?_, fun q member => ?_, fun s q member => ?_, fun i used idles => ?_,
    fun q used => ?_⟩
  · rw [queue]
    exact mem_append_left _ member
  · rw [queue, mem_append, mem_singleton] at member
    refine member.imp id ?_
    rintro rfl
    exact .inr (.inr (.inl free))
  · rw [Kernel.setCode_sema, effects.sema] at member
    rcases placed.waits s q member with old | ⟨rfl, _⟩
    · exact before.waits s q old
    · exact .inr ⟨rfl, notIdle⟩
  · have apart : i ≠ p := by
      rintro rfl
      rw [free] at used
      cases used
    rw [setCode_code, update_of_ne apart, effects.code]
    exact placed.idles i used (before.idles i used idles)
  · change unblocked.allocated q = true
    rw [effects.globals.allocated]
    exact placed.allocated q used

theorem unblock_placed {t : Page} {unblocked : Kernel} (parked : k.code t = .parked)
    (unblocking : threadUnblock k t = .ok unblocked) : Placed k (unblocked.setCode t .user) := by
  have effects := threadUnblock_effects unblocking
  refine ⟨fun q member => ?_, fun q member => ?_, fun s q member => ?_, fun i used idles => ?_,
    fun q used => ?_⟩
  · change q ∈ unblocked.readyList
    rw [effects.ready]
    exact mem_append_left _ member
  · change q ∈ unblocked.readyList at member
    rw [effects.ready, mem_append, mem_singleton] at member
    refine member.imp id ?_
    rintro rfl
    exact .inr (.inr (.inr parked))
  · rw [Kernel.setCode_sema, effects.sema] at member
    exact .inl member
  · have apart : i ≠ t := by
      rintro rfl
      rw [parked] at idles
      rcases idles with no | no <;> cases no
    rw [setCode_code, update_of_ne apart, effects.code]
    exact idles
  · change unblocked.allocated q = true
    rw [effects.globals.allocated]
    exact used

theorem threadExit_placed {rep : Int} (taken : threadExit k rep = .ok outcome) :
    Placed k outcome.kernel := by
  obtain ⟨learned, total, learning, rfl⟩ := threadExit_effects taken
  have accounts := (learnAtExit_accounting learning).rouses.placed
  refine ⟨accounts.keeps, accounts.arrives, fun s p member => ?_, fun i used idles => ?_,
    accounts.allocated⟩
  · have same : (Outcome.schedules ({ learned with
        totalWaitTime := total
        allList := learned.allList.erase learned.current }.setStatus
          learned.current .dying)).kernel.sema s = learned.sema s := by
      rw [Outcome.kernel, Kernel.setStatus_sema]
      cases s <;> rfl
    rw [same] at member
    exact accounts.waits s p member
  · rw [Outcome.kernel, setStatus_code]
    exact accounts.idles i used idles

/-- A body that only writes the running thread's status. -/
theorem setStatus_placed (q : Page) (status : Status) : Placed k (k.setStatus q status) := by
  refine placed_moves q rfl (fun s p member => ?_) (fun _ => id) (fun p _ => ?_) fun _ idles => ?_
  · rwa [Kernel.setStatus_sema] at member
  · rw [setStatus_code]
  · rw [setStatus_code]
    exact idles

theorem threadYield_placed (k : Kernel) : Placed k (threadYield k).kernel := by
  have queue : (threadYield k).kernel.readyList =
      if k.idleThread ≠ some k.current then k.readyList ++ [k.current] else k.readyList := rfl
  refine ⟨fun p member => ?_, fun p member => ?_, fun s p member => ?_, fun i _ idles => ?_,
    fun p used => used⟩
  · rw [queue]
    split
    · exact mem_append_left _ member
    · exact member
  · rw [queue] at member
    split at member
    · rename_i notIdle
      rw [mem_append, mem_singleton] at member
      refine member.imp id ?_
      rintro rfl
      exact .inr (.inl ⟨rfl, notIdle⟩)
    · exact .inl member
  · rw [threadYield_sema] at member
    exact .inl member
  · rw [threadYield_code]
    exact idles

theorem Placed.after_rouses (second : Placed middle after) (first : Rouses k middle)
    (control : SameControl k middle) : Placed k after := by
  refine ⟨fun p member => second.keeps p (first.keeps p member), fun p member => ?_,
    fun s p member => ?_, fun i used idles => ?_, fun p used => ?_⟩
  · rcases second.arrives p member with old | ⟨s, waiting⟩ | ⟨rfl, notIdle⟩ | free | parked
    · exact (first.arrives p old).imp id .inl
    · exact .inr (.inl ⟨s, first.waits s p waiting⟩)
    · rw [control.current] at notIdle ⊢
      rw [control.idleThread] at notIdle
      exact .inr (.inr (.inl ⟨rfl, notIdle⟩))
    · rw [first.allocated] at free
      exact .inr (.inr (.inr (.inl free)))
    · rw [first.code] at parked
      exact .inr (.inr (.inr (.inr parked)))
  · rcases second.waits s p member with old | here
    · exact .inl (first.waits s p old)
    · rw [control.current, first.code] at here
      exact .inr here
  · refine second.idles i ?_ ?_
    · rw [first.allocated]
      exact used
    · rw [first.code]
      exact idles
  · refine second.allocated p ?_
    rw [first.allocated]
    exact used

/-- A thread that the timer interrupt takes off the processor is ready. -/
theorem intrHandler_placed (taken : intrHandler k = .ok outcome) :
    Placed k outcome.kernel ∧ ((∃ ready, outcome = .schedules ready) →
      k.idleThread ≠ some k.current → k.current ∈ outcome.kernel.readyList) := by
  obtain ⟨handled, interrupted, ⟨⟩⟩ := bind_eq_ok.mp taken
  obtain ⟨_, same, _⟩ := timerInterrupt_keeps (fun t => t.code) {} interrupted
  have cleared : Rouses k { k with yieldOnReturn := false } :=
    ⟨fun _ => id, fun _ => .inl, fun s p member => by cases s <;> exact member,
      fun _ => rfl, rfl⟩
  have rouses := cleared.trans (timerInterrupt_rouses interrupted)
  split
  · refine ⟨(threadYield_placed handled).after_rouses rouses
      ⟨same.mode, same.current, same.idleThread, same.initialThread⟩, fun _ notIdle => ?_⟩
    have queue : (threadYield handled).kernel.readyList =
        if handled.idleThread ≠ some handled.current then handled.readyList ++ [handled.current]
        else handled.readyList := rfl
    rw [queue, same.idleThread, same.current, if_pos notIdle]
    exact mem_append_right _ (mem_singleton_self _)
  · refine ⟨rouses.placed, ?_⟩
    rintro ⟨_, ⟨⟩⟩

theorem opBody_placed {e : Event}
    (enabled : e.enabled k = true ∨ ∃ t, e = .unblock t ∧ k.code t = .parked)
    (taken : opBody k e = .ok outcome) : Placed k outcome.kernel := by
  have allowed : (∀ t, e ≠ .unblock t) → e.enabled k = true := by
    intro other
    rcases enabled with enabled | ⟨t, same, _⟩
    · exact enabled
    · exact absurd same (other t)
  have outside : ∀ {c : Code}, k.code k.current = c → ¬ c.isIdle → ¬ (k.code k.current).isIdle :=
    fun place notIdle => place ▸ notIdle
  have notUser : ¬ Code.isIdle .user := by simp [Code.isIdle]
  cases opBody_performs taken with
  | startIdle allocates unblocks =>
    exact startIdle_placed (of_decide_eq_true (allowed (by simp))) allocates unblocks
  | startDown =>
    have place : k.code k.current = .startWait := of_decide_eq_true (allowed (by simp))
    exact semaDown_placed _ (outside place (by simp [Code.isIdle]))
  | noPage => exact (Rouses.refl k).placed
  | create allocates => exact (threadAllocate_placed allocates).2
  | unblock unblocks =>
    refine unblock_placed ?_ unblocks
    rcases enabled with enabled | ⟨_, ⟨⟩, parked⟩
    · exact (of_decide_eq_true enabled).2.2
    · exact parked
  | block =>
    have place : k.code k.current = .user := of_decide_eq_true (allowed (by simp))
    refine placed_moves k.current rfl (fun s p member => ?_) (fun _ => id) (fun p other => ?_)
      fun _ idles => absurd idles (outside place notUser)
    · change p ∈ (((k.setCode k.current .parked).setStatus k.current .blocked).sema s).waiters
        at member
      rwa [Kernel.setStatus_sema, Kernel.setCode_sema] at member
    · change ((k.setCode k.current .parked).setStatus k.current .blocked).code p = _
      rw [setStatus_code, setCode_code, update_of_ne other]
  | semaDown n =>
    have place : k.code k.current = .user := of_decide_eq_true (allowed (by simp))
    exact semaDown_placed _ (outside place notUser)
  | semaTryDown n =>
    simp only [Outcome.kernel, semaTryDown]
    split
    · exact (setValue_rouses k _ _).placed
    · exact (Rouses.refl k).placed
  | semaUp ups => exact (semaUp_rouses ups).placed
  | semaRetry down => exact semaDown_placed _ (outside down (by simp [Code.isIdle]))
  | noSleep negative => exact (Rouses.refl k).placed
  | @sleep n nonneg =>
    have place : k.code k.current = .user := of_decide_eq_true (allowed (by simp))
    have queued : Rouses k (enterWaitList k n) :=
      ⟨fun _ => id, fun _ => .inl, fun s p member => by rwa [enterWaitList_sema] at member,
        enterWaitList_code k n, rfl⟩
    refine (semaDown_placed _ ?_).after_rouses queued ⟨rfl, rfl, rfl, rfl⟩
    rw [enterWaitList_code]
    exact outside place notUser
  | yield => exact threadYield_placed k
  | exit =>
    have place : k.code k.current = .user := of_decide_eq_true (allowed (by simp))
    exact setCode_placed fun idles => absurd idles (outside place notUser)
  | exitFinish exiting exits => exact threadExit_placed exits
  | setPriority priority => exact (threadSetPriority_accounting k priority).rouses.placed
  | setNice nice => exact (threadSetNice_accounting k nice).rouses.placed
  | idleSet =>
    refine placed_moves k.current rfl (fun s p member => ?_) (fun _ => id) (fun p other => ?_)
      fun _ _ => ?_
    · rw [Outcome.kernel, Kernel.setCode_sema] at member
      cases s <;> exact member
    · rw [Outcome.kernel, setCode_code, update_of_ne other]
      rfl
    · rw [Outcome.kernel, setCode_code, update_self]
      exact .inl rfl
  | @idleUp upped ups =>
    have globals := semaUp_globals ups
    have moves : Placed upped (upped.setCode upped.current .idleLoop) :=
      setCode_placed fun _ => .inr rfl
    exact moves.after_rouses (semaUp_rouses ups)
      globals.control
  | idleBlock => exact setStatus_placed k.current .blocked
  | timer handles => exact (intrHandler_placed handles).1

theorem update_settled (codes : Page → Code) (q p : Page) {c : Code} (late : ¬ c.early) :
    update codes q c p = codes p ∨ ¬ (update codes q c p).early := by
  by_cases here : p = q
  · subst here
    rw [update_self]
    exact .inr late
  · exact .inl (update_of_ne here _ _)

/-- Only `thread_start` makes a thread the future idle thread. -/
theorem opBody_settled {e : Event} (other : ∀ q, e ≠ .startIdle q)
    (taken : opBody k e = .ok outcome) (p : Page) :
    outcome.kernel.code p = k.code p ∨ ¬ (outcome.kernel.code p).early := by
  have down : ∀ (k : Kernel) (s : SemaId), (semaDown k s).kernel.code p = k.code p ∨
      ¬ ((semaDown k s).kernel.code p).early := by
    intro k s
    rw [semaDown_code]
    refine update_settled _ _ p ?_
    unfold downCode
    split <;> simp [Code.early]
  cases opBody_performs taken with
  | startIdle => exact absurd rfl (other _)
  | startDown | semaDown | semaRetry => exact down k _
  | @sleep n nonneg =>
    rw [← enterWaitList_code k n p]
    exact down (enterWaitList k n) _
  | create allocates =>
    rw [Outcome.kernel, threadAllocate_code allocates]
    exact update_settled _ _ p (by simp [Code.early])
  | unblock unblocks =>
    rw [Outcome.kernel, setCode_code, ← (threadUnblock_effects unblocks).code p]
    exact update_settled _ _ p (by simp [Code.early])
  | block =>
    change ((k.setCode k.current .parked).setStatus k.current .blocked).code p = _ ∨ ¬
      (((k.setCode k.current .parked).setStatus k.current .blocked).code p).early
    rw [setStatus_code, setCode_code]
    exact update_settled _ _ p (by simp [Code.early])
  | semaTryDown n =>
    simp only [Outcome.kernel, semaTryDown]
    split
    · exact .inl (Kernel.setSema_code k _ _ p)
    · exact .inl rfl
  | semaUp ups => exact .inl (congrFun (semaUp_code ups) p)
  | yield => exact .inl (threadYield_code k p)
  | exit =>
    rw [Outcome.kernel, setCode_code]
    exact update_settled _ _ p (by simp [Code.early])
  | exitFinish exiting exits =>
    exact .inl (threadExit_keeps (fun t => t.code) {} exits p)
  | setPriority priority => exact .inl ((threadSetPriority_accounting k priority).code p)
  | setNice nice => exact .inl ((threadSetNice_accounting k nice).code p)
  | idleSet =>
    rw [Outcome.kernel, setCode_code]
    exact update_settled _ _ p (by simp [Code.early])
  | idleUp ups =>
    rw [Outcome.kernel, setCode_code, semaUp_code ups]
    exact update_settled _ _ p (by simp [Code.early])
  | idleBlock => exact .inl (congrFun (setStatus_code k _ _) p)
  | timer handles =>
    exact .inl ((intrHandler_keeps (fun t => t.code) {} handles).1 p)
  | noPage | noSleep => exact .inl rfl

end
end Calendarizador.Source
