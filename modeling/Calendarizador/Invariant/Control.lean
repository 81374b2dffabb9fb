import Calendarizador.Invariant.Effects
import Calendarizador.Source.Synch

/-!
# Where a step leaves each thread

`codeAfter` says at which point of the code every thread is when an event returns or calls
`schedule`, and `opBody_code` that this is what the event does. Only the running thread
moves, apart from a thread that is created or unblocked. `opBody_sema` and `opBody_live` say
the same about the semaphores and about who is alive.
-/
namespace Calendarizador.Source
open Foundation Function List

/-- Where a thread is after it tested the value in `sema_down`. -/
def downCode (k : Kernel) (s : SemaId) : Code :=
  if (k.sema s).value = 0 then .downing s else .user

def codeAfter (k : Kernel) : Event → Page → Code
  | .startIdle q =>
    Function.update (Function.update k.code k.current .startWait) q .idleEntry
  | .startDown => Function.update k.code k.current (downCode k .idleStarted)
  | .create (some q) _ _ => Function.update k.code q .parked
  | .unblock t => Function.update k.code t .user
  | .block => Function.update k.code k.current .parked
  | .semaDown n => Function.update k.code k.current (downCode k (.user n))
  | .semaRetry =>
    match k.code k.current with
    | .downing s => Function.update k.code k.current (downCode k s)
    | _ => k.code
  | .sleep n =>
    if n < 0 then k.code else Function.update k.code k.current (.downing (.timer k.current))
  | .exit => Function.update k.code k.current
      (.exiting (k.thread k.current).repeats (k.thread k.current).dispatches)
  | .idleSet => Function.update k.code k.current .idleUp
  | .idleUp => Function.update k.code k.current .idleLoop
  | .create none _ _ | .semaTryDown _ | .semaUp _ | .yield | .exitFinish | .setPriority _
  | .setNice _ | .idleBlock | .timer => k.code

/-- What a section does to the semaphore. -/
def SemaEvent.apply (v : Semaphore) : SemaEvent → Semaphore
  | .down t | .retest t => v.down t
  | .tryDown => v.tryDown
  | .up => v.up

/-- The semaphore section an event consists of, for semaphores other than those of sleepers. -/
def semaCall (k : Kernel) : Event → Option (SemaId × SemaEvent)
  | .startDown => some (.idleStarted, .down k.current)
  | .semaDown n => some (.user n, .down k.current)
  | .semaRetry =>
    match k.code k.current with
    | .downing s => some (s, .retest k.current)
    | _ => none
  | .semaTryDown n => some (.user n, .tryDown)
  | .semaUp n => some (.user n, .up)
  | .idleUp => some (.idleStarted, .up)
  | _ => none

def semaAfter (k : Kernel) (e : Event) (s : SemaId) : Semaphore :=
  match semaCall k e with
  | some (x, op) => if s = x then op.apply (k.sema x) else k.sema s
  | none => k.sema s

section
variable {k : Kernel}
variable {after : Kernel} {s : SemaId} {t : Page} {name : Name} {priority : Int} {e : Event}
  {outcome : Outcome}

theorem retry_downing (enabled : Event.enabled k .semaRetry = true) :
    ∃ s, k.code k.current = .downing s := by
  simp only [Event.enabled] at enabled
  split at enabled
  · rename_i s down
    exact ⟨s, down⟩
  · cases enabled

theorem setCode_code (k : Kernel) (p : Page) (c : Code) :
    (k.setCode p c).code = update k.code p c := by
  funext q
  by_cases here : q = p <;> simp [here]

theorem setStatus_code (k : Kernel) (p : Page) (s : Status) : (k.setStatus p s).code = k.code := by
  funext q
  by_cases here : q = p <;> simp [here]

theorem threadYield_code (k : Kernel) (p : Page) : (threadYield k).kernel.code p = k.code p := by
  change ((stampWait k k.current).setStatus k.current .ready).code p = _
  rw [setStatus_code]
  by_cases here : p = k.current <;> simp [stampWait, here]

theorem threadYield_sema (k : Kernel) (s : SemaId) : (threadYield k).kernel.sema s = k.sema s := by
  change ((stampWait k k.current).setStatus k.current .ready).sema s = _
  rw [Kernel.setStatus_sema, stampWait, Kernel.upd_sema _ _ _ _ rfl]

theorem semaDown_code (k : Kernel) (s : SemaId) :
    (semaDown k s).kernel.code = update k.code k.current (downCode k s) := by
  by_cases zero : (k.sema s).value = 0
  · rw [semaDown_zero zero, downCode, if_pos zero]
    funext p
    change (blockOn k s).code p = _
    rw [blockOn_code, update_apply]
  · rw [semaDown_pos zero, downCode, if_neg zero]
    change ((k.setSema s _).setCode k.current .user).code = _
    rw [setCode_code]
    congr 1
    funext p
    simp

theorem semaUp_code (taken : semaUp k s = .ok after) : after.code = k.code := by
  funext p
  rcases semaUp_effects taken with ⟨_, rfl⟩ | ⟨t, woken⟩
  · simp
  · exact woken.code p

theorem threadAllocate_code (created : threadAllocate k t name priority = .ok after) :
    after.code = update k.code t .parked := by
  obtain ⟨_, _, _, effects⟩ := threadAllocate_effects created
  funext p
  rw [effects.code, update_apply]
  rfl

theorem opBody_code (h : Inv k) (enabled : e.enabled k = true) (taken : opBody k e = .ok outcome) :
    outcome.kernel.code = codeAfter k e := by
  cases opBody_performs taken with
  | startIdle allocates unblocks =>
    have same := funext (threadUnblock_effects unblocks).code
    rw [Outcome.kernel, setCode_code, same, threadAllocate_code allocates, setCode_code, codeAfter,
      update_idem]
  | startDown => exact semaDown_code k _
  | noPage => rfl
  | create allocates => exact threadAllocate_code allocates
  | unblock unblocks =>
    have same := funext (threadUnblock_effects unblocks).code
    rw [Outcome.kernel, setCode_code, same, codeAfter]
  | block =>
    change ((k.setCode k.current .parked).setStatus _ .blocked).code = _
    rw [setStatus_code, setCode_code, codeAfter]
  | semaDown n => exact semaDown_code k _
  | semaTryDown n =>
    funext p
    simp only [Outcome.kernel, semaTryDown, codeAfter]
    split <;> simp
  | semaUp ups => exact semaUp_code ups
  | semaRetry down =>
    rw [semaDown_code]
    simp only [codeAfter, down]
  | noSleep negative =>
    simp only [codeAfter, if_pos negative]
    rfl
  | @sleep n nonneg =>
    have user : k.code k.current = .user := of_decide_eq_true enabled
    have zero := h.timer_zero (by rw [user]; simp)
    rw [semaDown_zero (by rw [enterWaitList_sema]; exact zero)]
    funext p
    change (blockOn (enterWaitList k n) (.timer k.current)).code p = _
    simp only [codeAfter, if_neg (not_lt.mpr nonneg)]
    rw [blockOn_code, enterWaitList_code, update_apply]
    rfl
  | yield => exact funext (threadYield_code k)
  | exit => exact setCode_code k _ _
  | exitFinish exiting exits =>
    exact funext (threadExit_keeps (fun t => t.code) {} exits)
  | setPriority priority => exact funext (threadSetPriority_accounting k priority).code
  | setNice nice => exact funext (threadSetNice_accounting k nice).code
  | idleSet => exact setCode_code _ _ _
  | idleUp ups =>
    rw [Outcome.kernel, setCode_code, semaUp_code ups, (semaUp_calm ups).current, codeAfter]
  | idleBlock => exact setStatus_code k _ _
  | timer handles =>
    obtain ⟨codes, _⟩ := intrHandler_keeps (fun t => t.code) {} handles
    exact funext codes

theorem semaDown_sema (k : Kernel) (s x : SemaId) :
    (semaDown k s).kernel.sema x = if x = s then (k.sema s).down k.current else k.sema x := by
  by_cases zero : (k.sema s).value = 0
  · rw [semaDown_zero zero, Semaphore.down, if_pos zero]
    exact blockOn_sema k s x
  · rw [semaDown_pos zero, Semaphore.down, if_neg zero]
    change ((k.setSema s _).setCode k.current .user).sema x = _
    rw [Kernel.setCode_sema, Kernel.setSema_sema]

theorem semaTryDown_sema (k : Kernel) (s x : SemaId) :
    (semaTryDown k s).sema x = if x = s then (k.sema s).tryDown else k.sema x := by
  unfold semaTryDown Semaphore.tryDown
  split
  · rw [Kernel.setSema_sema]
  · split
    · rename_i same
      rw [same]
    · rfl

theorem semaUp_sema (taken : semaUp k s = .ok after) (x : SemaId) :
    after.sema x = if x = s then (k.sema s).up else k.sema x := by
  rcases semaUp_effects taken with ⟨nobody, rfl⟩ | ⟨t, woken⟩
  · simp [Kernel.setSema_sema, Semaphore.up, nobody]
  · exact woken.sema x

/-- A tick ups the semaphores of sleepers only. -/
theorem intrHandler_sema (notTimer : ∀ q, s ≠ .timer q) (taken : intrHandler k = .ok outcome) :
    outcome.kernel.sema s = k.sema s := by
  obtain ⟨handled, interrupted, ⟨⟩⟩ := bind_eq_ok.mp taken
  obtain ⟨ticked, counted, woke⟩ := bind_eq_ok.mp interrupted
  have woken : handled.sema s = ticked.sema s := by
    refine wakeSleepers_invariant (P := fun x => x.sema s = ticked.sema s) _ rfl ?_ woke
    intro x upped t rest same upping
    have dropped : ({ upped with waitList := rest } : Kernel).sema s = upped.sema s := by
      cases s <;> rfl
    rw [dropped, semaUp_sema upping, if_neg (notTimer t)]
    exact same
  have before : handled.sema s = k.sema s := by
    rw [woken, (threadTick_accounting counted).sema]
    cases s <;> rfl
  split
  · rw [threadYield_sema, before]
  · exact before

theorem threadAllocate_sema (notTimer : ∀ q, s ≠ .timer q)
    (created : threadAllocate k t name priority = .ok after) : after.sema s = k.sema s := by
  obtain ⟨_, _, _, effects⟩ := threadAllocate_effects created
  rw [effects.sema, if_neg (notTimer t)]
  cases s <;> rfl

/-- An event makes at most one semaphore section, apart from those on sleepers' semaphores. -/
theorem opBody_sema (taken : opBody k e = .ok outcome) (notTimer : ∀ q, s ≠ .timer q) :
    outcome.kernel.sema s = semaAfter k e s := by
  cases opBody_performs taken with
  | startIdle allocates unblocks =>
    rw [Outcome.kernel, Kernel.setCode_sema, (threadUnblock_effects unblocks).sema,
      threadAllocate_sema notTimer allocates, Kernel.setCode_sema]
    rfl
  | startDown => exact semaDown_sema k _ s
  | noPage => rfl
  | create allocates => exact threadAllocate_sema notTimer allocates
  | unblock unblocks =>
    rw [Outcome.kernel, Kernel.setCode_sema, (threadUnblock_effects unblocks).sema]
    rfl
  | block =>
    change ((k.setCode k.current .parked).setStatus _ .blocked).sema s = _
    rw [Kernel.setStatus_sema, Kernel.setCode_sema]
    rfl
  | semaDown n => exact semaDown_sema k _ s
  | semaTryDown n => exact semaTryDown_sema k _ s
  | semaUp ups => exact semaUp_sema ups s
  | semaRetry down =>
    rw [semaDown_sema]
    simp only [semaAfter, semaCall, down, SemaEvent.apply]
  | noSleep negative => rfl
  | sleep nonneg =>
    rw [semaDown_sema, if_neg (notTimer _), enterWaitList_sema]
    rfl
  | yield => exact threadYield_sema k s
  | exit => exact Kernel.upd_sema k _ _ s rfl
  | exitFinish exiting exits =>
    obtain ⟨learned, total, learning, rfl⟩ := threadExit_effects exits
    change (Kernel.setStatus _ _ .dying).sema s = _
    rw [Kernel.setStatus_sema]
    have same := (learnAtExit_accounting learning).sema s
    cases s with
    | idleStarted => exact same
    | user n => exact same
    | timer q => exact absurd rfl (notTimer q)
  | setPriority priority => exact (threadSetPriority_accounting k priority).sema s
  | setNice nice => exact (threadSetNice_accounting k nice).sema s
  | idleSet =>
    rw [Outcome.kernel, Kernel.setCode_sema]
    cases s <;> rfl
  | idleUp ups =>
    rw [Outcome.kernel, Kernel.setCode_sema, semaUp_sema ups]
    rfl
  | idleBlock => exact Kernel.upd_sema k _ _ s rfl
  | timer handles => exact intrHandler_sema notTimer handles

/-- Who is alive when an event returns or calls `schedule`. -/
theorem opBody_live (h : Inv k) (enabled : e.enabled k = true) (taken : opBody k e = .ok outcome) :
    (∀ p, outcome.kernel.Live p →
      k.Live p ∨ (k.allocated p = false ∧ ∃ name, e.creates = some (p, name))) ∧
      (e ≠ .exitFinish → ∀ p, k.Live p → outcome.kernel.Live p) := by
  have good := (opBody_inv h e enabled taken).core
  have same : outcome.kernel.allList = k.allList →
      ∀ p, outcome.kernel.Live p ↔ k.Live p := by
    intro list p
    rw [← (good.threads p).all, ← (h.core.threads p).all, list]
  rcases opBody_effects h enabled taken with ⟨_, _, calm⟩ | ⟨t, name, creates, born⟩ |
    ⟨rfl, rep, seen, code, exits⟩ | ⟨n, rfl, _, rfl⟩ | ⟨rfl, handled⟩
  · have alive := same calm.allList
    exact ⟨fun p now => .inl ((alive p).mp now), fun _ p => (alive p).mpr⟩
  · have alive : ∀ p, outcome.kernel.Live p ↔ k.Live p ∨ p = t := by
      intro p
      rw [← (good.threads p).all, ← (h.core.threads p).all, born.allList, mem_append,
        mem_singleton]
    refine ⟨fun p now => ((alive p).mp now).imp id ?_,
      fun _ p before => (alive p).mpr (.inl before)⟩
    rintro rfl
    exact ⟨born.free, name, creates⟩
  · obtain ⟨learned, total, learning, rfl⟩ := threadExit_effects exits
    refine ⟨fun p now => .inl ?_, fun no => absurd rfl no⟩
    refine live_of_allList h.core good ?_ p now
    rw [(learnAtExit_accounting learning).allList]
    exact erase_subset
  · have alive := same (blockOn_globals (enterWaitList k n) _).allList
    exact ⟨fun p now => .inl ((alive p).mp now), fun _ p => (alive p).mpr⟩
  · obtain ⟨_, lists⟩ := intrHandler_keeps (fun t => t.code) {} handled
    have alive := same lists.allList
    exact ⟨fun p now => .inl ((alive p).mp now), fun _ p => (alive p).mpr⟩

/-- The thread that exits, and nobody else, is dead when `thread_exit` calls `schedule`. -/
theorem exitFinish_live (h : Inv k) (enabled : Event.enabled k .exitFinish = true)
    (taken : opBody k .exitFinish = .ok outcome) (p : Page) :
    outcome.kernel.Live p ↔ k.Live p ∧ p ≠ k.current := by
  have good := (opBody_inv h .exitFinish enabled taken).core
  rw [← (good.threads p).all, ← (h.core.threads p).all]
  cases opBody_performs taken with
  | exitFinish exiting exits =>
    obtain ⟨learned, total, learning, rfl⟩ := threadExit_effects exits
    have same := learnAtExit_accounting learning
    change p ∈ learned.allList.erase learned.current ↔ _
    rw [same.allList, same.current, h.core.all_nodup.mem_erase_iff, and_comm]

theorem created_live (h : Inv k) (enabled : e.enabled k = true) (taken : opBody k e = .ok outcome)
    {p : Page} (creates : e.creates = some (p, name)) :
    k.allocated p = false ∧ outcome.kernel.Live p := by
  have good := (opBody_inv h e enabled taken).core
  rcases opBody_effects h enabled taken with ⟨_, ⟨none, _⟩, _⟩ | ⟨t, _, some, born⟩ |
    ⟨rfl, _⟩ | ⟨_, rfl, _⟩ | ⟨rfl, _⟩
  · cases none.symm.trans creates
  · cases some.symm.trans creates
    refine ⟨born.free, (good.threads p).all.mp ?_⟩
    rw [born.allList]
    exact mem_append_right _ (mem_singleton_self p)
  · cases creates
  · cases creates
  · cases creates

/-- The page of a new thread was free. -/
theorem created_fresh (h : Inv k) (enabled : e.enabled k = true) (taken : opBody k e = .ok outcome)
    {p : Page} (used : k.allocated p = true) : e.creates ≠ some (p, name) := by
  intro creates
  cases (created_live h enabled taken creates).1.symm.trans used

theorem semaDown_globals (k : Kernel) (s : SemaId) : SameGlobals k (semaDown k s).kernel := by
  by_cases zero : (k.sema s).value = 0
  · rw [semaDown_zero zero]
    exact blockOn_globals k s
  · rw [semaDown_pos zero]
    exact (setSema_globals k s _).trans (upd_globals _ _ _)

theorem threadAllocate_control (created : threadAllocate k t name priority = .ok after) :
    SameControl k after := by
  obtain ⟨_, _, _, effects⟩ := threadAllocate_effects created
  exact ⟨effects.mode, effects.current, effects.idleThread, effects.initialThread⟩

/-- Up to its `schedule` call an event writes none of these, except that the idle thread
announces itself. -/
theorem opBody_control (taken : opBody k e = .ok outcome) : SameControl k outcome.kernel ∨
      (e = .idleSet ∧ SameControl { k with idleThread := some k.current } outcome.kernel) := by
  cases opBody_performs taken with
  | startIdle allocates unblocks =>
    have same := threadAllocate_control allocates
    have more := (threadUnblock_effects unblocks).globals
    exact .inl ⟨more.mode.trans same.mode, more.current.trans same.current,
      more.idleThread.trans same.idleThread, more.initialThread.trans same.initialThread⟩
  | create allocates => exact .inl (threadAllocate_control allocates)
  | unblock unblocks =>
    exact .inl ((threadUnblock_effects unblocks).globals.trans (upd_globals _ _ _)).control
  | startDown | semaDown | semaRetry => exact .inl (semaDown_globals k _).control
  | semaTryDown n =>
    simp only [Outcome.kernel, semaTryDown]
    split
    · exact .inl (setSema_globals k _ _).control
    · exact .inl ⟨rfl, rfl, rfl, rfl⟩
  | semaUp ups => exact .inl (semaUp_globals ups).control
  | idleUp ups => exact .inl ((semaUp_globals ups).trans (upd_globals _ _ _)).control
  | @sleep n nonneg =>
    have same := (semaDown_globals (enterWaitList k n) (.timer k.current)).control
    exact .inl ⟨same.mode, same.current, same.idleThread, same.initialThread⟩
  | exitFinish exiting exits =>
    obtain ⟨learned, total, learning, rfl⟩ := threadExit_effects exits
    have same := (learnAtExit_accounting learning).control
    exact .inl ⟨same.mode, same.current, same.idleThread, same.initialThread⟩
  | setPriority priority => exact .inl (threadSetPriority_accounting k priority).control
  | setNice nice => exact .inl (threadSetNice_accounting k nice).control
  | timer handles =>
    exact .inl (intrHandler_keeps (fun t => t.code) {} handles).2.control
  | idleSet => exact .inr ⟨rfl, ⟨rfl, rfl, rfl, rfl⟩⟩
  | noPage | noSleep | block | yield | exit | idleBlock => exact .inl ⟨rfl, rfl, rfl, rfl⟩

theorem opBody_current (taken : opBody k e = .ok outcome) :
    outcome.kernel.current = k.current ∧ outcome.kernel.initialThread = k.initialThread := by
  rcases opBody_control taken with same | ⟨_, same⟩
  · exact ⟨same.current, same.initialThread⟩
  · exact ⟨same.current, same.initialThread⟩

theorem schedule_switched (h : Core k) (taken : schedule k = .ok after) : Switched k after := by
  obtain ⟨_, next, rest, picked, rfl⟩ := schedule_effects taken
  exact dispatch_switched (h.picked_live picked) rest

end

/-- Nobody stops being the idle thread. -/
theorem step_idle {k after : Kernel} (h : Inv k) {e : Event} (taken : step k e = .ok after)
    {p : Page} (idle : k.idleThread = some p) : after.idleThread = some p := by
  have body_idle : ∀ {outcome : Outcome}, e.enabled k = true → opBody k e = .ok outcome →
      outcome.kernel.idleThread = some p := by
    intro outcome enabled body
    rcases opBody_control body with same | ⟨rfl, _⟩
    · rw [same.idleThread, idle]
    · -- the idle thread announces itself once
      have enters : k.code k.current = .idleEntry := of_decide_eq_true enabled
      have unset := ((h.core.threads k.current).entry h.live enters).1
      cases idle.symm.trans unset
  obtain ⟨enabled, body | ⟨ready, body, switched⟩⟩ := step_effects taken
  · exact body_idle enabled body
  · obtain ⟨_, next, rest, _, rfl⟩ := schedule_effects switched
    exact (dispatch_idleThread _ _).trans (body_idle enabled body)

end Calendarizador.Source
