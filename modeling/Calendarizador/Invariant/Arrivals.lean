import Calendarizador.Invariant.Control
import Calendarizador.Invariant.MlfqsTick

/-!
# Arrivals on the ready list

`enqueues` lists the threads that an event appends to the ready list through
`thread_unblock` or `thread_yield`, in order. Without a sort the ready list only grows at
its end and shrinks at its front, so it is what arrived and was not dispatched yet. The
list is empty when `main` returns from `thread_start`, which is where the account begins.
-/
namespace Calendarizador.Source
open Foundation Function List

/-- Points of `main` inside `thread_start`. -/
def Code.starting : Code → Bool
  | .start | .startWait | .downing .idleStarted => true
  | _ => false

/-- `thread_start` has not returned yet. -/
def Kernel.Starting (k : Kernel) : Prop := (k.code k.initialThread).starting = true

instance (k : Kernel) : Decidable k.Starting := inferInstanceAs (Decidable (_ = _))

/-- What `sema_up` on the semaphores of the sleepers that are due takes off their waiters. -/
def wakes (k : Kernel) : List Page :=
  (dueSleepers (atTick k)).flatMap fun t => (k.sema (.timer t)).waiters.head?.toList

/-- The calls of `list_push_back (&ready_list, ..)` that an event makes, in order. -/
def enqueues (k : Kernel) : Event → List Page
  | .startIdle p => [p]
  | .unblock t => [t]
  | .semaUp n => (k.sema (.user n)).waiters.head?.toList
  | .idleUp => (k.sema .idleStarted).waiters.head?.toList
  | .yield => requeued k
  | .timer => wakes k ++
      match opBody k .timer with
      | .ok (.schedules _) => requeued k
      | _ => []
  | _ => []

/-- The dispatch a step makes, if it makes one of a thread other than `idle_thread`. -/
def dispatches (k : Kernel) (e : Event) (after : Kernel) : List Page :=
  match opBody k e with
  | .ok (.schedules _) => if after.idleThread = some after.current then [] else [after.current]
  | _ => []

/-- The state in which an event calls `schedule`. -/
def schedulesFrom (k : Kernel) (e : Event) : Option Kernel :=
  match opBody k e with
  | .ok (.schedules ready) => some ready
  | _ => none

theorem schedulesFrom_eq_some {k ready : Kernel} {e : Event}
    (schedules : schedulesFrom k e = some ready) : opBody k e = .ok (.schedules ready) := by
  unfold schedulesFrom at schedules
  split at schedules
  · rename_i called body
    cases schedules
    exact body
  · cases schedules

/-- The event is the running thread's own `thread_block`, `thread_yield` or
`thread_exit`. -/
def GivesUp (k : Kernel) : Event → Prop
  | .block | .idleBlock | .yield | .exitFinish => True
  | .startDown => (k.sema .idleStarted).value = 0
  | .semaDown n => (k.sema (.user n)).value = 0
  | .semaRetry =>
    match k.code k.current with
    | .downing s => (k.sema s).value = 0
    | _ => False
  | .sleep n => 0 ≤ n
  | _ => False

instance (k : Kernel) (e : Event) : Decidable (GivesUp k e) := by
  unfold GivesUp
  split
  all_goals first | infer_instance | (split <;> infer_instance)

section
variable {k after : Kernel} {e : Event} {outcome : Outcome} {mode : Mode}

/-- Only these events and the timer interrupt reach `schedule`. -/
theorem opBody_givesUp {ready : Kernel} (other : e ≠ .timer)
    (body : opBody k e = .ok (.schedules ready)) : GivesUp k e := by
  generalize same : Outcome.schedules ready = outcome at body
  cases opBody_performs body with
  | startDown | semaDown => exact (semaDown_schedules same.symm).1
  | semaRetry down =>
    simp only [GivesUp, down]
    exact (semaDown_schedules same.symm).1
  | sleep nonneg => exact nonneg
  | block | idleBlock | yield | exitFinish => trivial
  | timer => exact absurd rfl other
  | _ => cases same

/-- A sleeper is the only waiter of its own semaphore. -/
theorem wakes_eq (h : Inv k) : wakes k = dueSleepers (atTick k) := by
  unfold wakes
  have alone : ∀ t ∈ dueSleepers (atTick k), (k.sema (.timer t)).waiters.head?.toList = [t] := by
    intro t due
    have asleep : t ∈ k.waitList := (takeWhile_sublist _).subset due
    have waits := ((h.core.threads t).waiters (.timer t)).mpr ((h.core.threads t).wait.mp asleep)
    cases list : (k.sema (.timer t)).waiters with
    | nil =>
      rw [list] at waits
      cases waits
    | cons first rest =>
      obtain ⟨alive, _, down⟩ := ((h.core.threads first).waiters (.timer t)).mp (by simp [list])
      simp [(h.core.threads first).ownTimer t alive down]
  generalize dueSleepers (atTick k) = due at alone
  induction due with
  | nil => rfl
  | cons t rest ih =>
    rw [flatMap_cons, alone t mem_cons_self,
      ih fun q member => alone q (mem_cons_of_mem t member)]
    rfl

/-- Without priorities and quanta the handler wakes sleepers and returns. -/
theorem intrHandler_returns (h : Inv k) (mode : k.mode = .fcfs ∨ k.mode = .sjf)
    (taken : intrHandler k = .ok outcome) :
    ∃ handled, outcome = .returns handled ∧ handled.readyList = k.readyList ++ wakes k := by
  obtain ⟨handled, interrupted, ⟨⟩⟩ := bind_eq_ok.mp taken
  obtain ⟨ticked, counted, _, yields, _, ready, _⟩ := timerInterrupt_ticked h interrupted
  have plain : ticked.readyList = k.readyList ∧ ticked.yieldOnReturn = false := by
    have same : (atTick k).mode = k.mode := rfl
    rcases mode with mode | mode
    all_goals
      simp only [threadTick, same, mode, Except.ok.injEq] at counted
      subst counted
      exact ⟨rfl, rfl⟩
  refine ⟨handled, by simp [yields.trans plain.2], ?_⟩
  rw [ready, plain.1, wakes_eq h]

theorem semaUp_ready {s : SemaId} (taken : semaUp k s = .ok after) :
    after.readyList = k.readyList ++ (k.sema s).waiters.head?.toList := by
  rcases semaUp_effects taken with ⟨nobody, rfl⟩ | ⟨t, woken⟩
  · simp [nobody]
  · obtain ⟨rest, front⟩ := woken.front
    simp [woken.ready, front]

theorem semaDown_ready (k : Kernel) (s : SemaId) :
    (semaDown k s).kernel.readyList = k.readyList := by
  by_cases zero : (k.sema s).value = 0
  · rw [semaDown_zero zero]
    exact blockOn_readyList k s
  · rw [semaDown_pos zero]
    exact Kernel.setSema_readyList k s _

theorem threadAllocate_ready {t : Page} {name : Name} {priority : Int}
    (created : threadAllocate k t name priority = .ok after) : after.readyList = k.readyList := by
  obtain ⟨_, _, _, effects⟩ := threadAllocate_effects created
  exact effects.ready

/-- A plain event appends its arrivals and does nothing else to the ready list. -/
theorem plain_enqueues (plain : e.plain = true) (taken : opBody k e = .ok outcome) :
    outcome.kernel.readyList = k.readyList ++ enqueues k e := by
  cases opBody_performs taken with
  | startIdle | create | exitFinish | setPriority | setNice | timer => cases plain
  | unblock unblocks => exact (threadUnblock_effects unblocks).ready
  | semaUp ups => exact semaUp_ready ups
  | @idleUp upped ups =>
    change upped.readyList = _
    exact semaUp_ready ups
  | startDown | semaDown | semaRetry => exact (semaDown_ready k _).trans (append_nil _).symm
  | semaTryDown n =>
    simp only [Outcome.kernel, semaTryDown, enqueues, append_nil]
    split <;> simp
  | sleep nonneg => exact (semaDown_ready _ _).trans (append_nil _).symm
  | yield =>
    change (if k.idleThread ≠ some k.current then k.readyList ++ [k.current] else k.readyList) = _
    simp only [enqueues, requeued]
    split <;> simp
  | noPage | noSleep | block | exit | idleSet | idleBlock => exact (append_nil _).symm

/-- So does a call that sorts nothing. -/
theorem call_enqueues (mode : k.mode ≠ .mlfqs) (exits : k.mode = .sjf → e ≠ .exitFinish)
    (call : e ≠ .timer) (taken : opBody k e = .ok outcome) :
    outcome.kernel.readyList = k.readyList ++ enqueues k e := by
  cases opBody_performs taken with
  | @startIdle p created unblocked allocates unblocks =>
    change unblocked.readyList = _
    rw [(threadUnblock_effects unblocks).ready, threadAllocate_ready allocates]
    rfl
  | create allocates => exact (threadAllocate_ready allocates).trans (append_nil _).symm
  | exitFinish exiting ends =>
    obtain ⟨learned, total, learning, rfl⟩ := threadExit_effects ends
    rw [learnAtExit, if_neg fun sjf => exits sjf rfl] at learning
    cases learning
    exact (append_nil _).symm
  | setPriority priority =>
    have same : (threadSetPriority k priority).readyList = k.readyList := by
      unfold threadSetPriority
      simp [mode]
    exact same.trans (append_nil _).symm
  | setNice nice =>
    have same : (threadSetNice k nice).readyList = k.readyList := by
      unfold threadSetNice
      simp [mode]
    exact same.trans (append_nil _).symm
  | timer => exact absurd rfl call
  | _ => exact plain_enqueues rfl taken

theorem opBody_enqueues (h : Inv k) (mode : k.mode = .fcfs ∨ k.mode = .sjf)
    (exits : k.mode = .sjf → e ≠ .exitFinish) (taken : opBody k e = .ok outcome) :
    outcome.kernel.readyList = k.readyList ++ enqueues k e := by
  by_cases tick : e = .timer
  · subst tick
    obtain ⟨handled, rfl, ready⟩ := intrHandler_returns h mode taken
    simp only [opBody] at taken
    simp only [enqueues, opBody, taken, append_nil]
    exact ready
  · refine call_enqueues ?_ exits tick taken
    rcases mode with mode | mode <;> simp [mode]

/-- Under FCFS a step takes its dispatch from the front of the ready list. -/
theorem step_queue (h : Inv k) (mode : k.mode = .fcfs) (taken : step k e = .ok after) :
    k.readyList ++ enqueues k e = dispatches k e after ++ after.readyList := by
  have exits : k.mode = .sjf → e ≠ .exitFinish := by simp [mode]
  obtain ⟨enabled, body | ⟨ready, body, scheduled⟩⟩ := step_effects taken
  · rw [← opBody_enqueues h (.inl mode) exits body, dispatches, body]
    rfl
  · have core := (opBody_inv h e enabled body).core
    rw [← opBody_enqueues h (.inl mode) exits body, dispatches, body]
    obtain ⟨_, next, rest, picked, rfl⟩ := schedule_effects scheduled
    simp only [dispatch_idleThread, dispatch_current, dispatch_readyList, Outcome.kernel]
    rcases picked with list | ⟨none, rfl, idle⟩
    · have notIdle := ((core.threads next).ready.mp (by simp [Outcome.kernel, list])).2.2
      simp only [Outcome.kernel] at notIdle
      rw [list, if_neg notIdle]
      rfl
    · rw [none, if_pos idle]
      rfl

/-- Codes of the idle thread. -/
def Code.idles (c : Code) : Prop := c = .idleEntry ∨ c = .idleUp ∨ c = .idleLoop

/-- While `main` is in `thread_start` the only other thread is the idle thread, and the
semaphore has a unit only once that thread has upped it. -/
structure Booting (k : Kernel) : Prop where
  others : k.Starting → ∀ p, k.Live p → p ≠ k.initialThread → (k.code p).idles
  unit : k.Starting → k.idleStarted.value ≠ 0 → ∃ p, k.Live p ∧ k.code p = .idleLoop

theorem update_starting {codes : Page → Code} {p q : Page} {c : Code}
    (inside : (update codes p c q).starting = true)
    (moved : c.starting = true → (codes p).starting = true) : (codes q).starting = true := by
  by_cases here : q = p
  · subst here
    rw [update_self] at inside
    exact moved inside
  · rwa [update_of_ne here] at inside

/-- Nobody enters `thread_start` again. -/
theorem codeAfter_starting (enabled : e.enabled k = true) {q : Page}
    (inside : (codeAfter k e q).starting = true) : (k.code q).starting = true := by
  have downing : ∀ s, (downCode k s).starting = true → s = .idleStarted := by
    intro s
    unfold downCode
    split
    · cases s <;> simp [Code.starting]
    · simp [Code.starting]
  cases e with
  | startIdle p =>
    have early : k.code k.current = .start := of_decide_eq_true enabled
    refine update_starting (update_starting inside fun no => by cases no) fun _ => ?_
    rw [early]
    rfl
  | startDown =>
    have wait : k.code k.current = .startWait := of_decide_eq_true enabled
    refine update_starting inside fun _ => ?_
    rw [wait]
    rfl
  | semaRetry =>
    obtain ⟨s, down⟩ := retry_downing enabled
    simp only [codeAfter, down] at inside
    refine update_starting inside fun starts => ?_
    rw [down, downing s starts]
    rfl
  | semaDown n => exact update_starting inside fun starts => by cases downing _ starts
  | sleep n =>
    simp only [codeAfter] at inside
    split at inside
    · exact inside
    · exact update_starting inside fun no => by cases no
  | create p name priority =>
    cases p with
    | none => exact inside
    | some p => exact update_starting inside fun no => by cases no
  | unblock t => exact update_starting inside fun no => by cases no
  | block | exit | idleSet | idleUp => exact update_starting inside fun no => by cases no
  | semaTryDown _ | semaUp _ | yield | exitFinish | setPriority _ | setNice _ | idleBlock
  | timer => exact inside

theorem Booting.current (boot : Booting k) (starting : k.Starting) (alive : k.Live k.current) :
    (k.code k.current).starting = true ∨ (k.code k.current).idles := by
  by_cases here : k.current = k.initialThread
  · rw [here]
    exact .inl starting
  · exact .inr (boot.others starting k.current alive here)

/-- The moves of the idle thread while `main` waits for it. -/
theorem codeAfter_idles (enabled : e.enabled k = true)
    (runs : (k.code k.current).starting = true ∨ (k.code k.current).idles) {p : Page}
    (old : ∀ name, e.creates ≠ some (p, name)) (idles : (k.code p).idles) :
    (codeAfter k e p).idles ∧ (k.code p = .idleLoop → codeAfter k e p = .idleLoop) := by
  have notUser : k.code k.current ≠ .user := by
    intro user
    rw [user] at runs
    rcases runs with no | no | no | no <;> cases no
  have stays : codeAfter k e p = k.code p →
      (codeAfter k e p).idles ∧ (k.code p = .idleLoop → codeAfter k e p = .idleLoop) := by
    intro same
    exact ⟨same ▸ idles, fun loop => same.trans loop⟩
  have other : ∀ {code : Code}, k.code k.current = code → ¬ code.idles → p ≠ k.current := by
    rintro code now no rfl
    exact no (now ▸ idles)
  cases e with
  | startIdle q =>
    have early : k.code k.current = .start := of_decide_eq_true enabled
    have apart := other early (by simp [Code.idles])
    have apart' : p ≠ q := by
      rintro rfl
      exact old idleName rfl
    exact stays ((update_of_ne apart' _ _).trans (update_of_ne apart _ _))
  | startDown =>
    have wait : k.code k.current = .startWait := of_decide_eq_true enabled
    exact stays (update_of_ne (other wait (by simp [Code.idles])) _ _)
  | semaRetry =>
    obtain ⟨s, down⟩ := retry_downing enabled
    refine stays ?_
    simp only [codeAfter, down]
    exact update_of_ne (other down (by simp [Code.idles])) _ _
  | unblock t =>
    have parked : k.code t = .parked := (of_decide_eq_true enabled).2.2
    have apart : p ≠ t := by
      rintro rfl
      rw [parked] at idles
      rcases idles with no | no | no <;> cases no
    exact stays (update_of_ne apart _ _)
  | idleSet =>
    have entry : k.code k.current = .idleEntry := of_decide_eq_true enabled
    by_cases here : p = k.current
    · subst here
      simp only [codeAfter, update_self, entry]
      exact ⟨.inr (.inl rfl), fun no => by cases no⟩
    · exact stays (update_of_ne here _ _)
  | idleUp =>
    by_cases here : p = k.current
    · subst here
      simp only [codeAfter, update_self]
      exact ⟨.inr (.inr rfl), fun _ => trivial⟩
    · exact stays (update_of_ne here _ _)
  | create q name priority => exact absurd (of_decide_eq_true enabled) notUser
  | block | semaDown _ | sleep _ | yield | exit | setPriority _ | setNice _ =>
    exact absurd (of_decide_eq_true enabled) notUser
  | semaTryDown _ | semaUp _ | exitFinish | idleBlock | timer => exact stays rfl

/-- Only the idle thread adds a unit to the semaphore of `thread_start`. -/
theorem semaAfter_idleStarted (unit : (semaAfter k e .idleStarted).value ≠ 0) :
    k.idleStarted.value ≠ 0 ∨ e = .idleUp := by
  by_contra none
  obtain ⟨zero, other⟩ := not_or.mp none
  have zero : k.idleStarted.value = 0 := not_not.mp zero
  have down : ∀ t, (k.idleStarted.down t).value = 0 := by simp [Semaphore.down, zero]
  cases e with
  | idleUp => exact other rfl
  | startDown => exact unit (down k.current)
  | semaRetry =>
    simp only [semaAfter, semaCall] at unit
    split at unit
    · rename_i s op called
      split at called
      · cases called
        split at unit
        · rename_i here
          subst here
          exact unit (down k.current)
        · exact unit zero
      · cases called
    · exact unit zero
  | semaDown n | semaTryDown n | semaUp n => exact unit zero
  | _ => exact unit zero

theorem Booting.opBody (h : Inv k) (boot : Booting k) (enabled : e.enabled k = true)
    (taken : Source.opBody k e = .ok outcome) : Booting outcome.kernel := by
  have initial := (opBody_current taken).2
  have code := opBody_code h enabled taken
  obtain ⟨alive, survive⟩ := opBody_live h enabled taken
  have before : outcome.kernel.Starting → k.Starting := by
    intro inside
    rw [Kernel.Starting, code, initial] at inside
    exact codeAfter_starting enabled inside
  have old : ∀ {p}, k.Live p → ∀ name, e.creates ≠ some (p, name) :=
    fun live _ => created_fresh h enabled taken live.1
  constructor
  · intro inside p live other
    have starting := before inside
    rw [initial] at other
    rw [code]
    rcases alive p live with was | ⟨_, name, creates⟩
    · exact (codeAfter_idles enabled (boot.current starting h.live) (old was)
        (boot.others starting p was other)).1
    · cases e with
      | startIdle q =>
        cases creates
        exact .inl (update_self _ _ _)
      | create q _ _ =>
        -- `main` is not in ordinary code yet, and neither is the idle thread.
        have user : k.code k.current = .user := of_decide_eq_true enabled
        rcases boot.current starting h.live with no | no | no | no <;>
          · rw [user] at no
            cases no
      | _ => cases creates
  · intro inside unit
    have starting := before inside
    have runs := boot.current starting h.live
    have kept : ∀ p, k.Live p → k.code p = .idleLoop →
        outcome.kernel.Live p ∧ outcome.kernel.code p = .idleLoop := by
      intro p live loop
      refine ⟨survive ?_ p live, ?_⟩
      · rintro rfl
        simp only [Event.enabled] at enabled
        split at enabled
        · rename_i exiting
          rcases runs with no | no | no | no <;>
            · rw [exiting] at no
              cases no
        · cases enabled
      · rw [code]
        exact (codeAfter_idles enabled runs (old live) (.inr (.inr loop))).2 loop
    have sema := opBody_sema taken (s := .idleStarted) (fun _ no => by cases no)
    have unit' : (semaAfter k e .idleStarted).value ≠ 0 := sema ▸ unit
    rcases semaAfter_idleStarted unit' with was | rfl
    · obtain ⟨p, live, loop⟩ := boot.unit starting was
      exact ⟨p, kept p live loop⟩
    · refine ⟨k.current, survive (fun no => by cases no) _ h.live, ?_⟩
      rw [code]
      exact update_self _ _ _

theorem Booting.schedule (boot : Booting k) (core : Core k)
    (taken : Source.schedule k = .ok after) : Booting after := by
  have switched := schedule_switched core taken
  have starting : after.Starting ↔ k.Starting := by
    rw [Kernel.Starting, Kernel.Starting, switched.code, switched.initialThread]
  have value : after.idleStarted = k.idleStarted := congrFun switched.sema .idleStarted
  constructor
  · intro inside p live other
    rw [switched.code]
    rw [switched.initialThread] at other
    exact boot.others (starting.mp inside) p ((switched.live p).mp live) other
  · intro inside unit
    rw [value] at unit
    obtain ⟨p, live, loop⟩ := boot.unit (starting.mp inside) unit
    exact ⟨p, (switched.live p).mpr live, by rw [switched.code, loop]⟩

theorem threadInit_booting {values : Nat → Nat} (booted : threadInit mode values = .ok k) :
    Booting k := by
  have start := threadInit_booted booted
  obtain ⟨made, effects, rfl⟩ := threadInit_effects booted
  constructor
  · intro _ p live other
    exact absurd ((start.live p live).trans start.initialThread.symm) other
  · intro _ unit
    exact absurd (congrArg Semaphore.value effects.idleStarted) unit

theorem reachable_booting (h : Reachable (kernelSystem mode) k) : Booting k := by
  refine h.invariant ?_ ?_
  · rintro s ⟨values, booted⟩
    exact threadInit_booting booted
  · intro s e after reached boot taken
    have inv := reachable_inv reached
    obtain ⟨enabled, body | ⟨ready, body, scheduled⟩⟩ := step_effects taken
    · exact boot.opBody inv enabled body
    · exact (boot.opBody inv enabled body).schedule (opBody_inv inv e enabled body).core scheduled

/-- `main` leaves `thread_start` by taking the unit of the idle thread. -/
theorem codeAfter_leaves (enabled : e.enabled k = true)
    (old : ∀ name, e.creates ≠ some (k.initialThread, name)) (inside : k.Starting)
    (outside : ¬ (codeAfter k e k.initialThread).starting = true) :
    k.current = k.initialThread ∧ k.idleStarted.value ≠ 0 ∧
      opBody k e = .ok (semaDown k .idleStarted) := by
  have stays : codeAfter k e k.initialThread ≠ k.code k.initialThread := by
    intro same
    exact outside (same ▸ inside)
  have other : ∀ {p : Page} {code : Code}, k.code p = code → code.starting = false →
      k.initialThread ≠ p := by
    rintro p code now no rfl
    rw [Kernel.Starting, now, no] at inside
    cases inside
  have takes : codeAfter k e = update k.code k.current (downCode k .idleStarted) →
      k.current = k.initialThread ∧ k.idleStarted.value ≠ 0 := by
    intro after
    have here : k.current = k.initialThread := by
      by_contra apart
      exact stays (by rw [after, update_of_ne (Ne.symm apart)])
    refine ⟨here, fun zero => outside ?_⟩
    have zero : (k.sema .idleStarted).value = 0 := zero
    rw [after, here, update_self, downCode, if_pos zero]
    rfl
  cases e with
  | startIdle q =>
    have early : k.code k.current = .start := of_decide_eq_true enabled
    have apart : k.initialThread ≠ q := by
      rintro rfl
      exact old idleName rfl
    refine absurd ?_ outside
    simp only [codeAfter, update_of_ne apart]
    by_cases here : k.initialThread = k.current
    · rw [here, update_self]
      rfl
    · rw [update_of_ne here]
      exact inside
  | startDown =>
    obtain ⟨here, unit⟩ := takes rfl
    exact ⟨here, unit, rfl⟩
  | semaRetry =>
    obtain ⟨s, down⟩ := retry_downing enabled
    have here : k.initialThread = k.current := by
      by_contra apart
      exact stays (by simp only [codeAfter, down, update_of_ne apart])
    have own : s = .idleStarted := by
      rw [Kernel.Starting, here, down] at inside
      cases s with
      | idleStarted => rfl
      | _ => cases inside
    subst own
    obtain ⟨_, unit⟩ := takes (by simp only [codeAfter, down])
    exact ⟨here.symm, unit, by simp only [opBody, down]⟩
  | unblock t =>
    have parked : k.code t = .parked := (of_decide_eq_true enabled).2.2
    exact absurd (update_of_ne (other parked rfl) _ _) stays
  | create q name priority =>
    cases q with
    | none => exact absurd rfl stays
    | some q =>
      have apart : k.initialThread ≠ q := by
        rintro rfl
        exact old _ rfl
      exact absurd (update_of_ne apart _ _) stays
  | sleep n =>
    have user : k.code k.current = .user := of_decide_eq_true enabled
    refine absurd ?_ stays
    simp only [codeAfter]
    split
    · rfl
    · exact update_of_ne (other user rfl) _ _
  | block | semaDown _ | exit =>
    have user : k.code k.current = .user := of_decide_eq_true enabled
    exact absurd (update_of_ne (other user rfl) _ _) stays
  | idleSet =>
    have entry : k.code k.current = .idleEntry := of_decide_eq_true enabled
    exact absurd (update_of_ne (other entry rfl) _ _) stays
  | idleUp =>
    have up : k.code k.current = .idleUp := of_decide_eq_true enabled
    exact absurd (update_of_ne (other up rfl) _ _) stays
  | semaTryDown _ | semaUp _ | yield | exitFinish | setPriority _ | setNice _ | idleBlock
  | timer => exact absurd rfl stays

/-- The ready list is empty when `main` returns from `thread_start`. -/
theorem starting_ends (h : Inv k) (boot : Booting k) (taken : step k e = .ok after)
    (inside : k.Starting) (outside : ¬ after.Starting) : after.readyList = [] := by
  obtain ⟨enabled, run⟩ := step_effects taken
  obtain ⟨outcome, body, finished⟩ : ∃ outcome, opBody k e = .ok outcome ∧
      outcome.finish = .ok after := by
    rcases run with body | ⟨ready, body, scheduled⟩
    · exact ⟨_, body, rfl⟩
    · exact ⟨_, body, scheduled⟩
  have left : ¬ outcome.kernel.Starting := by
    cases outcome with
    | returns done =>
      cases finished
      exact outside
    | schedules ready =>
      have switched := schedule_switched (opBody_inv h e enabled body).core finished
      rwa [Kernel.Starting, switched.code, switched.initialThread] at outside
  rw [Kernel.Starting, opBody_code h enabled body, (opBody_current body).2] at left
  obtain ⟨here, unit, down⟩ := codeAfter_leaves enabled (fun _ => created_fresh h enabled body
    (h.core.initial_allocated)) inside left
  have some : (k.sema .idleStarted).value ≠ 0 := unit
  rw [body, Except.ok.injEq, semaDown_pos some] at down
  subst down
  cases finished
  rw [Kernel.setCode, Kernel.upd_readyList, Kernel.setSema_readyList]
  -- Anybody on the list would be the idle thread, which is never there.
  refine eq_nil_iff_forall_not_mem.mpr fun p member => ?_
  obtain ⟨live, ready, notIdle⟩ := (h.core.threads p).ready.mp member
  have other : p ≠ k.initialThread := by
    rintro rfl
    rw [← here, h.running] at ready
    cases ready
  obtain ⟨q, idle, loop⟩ := boot.unit inside unit
  rcases boot.others inside p live other with entry | up | looping
  · have none := ((h.core.threads p).entry live entry).1
    rw [((h.core.threads q).idle.mpr ⟨idle, .inr loop⟩)] at none
    cases none
  · exact notIdle ((h.core.threads p).idle.mpr ⟨live, .inl up⟩)
  · exact notIdle ((h.core.threads p).idle.mpr ⟨live, .inr looping⟩)

/-- Nobody takes `idle_thread` away. -/
theorem opBody_idle (taken : opBody k e = .ok outcome) (set : k.idleThread ≠ none) :
    outcome.kernel.idleThread ≠ none := by
  rcases opBody_control taken with same | ⟨_, same⟩
  · rwa [same.idleThread]
  · rw [same.idleThread]
    exact Option.some_ne_none _

/-- `main` leaves `thread_start` after the idle thread has announced itself. -/
theorem opBody_idle_set (h : Inv k) (boot : Booting k) (before : ¬ k.Starting → k.idleThread ≠ none)
    (enabled : e.enabled k = true) (taken : opBody k e = .ok outcome)
    (outside : ¬ outcome.kernel.Starting) : outcome.kernel.idleThread ≠ none := by
  by_cases inside : k.Starting
  · rw [Kernel.Starting, opBody_code h enabled taken, (opBody_current taken).2] at outside
    obtain ⟨_, unit, _⟩ := codeAfter_leaves enabled (fun _ => created_fresh h enabled taken
      h.core.initial_allocated) inside outside
    obtain ⟨q, live, loop⟩ := boot.unit inside unit
    refine opBody_idle taken ?_
    rw [(h.core.threads q).idle.mpr ⟨live, .inr loop⟩]
    exact Option.some_ne_none q
  · exact opBody_idle taken (before inside)

/-- `idle_thread` is set when `main` returns from `thread_start`, and stays set. -/
theorem reachable_idle (h : Reachable (kernelSystem mode) k) :
    ¬ k.Starting → k.idleThread ≠ none := by
  refine h.invariant (P := fun k => ¬ k.Starting → k.idleThread ≠ none) ?_ ?_
  · rintro s ⟨values, booted⟩ outside
    rw [Kernel.Starting, threadInit_code booted,
      (threadInit_booted booted).initialThread] at outside
    exact absurd rfl outside
  · intro s e after reached before taken
    have inv := reachable_inv reached
    have boot := reachable_booting reached
    obtain ⟨enabled, body | ⟨ready, body, scheduled⟩⟩ := step_effects taken
    · exact opBody_idle_set inv boot before enabled body
    · have switched := schedule_switched (opBody_inv inv e enabled body).core scheduled
      rw [Kernel.Starting, switched.code, switched.initialThread, switched.idleThread]
      exact opBody_idle_set inv boot before enabled body

/-- A thread that exits is past `thread_start`. -/
theorem exiting_idle (h : Reachable (kernelSystem mode) k) {rep : Int} {seen : Nat}
    (exiting : k.code k.current = .exiting rep seen) : k.idleThread ≠ none := by
  refine reachable_idle h fun starting => ?_
  rcases (reachable_booting h).current starting (reachable_inv h).live with no | no | no | no <;>
    · rw [exiting] at no
      cases no

end
end Calendarizador.Source
