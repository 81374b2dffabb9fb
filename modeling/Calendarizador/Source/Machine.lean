import Calendarizador.Foundation.History
import Calendarizador.Source.Timer

/-!
# The kernel as a transition system

An event is one section of kernel code that runs with interrupts off, or one call from
the thread that runs. `opBody` says what each event does up to its `schedule` call and
at which `Code` it may happen; `step` adds the call. Ups and unblocks are also made by
device interrupt handlers, so they may happen wherever the processor takes interrupts.
-/
namespace Calendarizador.Source
open Foundation
variable {k : Kernel}

inductive Event where
  /-- `thread_start` creates the idle thread on page `p`. -/
  | startIdle (p : Page)
  /-- `thread_start` downs `idle_started`. -/
  | startDown
  /-- `thread_create` up to `thread_unblock`; `none` if no page is free. -/
  | create (p : Option Page) (name : Name) (priority : Int)
  | unblock (t : Page)
  | block
  | semaDown (n : Nat)
  | semaTryDown (n : Nat)
  | semaUp (n : Nat)
  /-- A thread dispatched inside `sema_down` tests the value again. -/
  | semaRetry
  | sleep (ticks : Int)
  | yield
  /-- `thread_exit` reads `repeat`. -/
  | exit
  /-- `thread_exit` from `intr_disable` on. -/
  | exitFinish
  | setPriority (priority : Int)
  | setNice (nice : Int)
  /-- `idle` stores `idle_thread`. -/
  | idleSet
  | idleUp
  | idleBlock
  | timer

/-- The event is the next action of the running thread, or an interrupt it can take. `unblock`
is for parked threads only, those that are new or have called `thread_block` themselves; whoever
waits for a semaphore is unblocked by `semaUp`. -/
def Event.enabled (k : Kernel) : Event → Bool
  | .startIdle _ => k.code k.current = .start
  | .startDown => k.code k.current = .startWait
  | .create _ _ _ | .block | .semaDown _ | .sleep _ | .yield | .exit | .setPriority _
  | .setNice _ => k.code k.current = .user
  | .unblock t => (k.code k.current).interruptible ∧ k.allocated t ∧ k.code t = .parked
  | .semaTryDown _ | .semaUp _ | .timer => (k.code k.current).interruptible
  | .semaRetry => match k.code k.current with | .downing _ => true | _ => false
  | .exitFinish => match k.code k.current with | .exiting _ _ => true | _ => false
  | .idleSet => k.code k.current = .idleEntry
  | .idleUp => k.code k.current = .idleUp
  | .idleBlock => k.code k.current = .idleLoop

/-- What an enabled event does, up to the call of `schedule`. -/
def opBody (k : Kernel) : Event → Except Fault Outcome
  | .startIdle p => do
    let k ← threadAllocate (k.setCode k.current .startWait) p idleName priMin
    let k ← threadUnblock k p
    .ok (.returns (k.setCode p .idleEntry))
  | .startDown => .ok (semaDown k .idleStarted)
  | .create none _ _ => .ok (.returns k)
  | .create (some p) name priority => (threadAllocate k p name priority).map .returns
  | .unblock t => do
    let k ← threadUnblock k t
    .ok (.returns (k.setCode t .user))
  | .block => .ok (threadBlock (k.setCode k.current .parked))
  | .semaDown n => .ok (semaDown k (.user n))
  | .semaTryDown n => .ok (.returns (semaTryDown k (.user n)))
  | .semaUp n => (semaUp k (.user n)).map .returns
  | .semaRetry =>
    match k.code k.current with
    | .downing s => .ok (semaDown k s)
    | _ => .error .disabled
  | .sleep ticks => .ok (timerSleep k ticks)
  | .yield => .ok (threadYield k)
  | .exit =>
    let t := k.thread k.current
    .ok (.returns (k.setCode k.current (.exiting t.repeats t.dispatches)))
  | .exitFinish =>
    match k.code k.current with
    | .exiting rep _ => threadExit k rep
    | _ => .error .disabled
  | .setPriority priority => .ok (.returns (threadSetPriority k priority))
  | .setNice nice => .ok (.returns (threadSetNice k nice))
  | .idleSet => .ok (.returns ({ k with idleThread := some k.current }.setCode k.current .idleUp))
  | .idleUp => do
    let k ← semaUp k .idleStarted
    .ok (.returns (k.setCode k.current .idleLoop))
  | .idleBlock => .ok (threadBlock k)
  | .timer => intrHandler k

def Outcome.finish : Outcome → Except Fault Kernel
  | .returns k => .ok k
  | .schedules k => schedule k

def step (k : Kernel) (e : Event) : Except Fault Kernel :=
  if e.enabled k = true then do
    let outcome ← opBody k e
    outcome.finish
  else .error .disabled

/-- A step is the body of an enabled event, and `schedule` if the body calls it. -/
theorem step_effects {after : Kernel} {e : Event} (taken : step k e = .ok after) :
    e.enabled k = true ∧ (opBody k e = .ok (.returns after) ∨
      ∃ ready, opBody k e = .ok (.schedules ready) ∧ schedule ready = .ok after) := by
  unfold step at taken
  split at taken
  · rename_i enabled
    rw [bind_eq_ok] at taken
    obtain ⟨outcome, body, finished⟩ := taken
    cases outcome with
    | returns done =>
      cases finished
      exact ⟨enabled, .inl body⟩
    | schedules ready => exact ⟨enabled, .inr ⟨ready, body, finished⟩⟩
  · cases taken

/-- The ways in which the body of an event can succeed. -/
inductive Performs (k : Kernel) : Event → Outcome → Prop where
  | startIdle {p : Page} {created unblocked : Kernel}
      (allocates : threadAllocate (k.setCode k.current .startWait) p idleName priMin = .ok created)
      (unblocks : threadUnblock created p = .ok unblocked) :
      Performs k (.startIdle p) (.returns (unblocked.setCode p .idleEntry))
  | startDown : Performs k .startDown (semaDown k .idleStarted)
  | noPage {name : Name} {priority : Int} : Performs k (.create none name priority) (.returns k)
  | create {p : Page} {name : Name} {priority : Int} {created : Kernel}
      (allocates : threadAllocate k p name priority = .ok created) :
      Performs k (.create (some p) name priority) (.returns created)
  | unblock {t : Page} {unblocked : Kernel} (unblocks : threadUnblock k t = .ok unblocked) :
      Performs k (.unblock t) (.returns (unblocked.setCode t .user))
  | block : Performs k .block (threadBlock (k.setCode k.current .parked))
  | semaDown (n : Nat) : Performs k (.semaDown n) (semaDown k (.user n))
  | semaTryDown (n : Nat) : Performs k (.semaTryDown n) (.returns (semaTryDown k (.user n)))
  | semaUp {n : Nat} {upped : Kernel} (ups : semaUp k (.user n) = .ok upped) :
      Performs k (.semaUp n) (.returns upped)
  | semaRetry {s : SemaId} (place : k.code k.current = .downing s) :
      Performs k .semaRetry (semaDown k s)
  | noSleep {n : Int} (negative : n < 0) : Performs k (.sleep n) (.returns k)
  | sleep {n : Int} (nonneg : 0 ≤ n) :
      Performs k (.sleep n) (semaDown (enterWaitList k n) (.timer k.current))
  | yield : Performs k .yield (threadYield k)
  | exit : Performs k .exit (.returns (k.setCode k.current
      (.exiting (k.thread k.current).repeats (k.thread k.current).dispatches)))
  | exitFinish {rep : Int} {seen : Nat} {outcome : Outcome}
      (place : k.code k.current = .exiting rep seen) (exits : threadExit k rep = .ok outcome) :
      Performs k .exitFinish outcome
  | setPriority (priority : Int) :
      Performs k (.setPriority priority) (.returns (threadSetPriority k priority))
  | setNice (nice : Int) : Performs k (.setNice nice) (.returns (threadSetNice k nice))
  | idleSet : Performs k .idleSet
      (.returns ({ k with idleThread := some k.current }.setCode k.current .idleUp))
  | idleUp {upped : Kernel} (ups : semaUp k .idleStarted = .ok upped) :
      Performs k .idleUp (.returns (upped.setCode upped.current .idleLoop))
  | idleBlock : Performs k .idleBlock (threadBlock k)
  | timer {outcome : Outcome} (handles : intrHandler k = .ok outcome) :
      Performs k .timer outcome

theorem opBody_performs {e : Event} {outcome : Outcome} (taken : opBody k e = .ok outcome) :
    Performs k e outcome := by
  cases e with
  | startIdle p =>
    obtain ⟨created, allocates, taken⟩ := bind_eq_ok.mp taken
    obtain ⟨unblocked, unblocks, ⟨⟩⟩ := bind_eq_ok.mp taken
    exact .startIdle allocates unblocks
  | startDown =>
    cases taken
    exact .startDown
  | create p name priority =>
    cases p with
    | none =>
      cases taken
      exact .noPage
    | some p =>
      obtain ⟨created, allocates, rfl⟩ := map_eq_ok.mp taken
      exact .create allocates
  | unblock t =>
    obtain ⟨unblocked, unblocks, ⟨⟩⟩ := bind_eq_ok.mp taken
    exact .unblock unblocks
  | block =>
    cases taken
    exact .block
  | semaDown n =>
    cases taken
    exact .semaDown n
  | semaTryDown n =>
    cases taken
    exact .semaTryDown n
  | semaUp n =>
    obtain ⟨upped, ups, rfl⟩ := map_eq_ok.mp taken
    exact .semaUp ups
  | semaRetry =>
    simp only [opBody] at taken
    split at taken
    · rename_i s place
      cases taken
      exact .semaRetry place
    · cases taken
  | sleep n =>
    simp only [opBody, Except.ok.injEq, timerSleep] at taken
    split at taken
    · rename_i negative
      subst taken
      exact .noSleep negative
    · rename_i nonneg
      subst taken
      exact .sleep (not_lt.mp nonneg)
  | yield =>
    cases taken
    exact .yield
  | exit =>
    cases taken
    exact .exit
  | exitFinish =>
    simp only [opBody] at taken
    split at taken
    · rename_i rep seen place
      exact .exitFinish place taken
    · cases taken
  | setPriority priority =>
    cases taken
    exact .setPriority priority
  | setNice nice =>
    cases taken
    exact .setNice nice
  | idleSet =>
    cases taken
    exact .idleSet
  | idleUp =>
    obtain ⟨upped, ups, ⟨⟩⟩ := bind_eq_ok.mp taken
    exact .idleUp ups
  | idleBlock =>
    cases taken
    exact .idleBlock
  | timer => exact .timer taken

/-- The state before `thread_init`: no thread yet, every semaphore initialised. -/
def blankKernel (mode : Mode) (values : Nat → Nat) : Kernel where
  mode := mode
  thread := fun _ => Thread.zero
  allocated := fun p => p = 0
  readyList := []
  allList := []
  allAllList := []
  waitList := []
  idleStarted := ⟨0, []⟩
  userSema := fun n => ⟨values n, []⟩
  current := 0
  idleThread := none
  initialThread := 0
  ticks := 0
  threadTicks := 0
  loadAvg := 0
  idleTicks := 0
  kernelTicks := 0
  totalWaitTime := 0
  totalReadyThreads := 0
  threadsPrint := true
  yieldOnReturn := false

/-- `thread_init`: the running code becomes the thread `main`. -/
def threadInit (mode : Mode) (values : Nat → Nat) : Except Fault Kernel := do
  let k ← initThread (blankKernel mode values) 0 mainName 0
  .ok (k.upd 0 fun t => { t with status := .running, frame := .onCpu, code := .start })

/-- The kernel in one mode, from any initial values of the ordinary semaphores. -/
def kernelSystem (mode : Mode) : System Kernel Event Fault where
  initial k := ∃ values, threadInit mode values = .ok k
  step := step

/-- The state after `thread_init` and a list of events, with all semaphores at zero. -/
def execute (mode : Mode) (events : List Event) : Except Fault Kernel := do
  let k ← threadInit mode fun _ => 0
  run (kernelSystem mode) k events

theorem execute_reachable {mode : Mode} {events : List Event}
    (executed : execute mode events = .ok k) : Reachable (kernelSystem mode) k := by
  unfold execute at executed
  rw [bind_eq_ok] at executed
  obtain ⟨start, booted, ran⟩ := executed
  have first : Reachable (kernelSystem mode) start := .initial ⟨_, booted⟩
  exact first.run events ran

/-- What is found after a run holds in a reachable state. -/
theorem execute_holds (mode : Mode) (events : List Event) {P : Kernel → Prop}
    (found : ∃ k ∈ (execute mode events).toOption, P k) :
    ∃ k, Reachable (kernelSystem mode) k ∧ P k := by
  obtain ⟨k, ran, holds⟩ := found
  exact ⟨k, execute_reachable (toOption_eq_some ran), holds⟩

/-- The same for runs whose steps are all allowed. -/
theorem executeWhile_holds (mode : Mode) (allowed : Kernel → Event → Prop)
    [∀ s e, Decidable (allowed s e)] (events : List Event) {P : Kernel → Prop}
    (found : ∃ start ∈ (threadInit mode fun _ => 0).toOption,
      ∃ k ∈ runWhile (kernelSystem mode) allowed start events, P k) :
    ∃ k, ReachableWhile (kernelSystem mode) allowed k ∧ P k := by
  obtain ⟨start, booted, found⟩ := found
  exact runWhile_holds (kernelSystem mode) allowed start ⟨_, toOption_eq_some booted⟩ events found

/-- The same with a record of the run. -/
def executeRecording {History : Type} (mode : Mode) (empty : History)
    (record : Kernel → Event → Kernel → History → History) (events : List Event) :
    Except Fault (Kernel × History) := do
  let k ← threadInit mode fun _ => 0
  run ((kernelSystem mode).recording empty record) (k, empty) events

theorem executeRecording_reachable {History : Type} {mode : Mode} {empty : History}
    {record : Kernel → Event → Kernel → History → History} {events : List Event}
    {s : Kernel × History} (executed : executeRecording mode empty record events = .ok s) :
    Reachable ((kernelSystem mode).recording empty record) s := by
  obtain ⟨start, booted, ran⟩ := bind_eq_ok.mp executed
  have first : Reachable ((kernelSystem mode).recording empty record) (start, empty) :=
    .initial ⟨⟨_, booted⟩, rfl⟩
  exact first.run events ran

theorem executeRecording_holds {History : Type} (mode : Mode) (empty : History)
    (record : Kernel → Event → Kernel → History → History) (events : List Event)
    {P : Kernel × History → Prop}
    (found : ∃ s ∈ (executeRecording mode empty record events).toOption, P s) :
    ∃ s, Reachable ((kernelSystem mode).recording empty record) s ∧ P s := by
  obtain ⟨s, ran, holds⟩ := found
  exact ⟨s, executeRecording_reachable (toOption_eq_some ran), holds⟩

/-- The steps of `thread_start`, with the idle thread on page 1. -/
def threadStart : List Event :=
  [.startIdle 1, .startDown, .idleSet, .idleUp, .idleBlock, .semaRetry]

end Calendarizador.Source
