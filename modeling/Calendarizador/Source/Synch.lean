import Calendarizador.Foundation.Transition
import Calendarizador.Source.Kernel

/-!
# Synchronisation under any scheduling

`threads/synch.c` on its own: any number of threads, each at a point of its code, and no
assumption about which of them runs next. A section with interrupts off is one step, and
outside such sections every statement is a step. `SemaRun` is one semaphore; `Monitor` is
one lock with one condition variable, whose functions are made of the same sections.
-/
namespace Calendarizador.Source
open Foundation

/-- One evaluation of the loop condition of `sema_down` by `t`, with what follows it: the
entry into the list of waiters or the decrement. -/
def Semaphore.down (v : Semaphore) (t : Page) : Semaphore :=
  if v.value = 0 then { v with waiters := v.waiters ++ [t] } else { v with value := v.value - 1 }

def Semaphore.tryDown (v : Semaphore) : Semaphore :=
  if v.value > 0 then { v with value := v.value - 1 } else v

/-- `sema_up` without the `thread_unblock` of the first waiter. -/
def Semaphore.up (v : Semaphore) : Semaphore where
  value := (v.value + 1) % 4294967296
  waiters := v.waiters.tail

/-- Where a thread is with respect to a semaphore. -/
inductive SemaPc where
  | outside
  /-- Blocked in `sema_down`. -/
  | waiting
  /-- Popped from the waiters by a `sema_up`, and about to evaluate the condition again. -/
  | retesting
  deriving DecidableEq, Repr

structure SemaRun where
  sema : Semaphore
  pc : Page → SemaPc

/-- The sections of the three operations. Interrupt handlers make the last two as well. -/
inductive SemaEvent where
  | down (t : Page)
  | retest (t : Page)
  | tryDown
  | up
  deriving DecidableEq, Repr

def SemaRun.test (r : SemaRun) (t : Page) : SemaRun where
  sema := r.sema.down t
  pc := Function.update r.pc t (if r.sema.value = 0 then .waiting else .outside)

def SemaRun.up (r : SemaRun) : Except Fault SemaRun :=
  match r.sema.waiters with
  | [] => .ok { r with sema := r.sema.up }
  | t :: _ =>
    -- `thread_unblock` asserts that the thread is blocked.
    if r.pc t = .waiting then
      .ok { sema := r.sema.up, pc := Function.update r.pc t .retesting }
    else .error .assertion

def SemaRun.step (r : SemaRun) : SemaEvent → Except Fault SemaRun
  | .down t => if r.pc t = .outside then .ok (r.test t) else .error .disabled
  | .retest t => if r.pc t = .retesting then .ok (r.test t) else .error .disabled
  | .tryDown => .ok { r with sema := r.sema.tryDown }
  | .up => r.up

/-- A semaphore that `sema_init` gave the value `value`, and threads that have not used it. -/
def semaphoreSystem (value : Nat) : System SemaRun SemaEvent Fault where
  initial r := r = ⟨⟨value, []⟩, fun _ => .outside⟩
  step := SemaRun.step

/-- Who called `lock_acquire` or `lock_release`: ordinary code or `cond_wait`. -/
inductive LockCaller where
  | user | wait
  deriving DecidableEq, Repr

/-- Who called `cond_signal`: ordinary code or `cond_broadcast`. -/
inductive SignalCaller where
  | user | broadcast
  deriving DecidableEq, Repr

/-- The statement a thread is about to execute. -/
inductive MonitorPc where
  /-- Ordinary code, without the lock. -/
  | outside
  /-- Ordinary code between the return of an acquisition and the next call. -/
  | holding
  -- `lock_acquire`: the assertion, `sema_down`, the assignment to `holder`.
  | acquireAssert (c : LockCaller)
  | acquireDown (c : LockCaller)
  | acquireBlocked (c : LockCaller)
  | acquireRetest (c : LockCaller)
  | acquireHolder (c : LockCaller)
  -- `lock_try_acquire`.
  | tryAssert
  | tryDown
  | tryHolder
  -- `lock_release`.
  | releaseAssert (c : LockCaller)
  | releaseHolder (c : LockCaller)
  | releaseUp (c : LockCaller)
  -- `cond_wait`, which also goes through `lock_release` and `lock_acquire`.
  | waitAssert
  | waitInit
  | waitPush
  | waitDown
  | waitBlocked
  | waitRetest
  -- `cond_signal`; `signalUp` has popped the waiter `w`.
  | signalAssert (c : SignalCaller)
  | signalPop (c : SignalCaller)
  | signalUp (c : SignalCaller) (w : Page)
  -- `cond_broadcast`.
  | broadcastLoop
  deriving DecidableEq, Repr

/-- A `struct lock` and a `struct condition`. A thread has at most one `struct
semaphore_elem`, on its own stack, so the elements are named by their threads. -/
structure Monitor where
  lock : Semaphore
  holder : Option Page
  waiters : List Page
  signal : Page → Semaphore
  pc : Page → MonitorPc

inductive MonitorCall where
  | lockAcquire | lockTryAcquire | lockRelease | condWait | condSignal | condBroadcast
  deriving DecidableEq, Repr

/-- Where a caller that respects the preconditions is. -/
def MonitorCall.caller : MonitorCall → MonitorPc
  | .lockAcquire | .lockTryAcquire => .outside
  | .lockRelease | .condWait | .condSignal | .condBroadcast => .holding

def MonitorCall.entry : MonitorCall → MonitorPc
  | .lockAcquire => .acquireAssert .user
  | .lockTryAcquire => .tryAssert
  | .lockRelease => .releaseAssert .user
  | .condWait => .waitAssert
  | .condSignal => .signalAssert .user
  | .condBroadcast => .broadcastLoop

def LockCaller.released : LockCaller → MonitorPc
  | .user => .outside
  | .wait => .waitDown

def SignalCaller.signalled : SignalCaller → MonitorPc
  | .user => .holding
  | .broadcast => .broadcastLoop

/-- The point to which `thread_unblock` takes a thread blocked in `sema_down`. -/
def MonitorPc.unblocked : MonitorPc → Option MonitorPc
  | .acquireBlocked c => some (.acquireRetest c)
  | .waitBlocked => some .waitRetest
  | _ => none

namespace Monitor

def goto (m : Monitor) (t : Page) (pc : MonitorPc) : Monitor :=
  { m with pc := Function.update m.pc t pc }

/-- The `thread_unblock` that `sema_up` makes if somebody waits. -/
def unblockFirst (m : Monitor) (v : Semaphore) : Except Fault Monitor :=
  match v.waiters with
  | [] => .ok m
  | t :: _ =>
    match (m.pc t).unblocked with
    | some pc => .ok (m.goto t pc)
    | none => .error .assertion

def lockHeldByCurrentThread (m : Monitor) (t : Page) : Bool := m.holder = some t

def assertHeld (m : Monitor) (t : Page) (pc : MonitorPc) : Except Fault Monitor :=
  if m.lockHeldByCurrentThread t = true then .ok (m.goto t pc) else .error .assertion

def assertNotHeld (m : Monitor) (t : Page) (pc : MonitorPc) : Except Fault Monitor :=
  if m.lockHeldByCurrentThread t = true then .error .assertion else .ok (m.goto t pc)

/-- The condition of the loop of `sema_down` on the lock. -/
def lockDown (m : Monitor) (t : Page) (c : LockCaller) : Monitor :=
  { m with lock := m.lock.down t }.goto t
    (if m.lock.value = 0 then .acquireBlocked c else .acquireHolder c)

/-- The same for `sema_down` on the semaphore of the waiter's own element. -/
def waiterDown (m : Monitor) (t : Page) : Monitor :=
  { m with signal := Function.update m.signal t ((m.signal t).down t) }.goto t
    (if (m.signal t).value = 0 then .waitBlocked else .acquireAssert .wait)

/-- The next statement of the thread `t`. -/
def statement (m : Monitor) (t : Page) : Except Fault Monitor :=
  match m.pc t with
  | .outside | .holding | .acquireBlocked _ | .waitBlocked => .error .disabled
  | .acquireAssert c => m.assertNotHeld t (.acquireDown c)
  | .acquireDown c | .acquireRetest c => .ok (m.lockDown t c)
  | .acquireHolder _ => .ok ({ m with holder := some t }.goto t .holding)
  | .tryAssert => m.assertNotHeld t .tryDown
  | .tryDown => .ok ({ m with lock := m.lock.tryDown }.goto t
      (if m.lock.value > 0 then .tryHolder else .outside))
  | .tryHolder => .ok ({ m with holder := some t }.goto t .holding)
  | .releaseAssert c => m.assertHeld t (.releaseHolder c)
  | .releaseHolder c => .ok ({ m with holder := none }.goto t (.releaseUp c))
  | .releaseUp c =>
    (m.unblockFirst m.lock).map fun m => { m with lock := m.lock.up }.goto t c.released
  | .waitAssert => m.assertHeld t .waitInit
  | .waitInit =>
    .ok ({ m with signal := Function.update m.signal t ⟨0, []⟩ }.goto t .waitPush)
  | .waitPush => .ok ({ m with waiters := m.waiters ++ [t] }.goto t (.releaseAssert .wait))
  | .waitDown | .waitRetest => .ok (m.waiterDown t)
  | .signalAssert c => m.assertHeld t (.signalPop c)
  | .signalPop c =>
    match m.waiters with
    | [] => .ok (m.goto t c.signalled)
    | w :: rest => .ok ({ m with waiters := rest }.goto t (.signalUp c w))
  | .signalUp c w =>
    (m.unblockFirst (m.signal w)).map fun m =>
      { m with signal := Function.update m.signal w (m.signal w).up }.goto t c.signalled
  | .broadcastLoop =>
    if m.waiters = [] then .ok (m.goto t .holding) else .ok (m.goto t (.signalAssert .broadcast))

end Monitor

inductive MonitorEvent where
  | call (t : Page) (op : MonitorCall)
  | run (t : Page)
  deriving DecidableEq, Repr

/-- A call respects the preconditions the function asserts: only a thread whose acquisition
returned releases, waits or signals, and only one without the lock acquires it. -/
def Monitor.step (m : Monitor) : MonitorEvent → Except Fault Monitor
  | .call t op => if m.pc t = op.caller then .ok (m.goto t op.entry) else .error .disabled
  | .run t => m.statement t

/-- `lock_init` and `cond_init`; no thread has called anything yet. -/
def Monitor.init : Monitor where
  lock := ⟨1, []⟩
  holder := none
  waiters := []
  signal := fun _ => ⟨0, []⟩
  pc := fun _ => .outside

def monitorSystem : System Monitor MonitorEvent Fault where
  initial m := m = .init
  step := Monitor.step

end Calendarizador.Source
