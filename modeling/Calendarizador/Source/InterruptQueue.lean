import Calendarizador.Source.Synch

/-!
# The interrupt queue

`devices/intq.c`: a circular buffer shared by threads and interrupt handlers. The functions
are called with interrupts off, so a thread runs in them without interruption until it
blocks, in `wait` or in the `sema_down` of `lock_acquire`. A step is one such section: from
a call or a wake-up to the next block or the return. Which thread runs next is left open.
-/
namespace Calendarizador.Source
open Foundation

/-- The two members of `struct intq` whose address is passed as `waiter`. -/
inductive IntqCondition where
  | notFull | notEmpty
  deriving DecidableEq

inductive IntqCall where
  | getc
  | putc (byte : UInt8)
  deriving DecidableEq

/-- The condition a call waits for. -/
def IntqCall.awaits : IntqCall → IntqCondition
  | .getc => .notEmpty
  | .putc _ => .notFull

/-- The condition a call makes true. -/
def IntqCall.signals : IntqCall → IntqCondition
  | .getc => .notFull
  | .putc _ => .notEmpty

/-- Where a thread is. -/
inductive IntqPc where
  /-- Outside the functions, or running in them. -/
  | running
  /-- Blocked in `lock_acquire`. -/
  | acquiring (call : IntqCall)
  /-- Popped from the waiters of the lock, and about to test its value again. -/
  | retesting (call : IntqCall)
  /-- Blocked in `wait`. -/
  | waiting (call : IntqCall)
  /-- Unblocked by `signal`. -/
  | woken (call : IntqCall)
  deriving DecidableEq

/-- `struct intq`, and what the calls of `intq_getc` returned. -/
structure Intq where
  lock : Semaphore
  holder : Option Page
  /-- `not_full` and `not_empty` -/
  waiter : IntqCondition → Option Page
  buf : Nat → UInt8
  head : Nat
  tail : Nat
  pc : Page → IntqPc
  returned : Page → List UInt8

/-- `INTQ_BUFSIZE` -/
def intqBufsize : Nat := 64

inductive IntqEvent where
  /-- A thread calls one of the functions. -/
  | call (t : Page) (c : IntqCall)
  /-- A thread that was unblocked is scheduled. -/
  | resume (t : Page)
  /-- An interrupt handler calls one of the functions. -/
  | interrupt (c : IntqCall)

namespace Intq

/-- The position after `pos`. -/
def next (pos : Nat) : Nat := (pos + 1) % intqBufsize

def empty (q : Intq) : Bool := q.head = q.tail

def full (q : Intq) : Bool := next q.head = q.tail

/-- The condition that a waiter is waiting for is true. -/
def met (q : Intq) : IntqCondition → Bool
  | .notFull => !q.full
  | .notEmpty => !q.empty

@[simps] def goto (q : Intq) (t : Page) (c : IntqPc) : Intq :=
  { q with pc := Function.update q.pc t c }

@[simps] def setWaiter (q : Intq) (condition : IntqCondition) (t : Option Page) : Intq :=
  { q with waiter := Function.update q.waiter condition t }

/-- `thread_unblock` asserts that the thread is blocked. -/
def unblock (q : Intq) (t : Page) : Except Fault Intq :=
  match q.pc t with
  | .acquiring c => .ok (q.goto t (.retesting c))
  | .waiting c => .ok (q.goto t (.woken c))
  | _ => .error .assertion

/-- `wait` asserts that the condition is false. -/
def wait (q : Intq) (t : Page) (c : IntqCall) : Except Fault Intq :=
  if q.met c.awaits then .error .assertion
  else .ok ((q.setWaiter c.awaits (some t)).goto t (.waiting c))

/-- `signal` asserts that the condition is true. -/
def signal (q : Intq) (condition : IntqCondition) : Except Fault Intq :=
  if q.met condition then
    match q.waiter condition with
    | none => .ok q
    | some t => (q.unblock t).map fun q => q.setWaiter condition none
  else .error .assertion

/-- The queue after a byte has been moved. -/
def move (q : Intq) : IntqCall → Intq
  | .getc => { q with tail := next q.tail }
  | .putc byte => { q with buf := Function.update q.buf q.head byte, head := next q.head }

/-- The part of the functions after the loop. -/
def transfer (q : Intq) (c : IntqCall) : Except Fault Intq := (q.move c).signal c.signals

/-- The rest of `lock_acquire` once the value of the lock is positive. -/
@[simps] def takeLock (q : Intq) (t : Page) : Intq :=
  { q with lock := q.lock.down t, holder := some t }

/-- The loop of `sema_down` in `lock_acquire` from its condition on, and the `wait` that
follows once the lock is taken. -/
def lockDown (q : Intq) (t : Page) (c : IntqCall) : Except Fault Intq :=
  if q.lock.value = 0 then .ok ({ q with lock := q.lock.down t }.goto t (.acquiring c))
  else (q.takeLock t).wait t c

/-- `lock_acquire`, which asserts that the thread does not hold the lock. -/
def lockAcquire (q : Intq) (t : Page) (c : IntqCall) : Except Fault Intq :=
  if q.holder = some t then .error .assertion else q.lockDown t c

/-- A round of the loop, and the rest of the function once the condition is false. -/
def loop (q : Intq) (t : Page) (c : IntqCall) : Except Fault Intq :=
  if q.met c.awaits then (q.transfer c).map fun after =>
    match c with
    | .getc => { after with
        returned := Function.update after.returned t (after.returned t ++ [q.buf q.tail]) }
    | .putc _ => after
  else q.lockAcquire t c

/-- `lock_release` without the `thread_unblock` of the first waiter. -/
@[simps] def freeLock (q : Intq) : Intq := { q with holder := none, lock := q.lock.up }

def lockRelease (q : Intq) (t : Page) : Except Fault Intq :=
  if q.holder = some t then
    match q.lock.waiters with
    | [] => .ok q.freeLock
    | w :: _ => q.freeLock.unblock w
  else .error .assertion

/-- Handlers call `intq_putc` only if the queue is not full and `intq_getc` only if it is not
empty. -/
def step (q : Intq) : IntqEvent → Except Fault Intq
  | .call t c => if q.pc t = .running then q.loop t c else .error .disabled
  | .resume t =>
    match q.pc t with
    | .retesting c => (q.goto t .running).lockDown t c
    | .woken c => do
      let q ← (q.goto t .running).lockRelease t
      q.loop t c
    | _ => .error .disabled
  | .interrupt c => if q.met c.awaits then q.transfer c else .error .disabled

end Intq

/-- After `intq_init`. -/
def Intq.init : Intq where
  lock := ⟨1, []⟩
  holder := none
  waiter := fun _ => none
  buf := fun _ => 0
  head := 0
  tail := 0
  pc := fun _ => .running
  returned := fun _ => []

def intqSystem : System Intq IntqEvent Fault where
  initial q := q = Intq.init
  step := Intq.step

end Calendarizador.Source
