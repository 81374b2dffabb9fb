import Calendarizador.Source.Scheduler

/-!
# Semaphores and the timer

`threads/synch.c` for semaphores, `thread_tick` of `threads/thread.c`, and the sleep
queue and interrupt handler of `devices/timer.c`. The timer interrupt runs with
interrupts off from its first instruction to the yield that `intr_handler` may make on
return.
-/
namespace Calendarizador.Source
open Foundation

/-- One evaluation of the loop condition of `sema_down`: the running thread waits while
the value is zero and otherwise takes a unit and goes on. -/
def semaDown (k : Kernel) (s : SemaId) : Outcome :=
  if (k.sema s).value = 0 then
    let k := k.setSema s { k.sema s with waiters := (k.sema s).waiters ++ [k.current] }
    threadBlock (k.setCode k.current (.downing s))
  else
    let k := k.setSema s { k.sema s with value := (k.sema s).value - 1 }
    .returns (k.setCode k.current .user)

def semaTryDown (k : Kernel) (s : SemaId) : Kernel :=
  if (k.sema s).value > 0 then k.setSema s { k.sema s with value := (k.sema s).value - 1 } else k

/-- The part of `sema_up` that wakes the first waiter, if there is one. -/
def wakeFirst (k : Kernel) (s : SemaId) : Except Fault Kernel :=
  match (k.sema s).waiters with
  | [] => .ok k
  | t :: rest => threadUnblock (k.setSema s { k.sema s with waiters := rest }) t

def semaUp (k : Kernel) (s : SemaId) : Except Fault Kernel := do
  let k ← wakeFirst k s
  .ok (k.setSema s { k.sema s with value := ((k.sema s).value + 1) % 4294967296 })

/-- The running thread is charged one tick of CPU. -/
def chargeRunning (k : Kernel) : Kernel :=
  k.upd k.current fun t => t.setRecentCpu
    (if t.status = .running then addInt t.recentCpu 1 else t.recentCpu)

/-- Averages are refreshed once a second, priorities every fourth second. -/
def refreshAverages (k : Kernel) : Except Fault Kernel :=
  if k.ticks % timerFreq = 0 then threadForeach (refreshLoadAvg k) refreshCpu else .ok k

def recalculatePriorities (k : Kernel) : Kernel :=
  if k.ticks % (timerFreq * 4) = 0 then sortReadyByPriority (refreshPriority k) else k

/-- Counts the tick and asks for a yield if the quantum is used up and `next` is at
least as important as the running thread. -/
def decideYield (k : Kernel) (next : Page) : Kernel :=
  let used := (k.threadTicks + 1) % 4294967296
  let asks : Bool :=
    used ≥ quantum ∧ (k.thread k.current).priority ≤ (k.thread next).priority
  { k with
    threadTicks := used
    yieldOnReturn := if asks then true else k.yieldOnReturn
    readyList := if asks then listSort (priorityCmp k) k.readyList else k.readyList }

/-- The multilevel-queue part of `thread_tick`. The front of the list is read before
priorities are recomputed and the list is sorted. -/
def mlfqsTick (k : Kernel) : Except Fault Kernel :=
  match k.readyList with
  | [] => .ok k
  | next :: _ => do
    let k ← refreshAverages k
    .ok (decideYield (recalculatePriorities (chargeRunning k)) next)

def roundRobinTick (k : Kernel) : Kernel :=
  let charged := i32 ((k.thread k.current).ticks + 1)
  { k.upd k.current (Thread.setTicks (if charged ≥ quantum then 0 else charged)) with
    yieldOnReturn := if charged ≥ quantum then true else k.yieldOnReturn }

def sjfTick (k : Kernel) : Kernel :=
  k.upd k.current fun t => t.setCurrExec (i32 (t.currExec + 1))

/-- Ticks of the idle and the initial thread count as idle time. -/
def countTick (k : Kernel) : Kernel :=
  let special : Bool := k.idleThread = some k.current ∨ k.current = k.initialThread
  { k with
    idleTicks := if special then k.idleTicks + 1 else k.idleTicks
    kernelTicks := if special then k.kernelTicks else k.kernelTicks + 1 }

def threadTick (k : Kernel) : Except Fault Kernel :=
  match k.mode with
  | .sjf => .ok (sjfTick (countTick k))
  | .roundrobin => .ok (roundRobinTick (countTick k))
  | .mlfqs => mlfqsTick (countTick k)
  | .fcfs => .ok (countTick k)

/-- The loop of `timer_interrupt` over the front of `wait_list`. -/
def wakeSleepers : List Page → Kernel → Except Fault Kernel
  | [], k => .ok k
  | t :: rest, k =>
    if k.ticks < (k.thread t).wakeupTime then .ok k
    else do
      let k ← semaUp k (.timer t)
      wakeSleepers rest { k with waitList := rest }

def timerInterrupt (k : Kernel) : Except Fault Kernel := do
  let k ← threadTick { k with ticks := k.ticks + 1 }
  wakeSleepers k.waitList k

/-- `intr_handler` for the timer vector. -/
def intrHandler (k : Kernel) : Except Fault Outcome := do
  let k ← timerInterrupt { k with yieldOnReturn := false }
  .ok (if k.yieldOnReturn = true then threadYield k else .returns k)

/-- The running thread stores its wake-up time and enters the sleep queue. -/
def enterWaitList (k : Kernel) (ticks : Int) : Kernel :=
  let k := k.upd k.current (Thread.setWakeupTime (i64 (k.ticks + ticks)))
  { k with waitList := listInsertOrdered (wakeupCmp k) k.current k.waitList }

/-- `timer_sleep` as one step up to the block in its `sema_down`. -/
def timerSleep (k : Kernel) (ticks : Int) : Outcome :=
  if ticks < 0 then .returns k else semaDown (enterWaitList k ticks) (.timer k.current)

end Calendarizador.Source
