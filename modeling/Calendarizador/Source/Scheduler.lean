import Calendarizador.Source.Policy

/-!
# Dispatching, creation and exit

`threads/thread.c`: the thread that `schedule` picks, the switch to it, and the
operations that end in a call to `schedule`. In each of these operations `schedule` is
the last call that touches kernel data, so an operation is split at that call: its body
either `returns` or `schedules`, and `schedule` itself is one function.
-/
namespace Calendarizador.Source
open Foundation

/-- The body of an operation up to its `schedule` call, if it makes one. -/
inductive Outcome where
  | returns (k : Kernel)
  | schedules (k : Kernel)

/-- The front of the ready list, or `idle_thread`, which is null during boot. -/
def nextThreadToRun (k : Kernel) : Option Page × Kernel :=
  match k.readyList with
  | [] => (k.idleThread, k)
  | t :: rest => (some t, { k with readyList := rest })

def pallocGetPage (k : Kernel) (p : Page) : Kernel :=
  { k with allocated := Function.update k.allocated p true }

/-- `prev` is null unless a switch took place, so it is never the running thread. The
page of a dead thread is freed, except that of `initial_thread` and except under SJF. -/
def threadScheduleTail (k : Kernel) (prev : Option Page) : Kernel :=
  let k := k.upd k.current (Thread.beginSlice k.ticks)
  { k with
    threadTicks := 0
    allocated := match prev with
      | none => k.allocated
      | some p =>
        if k.status p = .dying ∧ p ≠ k.initialThread ∧ k.mode ≠ .sjf then
          Function.update k.allocated p false
        else k.allocated }

/-- The rest of `schedule` in the frame of the thread that now runs; `next` is the
variable of that frame, so it is the thread this one once switched to. -/
def scheduleReturn (k : Kernel) (next : Page) : Kernel :=
  let first : Bool := k.idleThread ≠ some next ∧ next ≠ k.initialThread ∧ k.threadsPrint = true
  { k.upd k.current Thread.countRepeat with
    totalReadyThreads := if first then i32 k.readyList.length else k.totalReadyThreads
    threadsPrint := if first then false else k.threadsPrint }

/-- Puts `next` on the CPU and counts the dispatch. -/
def switchTo (k : Kernel) (next : Page) : Kernel :=
  { (k.upd k.current (Thread.leaveCpu next)).upd next Thread.enterCpu with current := next }

/-- The `next` of the `schedule` call that `next` returns into: its own if it is already
running, the remembered one if it was switched out before, and none if its stack holds
the `switch_entry` frame. -/
def resumedCall (k : Kernel) (next : Page) : Option Page :=
  if k.current = next then some next
  else match (k.thread next).frame with
    | .schedule remembered => some remembered
    | _ => none

/-- The switch to `next` and what runs after it: `thread_schedule_tail`, and for a thread
that returns into a `schedule` call the rest of that call. -/
def dispatch (k : Kernel) (next : Page) : Kernel :=
  let switched := threadScheduleTail (switchTo k next)
    (if k.current = next then none else some k.current)
  match resumedCall k next with
  | some remembered => scheduleReturn switched remembered
  | none => switched

def schedule (k : Kernel) : Except Fault Kernel :=
  match nextThreadToRun k with
  | (none, _) => .error .assertion
  | (some next, k) =>
    if k.status k.current = .running then .error .assertion else .ok (dispatch k next)

/-- Stamps the start of a wait, except for the two special threads. -/
def stampWait (k : Kernel) (t : Page) : Kernel :=
  k.upd t fun s => s.setRecentWait
    (if k.idleThread ≠ some t ∧ t ≠ k.initialThread then i32 k.ticks else s.recentWait)

def threadUnblock (k : Kernel) (t : Page) : Except Fault Kernel :=
  if (stampWait k t).status t = .blocked then
    .ok { (stampWait k t).setStatus t .ready with readyList := k.readyList ++ [t] }
  else .error .assertion

def threadBlock (k : Kernel) : Outcome := .schedules (k.setStatus k.current .blocked)

def threadYield (k : Kernel) : Outcome :=
  .schedules { (stampWait k k.current).setStatus k.current .ready with
    readyList := if k.idleThread ≠ some k.current then k.readyList ++ [k.current]
      else k.readyList }

/-- A `struct thread` after `memset` and before its first dispatch. -/
def Thread.zero : Thread where
  status := .running
  name := []
  recentWait := 0
  totalWait := 0
  repeats := 0
  prio := ⟨List.replicate 10 0, []⟩
  pos := 0
  ticks := 0
  currExec := 0
  totalExec := 0
  priority := 0
  nice := 0
  recentCpu := 0
  wakeupTime := 0
  timerSema := ⟨0, []⟩
  frame := .entry
  code := .parked
  dispatches := 0

def idleName : Name := ['i', 'd', 'l', 'e']

def mainName : Name := ['m', 'a', 'i', 'n']

/-- A new blocked thread; fields not named keep the zero `memset` gave them. -/
def blankThread (name : Name) (priority : Int) : Thread :=
  { Thread.zero with status := .blocked, name := name.take 15, priority := priority }

/-- The first entry of the history of priorities, except for two names. -/
@[simps] def Thread.setFirstPrio (name : Name) (priority : Int) (t : Thread) : Thread :=
  { t with prio := if name ≠ idleName ∧ name ≠ ['s'] then t.prio.write t.pos priority else t.prio }

def initThread (k : Kernel) (t : Page) (name : Name) (priority : Int) : Except Fault Kernel :=
  if priMin ≤ priority ∧ priority ≤ priMax then
    let k := k.upd t fun _ => blankThread name priority
    let k := if k.mode = .sjf then storeTotalExec k t else k
    let k := k.upd t (Thread.setFirstPrio name priority)
    .ok { k with allList := k.allList ++ [t] }
  else .error .assertion

/-- `thread_create` up to the call of `thread_unblock`, on the page `p` that
`palloc_get_page` returned. -/
def threadAllocate (k : Kernel) (p : Page) (name : Name) (priority : Int) :
    Except Fault Kernel :=
  if k.allocated p = true then .error .disabled
  else initThread (pallocGetPage k p) p name priority

/-- The quotient of two `int`s as the processor computes it. -/
def divide (x y : Int) : Except Fault Int :=
  if y = 0 ∨ (x = -2147483648 ∧ y = -1) then .error .divideError else .ok (x.tdiv y)

/-- The SJF part of `thread_exit` that learns the burst of the running thread. -/
def learnBurst (k : Kernel) : Except Fault Kernel :=
  let t := k.thread k.current
  threadForeach (calcNewTotalExec k t.totalExec t.currExec) getTotalExecEach

def learnAtExit (k : Kernel) : Except Fault Kernel :=
  if k.mode = .sjf then (learnBurst k).map sortReadyByDuration else .ok k

/-- Adds the mean wait of the running thread to the statistics of the run. -/
def recordWait (k : Kernel) (rep : Int) : Except Fault Kernel :=
  if k.current ≠ k.initialThread ∧ k.idleThread ≠ some k.current then
    (divide (k.thread k.current).totalWait rep).map fun waited =>
      { k with totalWaitTime := i32 (k.totalWaitTime + waited) }
  else .ok k

/-- `thread_exit` from its `intr_disable` on; `rep` was read before. -/
def threadExit (k : Kernel) (rep : Int) : Except Fault Outcome := do
  let k ← learnAtExit k
  let k ← recordWait k rep
  .ok (.schedules ({ k with allList := k.allList.erase k.current }.setStatus k.current .dying))

def threadSetPriority (k : Kernel) (priority : Int) : Kernel :=
  let k := k.upd k.current (Thread.setPriority (i32 priority))
  if k.mode = .mlfqs then refreshPriority k else k

def threadSetNice (k : Kernel) (nice : Int) : Kernel :=
  let k := k.upd k.current (Thread.setNice (i32 nice))
  if k.mode = .mlfqs then refreshPriority k else k

end Calendarizador.Source
