import Calendarizador.Source.Machine

/-!
# Output from `schedule`

`lib/kernel/console.c` and the part of `schedule` that runs in the frame of the thread just
switched to. A `printf` takes `console_lock`, so it may block, and then the thread is inside
its old `schedule` call and calls `schedule` again. The kernel is the one of
`Source.Machine`, except that what `scheduleReturn` does at once is here a stack of tasks for
each thread, executed one by one. With interrupts off `acquire_console` and `release_console`
are one step each, apart from the wait. With interrupts on, a thread can be preempted between
the `sema_down` and the assignment to `holder` in `lock_acquire`, and between the assignment
and the `sema_up` in `lock_release`, so these are steps of their own; what the thread tests
before them only it can change. Characters are left out; a `printf` of ordinary code may block
in `intq_putc`, and one with interrupts off sends by polling and may only wake the thread that
waits for room. `thread_exit` prints its line before the part that is one step.
Output of interrupt handlers and of `main` before `thread_start` takes no lock that anybody
else wants, and is left out.
-/
namespace Calendarizador.Source
open Foundation

/-- The semaphore of `console_lock`, which only `console.c` names. -/
def consoleSema : SemaId := .user 0

/-- What a thread has yet to execute of its `schedule` and `printf` calls. -/
inductive Task where
  /-- The test in front of `print_ready_list`, in the frame that remembers `next`. -/
  | check (next : Page)
  /-- The loop of `print_ready_list`. -/
  | rows
  /-- `threads_print = false`. -/
  | printed
  /-- `cur->repeat += 1` and the verbose line. -/
  | line
  /-- A `printf` at `acquire_console`; `masked` if interrupts are off. -/
  | acquire (masked : Bool)
  /-- The same `printf`, dispatched inside the `sema_down` of the lock. -/
  | retest (masked : Bool)
  /-- In `lock_acquire` behind the `sema_down`, with interrupts on. -/
  | took
  /-- Between `acquire_console` and `release_console`. -/
  | body (masked : Bool)
  /-- In `lock_release` in front of the `sema_up`, with interrupts on. -/
  | cleared
  deriving DecidableEq, Repr

structure Console where
  kernel : Kernel
  verbose : Bool
  /-- `console_lock.holder`. -/
  holder : Option Page
  /-- `console_lock_depth`. -/
  depth : Nat
  tasks : Page → List Task

namespace Console

/-- Replaces the tasks of the running thread. -/
def setTasks (c : Console) (list : List Task) : Console :=
  { c with tasks := Function.update c.tasks c.kernel.current list }

/-- `schedule` up to the end of `thread_schedule_tail`. A thread that returns into a
`schedule` call of its own has the rest of that call to execute. -/
def schedule (c : Console) : Except Fault Console :=
  match nextThreadToRun c.kernel with
  | (none, _) => .error .assertion
  | (some next, k) =>
    if k.status k.current = .running then .error .assertion
    else .ok { c with
      kernel := threadScheduleTail (switchTo k next)
        (if k.current = next then none else some k.current)
      tasks := match resumedCall k next with
        | some remembered =>
          Function.update c.tasks next (.check remembered :: .line :: c.tasks next)
        | none => c.tasks }

/-- The calls of `printf` for the verbose line. -/
def lineCalls (c : Console) : List Task :=
  if (c.kernel.thread c.kernel.current).name ≠ idleName ∧ c.verbose = true then
    List.replicate (match c.kernel.mode with
      | .mlfqs => 6
      | .sjf | .roundrobin => 3
      | .fcfs => 2) (.acquire true)
  else []

/-- `lock->holder = thread_current ()` -/
def setHolder (c : Console) (masked : Bool) (rest : List Task) : Console :=
  { c with holder := some c.kernel.current }.setTasks (.body masked :: rest)

/-- One evaluation of the loop condition of `sema_down` on the lock, and with interrupts off
the assignment to `holder` if there is a unit. -/
def consoleDown (c : Console) (masked : Bool) (rest : List Task) : Except Fault Console :=
  let k := c.kernel
  if (k.sema consoleSema).value = 0 then
    let k := k.setSema consoleSema
      { k.sema consoleSema with waiters := (k.sema consoleSema).waiters ++ [k.current] }
    ({ c with kernel := k.setStatus k.current .blocked }.setTasks (.retest masked :: rest)).schedule
  else
    let c := { c with
      kernel := k.setSema consoleSema
        { k.sema consoleSema with value := (k.sema consoleSema).value - 1 } }
    .ok (if masked then c.setHolder masked rest else c.setTasks (.took :: rest))

def acquireConsole (c : Console) (masked : Bool) (rest : List Task) : Except Fault Console :=
  if c.holder = some c.kernel.current then
    .ok ({ c with depth := c.depth + 1 }.setTasks (.body masked :: rest))
  else c.consoleDown masked rest

/-- The `sema_up` of `lock_release`. -/
def consoleUp (c : Console) (rest : List Task) : Except Fault Console :=
  (semaUp c.kernel consoleSema).map fun k => { c with kernel := k }.setTasks rest

def releaseConsole (c : Console) (masked : Bool) (rest : List Task) : Except Fault Console :=
  if c.depth > 0 then .ok ({ c with depth := c.depth - 1 }.setTasks rest)
  else if c.holder = some c.kernel.current then
    let c := { c with holder := none }
    if masked then c.consoleUp rest else .ok (c.setTasks (.cleared :: rest))
  else .error .assertion

/-- The next task of the running thread. -/
def runTask (c : Console) : Except Fault Console :=
  let k := c.kernel
  match c.tasks k.current with
  | [] => .error .disabled
  | .check next :: rest =>
    if k.idleThread ≠ some next ∧ next ≠ k.initialThread ∧ k.threadsPrint = true then
      .ok ({ c with kernel := { k with totalReadyThreads := i32 k.readyList.length } }.setTasks
        (.acquire true :: .rows :: .acquire true :: .printed :: rest))
    else .ok (c.setTasks rest)
  | .rows :: rest => .ok (c.setTasks rest)
  | .printed :: rest =>
    .ok ({ c with kernel := { k with threadsPrint := false } }.setTasks rest)
  | .line :: rest =>
    .ok ({ c with kernel := k.upd k.current Thread.countRepeat }.setTasks (c.lineCalls ++ rest))
  | .acquire masked :: rest => c.acquireConsole masked rest
  | .retest masked :: rest => c.consoleDown masked rest
  | .took :: rest => .ok (c.setHolder false rest)
  | .body masked :: rest => c.releaseConsole masked rest
  | .cleared :: rest => c.consoleUp rest

end Console

inductive ConsoleEvent where
  | kernel (e : Event)
  /-- Ordinary code calls `printf`. -/
  | printf
  /-- `thread_exit` calls `printf`, with interrupts off. -/
  | exitPrintf
  | task
  /-- `print_ready_list` goes through its loop once more. The list may change while a row
  waits for the console, so how many rows there are is left open. -/
  | row

/-- Made by interrupt handlers. -/
def Event.interrupts : Event → Bool
  | .timer | .unblock _ | .semaUp _ | .semaTryDown _ => true
  | _ => false

/-- The sections of `intq_putc`. -/
def Event.waitsForRoom : Event → Bool
  | .block | .semaDown _ | .semaRetry => true
  | _ => false

def namesConsole (k : Kernel) : Event → Bool
  | .semaDown n | .semaTryDown n | .semaUp n => n = 0
  | .semaRetry => k.code k.current = .downing consoleSema
  | _ => false

/-- What the running thread, or an interrupt, may do in the middle of its tasks. -/
def Console.allows (c : Console) (e : Event) : Bool :=
  match c.tasks c.kernel.current with
  | [] => e.enabled c.kernel
  | .acquire false :: _ | .took :: _ | .cleared :: _ => e.enabled c.kernel && e.interrupts
  | .body false :: _ => e.enabled c.kernel && (e.interrupts || e.waitsForRoom)
  | .body true :: _ =>
    match e with
    | .unblock t => c.kernel.allocated t && c.kernel.code t = .parked
    | _ => false
  | _ => false

/-- The end of a section of the kernel. -/
def Console.finish (c : Console) : Outcome → Except Fault Console
  | .returns k => .ok { c with kernel := k }
  | .schedules k => Console.schedule { c with kernel := k }

def Console.step (c : Console) : ConsoleEvent → Except Fault Console
  | .kernel e =>
    if c.allows e = true ∧ namesConsole c.kernel e = false then do
      let outcome ← opBody c.kernel e
      c.finish outcome
    else .error .disabled
  | .printf =>
    if c.tasks c.kernel.current = [] ∧ c.kernel.code c.kernel.current = .user then
      .ok (c.setTasks [.acquire false])
    else .error .disabled
  | .exitPrintf =>
    match c.tasks c.kernel.current, c.kernel.code c.kernel.current with
    | [], .exiting _ _ => .ok (c.setTasks [.acquire true])
    | _, _ => .error .disabled
  | .task => c.runTask
  | .row =>
    match c.tasks c.kernel.current with
    | .rows :: rest => .ok (c.setTasks (.acquire true :: .acquire true :: .rows :: rest))
    | _ => .error .disabled

/-- The kernel in one mode, with `console_lock` initialised and with or without `-v`. -/
def consoleSystem (mode : Mode) : System Console ConsoleEvent Fault where
  initial c := ∃ values k, values 0 = 1 ∧ threadInit mode values = .ok k ∧ c.kernel = k ∧
    c.holder = none ∧ c.depth = 0 ∧ ∀ p, c.tasks p = []
  step := Console.step

end Calendarizador.Source
