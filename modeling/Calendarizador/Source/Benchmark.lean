import Calendarizador.Source.Machine

/-!
# The benchmark `prueba`

`tests/threads/prueba.c` as a program of the kernel: the thread `main` creates the threads and
sleeps, every thread sleeps to the end of the first second, works and exits. How long a thread
works is left open, and so is what the printing of messages does with the console lock: its
downs and ups may come at any time. `load_thread_io` and `load_thread_cpu` make the same
calls to the kernel. Beside the kernel stand the places of the threads in their programs, and
the state in which `schedule` stored `total_ready_threads`.
-/
namespace Calendarizador.Source
open Foundation

def priDefault : Int := 31

/-- The next call of `main` in `prueba`. -/
inductive MainPlace where
  | setNice
  /-- The call of `thread_create` number `i`, or the sleep after the last one. -/
  | create (i : Nat)
  /-- In that call, about to unblock the new thread. -/
  | start (i : Nat) (p : Page)
  /-- Asleep, and then at the last `printf`. -/
  | print
  deriving DecidableEq

/-- The next call of a thread of the benchmark. -/
inductive LoadPlace where
  | sleep
  | work
  deriving DecidableEq

structure Benchmark where
  startTime : Nat
  main : MainPlace
  load : Page → LoadPlace
  /-- How many calls of `thread_create` returned a thread. -/
  created : Nat
  /-- The kernel when `schedule` stored the number of ready threads. -/
  stored : Option Kernel

/-- The place after `start_time = timer_ticks ()`. -/
def Benchmark.start (ticks : Nat) : Benchmark where
  startTime := ticks
  main := .setNice
  load := fun _ => .sleep
  created := 0
  stored := none

section
variable (mode : Mode) (bounded : Bool) (threadCnt : Nat)

/-- The number of calls of `thread_create`; under SJF there are two rounds. -/
def createCalls : Nat := if mode = .sjf then 2 * threadCnt else threadCnt

/-- The number in the name; the second round counts down in a bounded run. -/
def loadNumber (i : Nat) : Nat :=
  if i < threadCnt then i
  else if bounded then threadCnt - 1 - (i - threadCnt) else i - threadCnt

def loadName (i : Nat) : Name :=
  ("Thread ".toList ++ Nat.toDigits 10 (loadNumber bounded threadCnt i)).take 15

/-- The calls of `main`. -/
def Benchmark.mainCall (b : Benchmark) (e : Event) : Option Benchmark :=
  match b.main, e with
  | .setNice, .setNice nice => if nice = -20 then some { b with main := .create 0 } else none
  | .create i, .create p name priority =>
    if i < createCalls mode threadCnt ∧ name = loadName bounded threadCnt i ∧
        priority = priDefault then
      match p with
      | none => some { b with main := .create (i + 1) }
      | some p => some { b with
          main := .start i p
          load := Function.update b.load p .sleep
          created := b.created + 1 }
    else none
  | .start i p, .unblock t => if t = p then some { b with main := .create (i + 1) } else none
  | .create i, .sleep ticks =>
    if i = createCalls mode threadCnt ∧ ticks = i32 (i32 i * timerFreq) then
      some { b with main := .print }
    else none
  | _, _ => none

/-- The calls of `load_thread_cpu` and `load_thread_io`. `timer_elapsed` is called before
`timer_sleep`, so its result may be that of an earlier tick. -/
def Benchmark.loadCall (b : Benchmark) (k : Kernel) (e : Event) : Option Benchmark :=
  match b.load k.current, e with
  | .sleep, .sleep ticks =>
    if timerFreq - ((k.ticks : Int) - b.startTime) ≤ ticks ∧ ticks ≤ timerFreq then
      some { b with load := Function.update b.load k.current .work }
    else none
  | .work, .exit => some b
  | _, _ => none

/-- Interrupts and what a call still has to do are the kernel's own events, and printing takes
and gives back a lock; all others are calls of the running program. -/
def Benchmark.follow (b : Benchmark) (k : Kernel) (e : Event) : Option Benchmark :=
  match e with
  | .timer | .semaRetry | .idleBlock | .exitFinish => some b
  | .semaDown _ | .semaTryDown _ | .semaUp _ => some b
  | e =>
    if k.current = k.initialThread then b.mainCall mode bounded threadCnt e else b.loadCall k e

/-- The switch that stores the number clears `threads_print`. -/
def Benchmark.watch (b : Benchmark) (k after : Kernel) : Benchmark :=
  if k.threadsPrint = true ∧ after.threadsPrint = false then { b with stored := some after } else b

/-- `prueba` with `cantidad = threadCnt`, from any state after boot in which only `main` and
the idle thread exist and the number has not been stored. -/
def pruebaSystem : System (Kernel × Benchmark) Event Fault where
  initial s := Reachable (kernelSystem mode) s.1 ∧ s.1.current = s.1.initialThread ∧
    s.1.code s.1.current = .user ∧ s.1.idleThread.isSome = true ∧ s.1.allList.length = 2 ∧
    s.1.threadsPrint = true ∧ s.1.totalReadyThreads = 0 ∧ s.2 = Benchmark.start s.1.ticks
  step s e :=
    match s.2.follow mode bounded threadCnt s.1 e with
    | none => .error .disabled
    | some b => do
      let after ← step s.1 e
      .ok (after, b.watch s.1 after)

end

/-- `main` is about to divide by `total_ready_threads`. -/
def AtPrintf (k : Kernel) (b : Benchmark) : Prop :=
  b.main = .print ∧ k.current = k.initialThread ∧ k.code k.current = .user

instance (k : Kernel) (b : Benchmark) : Decidable (AtPrintf k b) :=
  inferInstanceAs (Decidable (_ ∧ _))

end Calendarizador.Source
