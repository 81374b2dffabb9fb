import Mathlib.Logic.Function.Basic
import Mathlib.Tactic.Simps.Basic
import Calendarizador.Foundation.MachineInt

/-!
# Kernel state

The data of `threads/thread.c`, `threads/synch.c` and `devices/timer.c` that decide
which thread runs. A `struct thread` is named by the page it occupies; pages are handed
out by `palloc_get_page` and may be reused after `palloc_free_page`. The intrusive lists
are sequences of pages. Thread identifiers, the I/O flag and all text go only to the
console and are left out, as is user-program state.

Besides the fields of the source a thread carries where its suspended stack resumes
(`Frame`), which part of the kernel its own code is in (`Code`), and two history variables no
kernel function reads: the number of times `schedule` dispatched it (`dispatches`) and the
indices at which its array `prio` was written.
-/
namespace Calendarizador.Source
open Foundation

/-- Address of the page that holds a `struct thread`. -/
abbrev Page := Nat

/-- A thread name as `strlcpy` stores it: at most fifteen characters. -/
abbrev Name := List Char

/-- `enum thread_status`. -/
inductive Status where
  | running | ready | blocked | dying
  deriving DecidableEq, Repr

/-- The four algorithms `-alg` selects; without the option the kernel behaves as FCFS. -/
inductive Mode where
  | fcfs | roundrobin | sjf | mlfqs
  deriving DecidableEq, Repr

/-- The semaphores of the kernel: the one of `thread_start`, the `timer_sema` inside each
thread, and all others (locks included), which ordinary code uses. -/
inductive SemaId where
  | idleStarted
  | timer (owner : Page)
  | user (index : Nat)
  deriving DecidableEq, Repr

structure Semaphore where
  value : Nat
  waiters : List Page
  deriving DecidableEq, Repr

/-- What `switch_threads` finds on the stack of a thread it switches to: the
`switch_entry` frame `thread_create` built, or the frame of the thread's own earlier
`schedule` call with the `next` it remembers. A thread on the CPU has neither. -/
inductive Frame where
  | entry
  | schedule (next : Page)
  | onCpu
  deriving DecidableEq, Repr

/-- Where a thread is in its own code. `downing` runs with interrupts off; `parked` is a
thread blocked on no semaphore, waiting for a `thread_unblock`. -/
inductive Code where
  /-- `main` before `thread_start` has created the idle thread; interrupts are off. -/
  | start
  /-- `main` in `thread_start`, about to wait for the idle thread. -/
  | startWait
  /-- Any thread code outside the functions below; interrupts are on. -/
  | user
  /-- In the loop of `sema_down`. -/
  | downing (sema : SemaId)
  | parked
  /-- In `thread_exit`, which has read `rep`; `seen` is the number of dispatches then. -/
  | exiting (rep : Int) (seen : Nat)
  /-- `idle` before it stores `idle_thread`. -/
  | idleEntry
  /-- `idle` about to up `idle_started`. -/
  | idleUp
  /-- `idle` in its endless loop. -/
  | idleLoop
  deriving DecidableEq, Repr

/-- Places at which the processor takes an interrupt. -/
def Code.interruptible : Code → Bool
  | .start | .downing _ | .parked => false
  | _ => true

/-- `int prio[10]`, and the indices of the writes to it, the last one first. -/
structure History where
  values : List Int
  written : List Nat
  deriving DecidableEq, Repr

/-- `prio[i] = value`. A write past the end changes no entry, but it is recorded. -/
@[simps] def History.write (h : History) (i : Nat) (value : Int) : History :=
  ⟨h.values.set i value, i :: h.written⟩

/-- `struct thread`. -/
structure Thread where
  status : Status
  name : Name
  recentWait : Int
  totalWait : Int
  repeats : Int
  prio : History
  pos : Nat
  ticks : Int
  currExec : Int
  totalExec : Int
  priority : Int
  nice : Int
  recentCpu : Int
  wakeupTime : Int
  timerSema : Semaphore
  frame : Frame
  code : Code
  dispatches : Nat
  deriving DecidableEq, Repr

namespace Thread

/-! Writes to a `struct thread`, one function for each place of the source. -/

@[simps] def setStatus (s : Status) (t : Thread) : Thread := { t with status := s }

@[simps] def setCode (c : Code) (t : Thread) : Thread := { t with code := c }

@[simps] def setSema (s : Semaphore) (t : Thread) : Thread := { t with timerSema := s }

/-- `switch_threads` saves the stack of the thread it leaves. -/
@[simps] def leaveCpu (next : Page) (t : Thread) : Thread := { t with frame := .schedule next }

/-- `switch_threads` loads the stack of the thread it enters. -/
@[simps] def enterCpu (t : Thread) : Thread :=
  { t with frame := .onCpu, dispatches := t.dispatches + 1 }

/-- The writes of `thread_schedule_tail`: the wait ends and a time slice starts. -/
@[simps] def beginSlice (now : Nat) (t : Thread) : Thread :=
  { t with
    recentWait := 0
    totalWait := i32 (t.totalWait + i32 (now - t.recentWait))
    status := .running }

@[simps] def countRepeat (t : Thread) : Thread := { t with repeats := i32 (t.repeats + 1) }

@[simps] def setRecentWait (w : Int) (t : Thread) : Thread := { t with recentWait := w }

@[simps] def setTotalExec (e : Int) (t : Thread) : Thread := { t with totalExec := e }

@[simps] def setCurrExec (e : Int) (t : Thread) : Thread := { t with currExec := e }

@[simps] def setRecentCpu (c : Int) (t : Thread) : Thread := { t with recentCpu := c }

@[simps] def setPriority (pri : Int) (t : Thread) : Thread := { t with priority := pri }

@[simps] def setNice (n : Int) (t : Thread) : Thread := { t with nice := n }

@[simps] def setTicks (n : Int) (t : Thread) : Thread := { t with ticks := n }

@[simps] def setWakeupTime (w : Int) (t : Thread) : Thread := { t with wakeupTime := w }

@[simps] def setPrio (prio : History) (pos : Nat) (t : Thread) : Thread :=
  { t with prio := prio, pos := pos }

/-- `f` reads nothing that waking, preempting or ending a thread writes. -/
structure Steady {β : Type} (f : Thread → β) : Prop where
  status : ∀ s t, f (setStatus s t) = f t := by intros; rfl
  stamp : ∀ w t, f (setRecentWait w t) = f t := by intros; rfl
  set : ∀ v t, f (setSema v t) = f t := by intros; rfl

/-- Nor does it read how far the thread has got. -/
structure Lasting {β : Type} (f : Thread → β) : Prop extends Steady f where
  code : ∀ c t, f (setCode c t) = f t := by intros; rfl

/-- `f` reads nothing that a dispatch writes. -/
structure Resting {β : Type} (f : Thread → β) : Prop where
  leave : ∀ n t, f (leaveCpu n t) = f t := by intros; rfl
  enter : ∀ t, f (enterCpu t) = f t := by intros; rfl
  slice : ∀ n t, f (beginSlice n t) = f t := by intros; rfl
  count : ∀ t, f (countRepeat t) = f t := by intros; rfl

end Thread

structure Kernel where
  mode : Mode
  thread : Page → Thread
  /-- Pages in use: `palloc_get_page` has returned them and nothing has freed them. The
  page of `initial_thread` belongs to the boot loader and counts as used. -/
  allocated : Page → Bool
  readyList : List Page
  allList : List Page
  allAllList : List Page
  waitList : List Page
  idleStarted : Semaphore
  userSema : Nat → Semaphore
  current : Page
  idleThread : Option Page
  initialThread : Page
  ticks : Nat
  threadTicks : Nat
  loadAvg : Int
  idleTicks : Nat
  kernelTicks : Nat
  totalWaitTime : Int
  totalReadyThreads : Int
  threadsPrint : Bool
  yieldOnReturn : Bool

/-- Ways in which a step does not return: it is not the next action of the code that
runs, an `ASSERT` fails, or the processor raises a divide error. -/
inductive Fault where
  | disabled | assertion | divideError
  deriving DecidableEq, Repr

namespace Kernel

/-- Writes fields of one `struct thread`. -/
def upd (k : Kernel) (p : Page) (f : Thread → Thread) : Kernel :=
  { k with thread := Function.update k.thread p (f (k.thread p)) }

@[simp] def status (k : Kernel) (p : Page) : Status := (k.thread p).status

@[simp] def code (k : Kernel) (p : Page) : Code := (k.thread p).code

@[simp] def setStatus (k : Kernel) (p : Page) (s : Status) : Kernel :=
  k.upd p (Thread.setStatus s)

@[simp] def setCode (k : Kernel) (p : Page) (c : Code) : Kernel :=
  k.upd p (Thread.setCode c)

def sema (k : Kernel) : SemaId → Semaphore
  | .idleStarted => k.idleStarted
  | .timer p => (k.thread p).timerSema
  | .user n => k.userSema n

def setSema (k : Kernel) : SemaId → Semaphore → Kernel
  | .idleStarted, s => { k with idleStarted := s }
  | .timer p, s => k.upd p (Thread.setSema s)
  | .user n, s => { k with userSema := Function.update k.userSema n s }

/-- A thread that exists: its page is in use and it has not exited. -/
def Live (k : Kernel) (p : Page) : Prop := k.allocated p = true ∧ k.status p ≠ .dying

instance (k : Kernel) (p : Page) : Decidable (k.Live p) :=
  inferInstanceAs (Decidable (_ ∧ _))

theorem upd_thread (k : Kernel) (p q : Page) (f : Thread → Thread) :
    (k.upd p f).thread q = if q = p then f (k.thread p) else k.thread q := by
  by_cases h : q = p
  · subst h
    simp [upd]
  · simp [upd, h]

@[simp] theorem upd_thread_self (k : Kernel) (p : Page) (f : Thread → Thread) :
    (k.upd p f).thread p = f (k.thread p) := by simp [upd]

@[simp] theorem upd_thread_of_ne (k : Kernel) (p q : Page) (f : Thread → Thread) (h : q ≠ p) :
    (k.upd p f).thread q = k.thread q := by simp [upd, h]

section
variable (k : Kernel) (p : Page) (f : Thread → Thread)

@[simp] theorem upd_mode : (k.upd p f).mode = k.mode := rfl
@[simp] theorem upd_allocated : (k.upd p f).allocated = k.allocated := rfl
@[simp] theorem upd_readyList : (k.upd p f).readyList = k.readyList := rfl
@[simp] theorem upd_allList : (k.upd p f).allList = k.allList := rfl
@[simp] theorem upd_allAllList : (k.upd p f).allAllList = k.allAllList := rfl
@[simp] theorem upd_waitList : (k.upd p f).waitList = k.waitList := rfl
@[simp] theorem upd_idleStarted : (k.upd p f).idleStarted = k.idleStarted := rfl
@[simp] theorem upd_userSema : (k.upd p f).userSema = k.userSema := rfl
@[simp] theorem upd_current : (k.upd p f).current = k.current := rfl
@[simp] theorem upd_idleThread : (k.upd p f).idleThread = k.idleThread := rfl
@[simp] theorem upd_initialThread : (k.upd p f).initialThread = k.initialThread := rfl
@[simp] theorem upd_ticks : (k.upd p f).ticks = k.ticks := rfl
@[simp] theorem upd_loadAvg : (k.upd p f).loadAvg = k.loadAvg := rfl

/-- A write that leaves the semaphore inside the thread leaves every semaphore. -/
theorem upd_sema (s : SemaId) (ignores : (f (k.thread p)).timerSema = (k.thread p).timerSema) :
    (k.upd p f).sema s = k.sema s := by
  cases s with
  | idleStarted => rfl
  | user n => rfl
  | timer q =>
    by_cases here : q = p
    · subst here
      simpa [sema] using ignores
    · simp [sema, here]

theorem setStatus_sema (status : Status) (s : SemaId) :
    (k.setStatus p status).sema s = k.sema s := upd_sema k p _ s rfl

theorem setCode_sema (code : Code) (s : SemaId) :
    (k.setCode p code).sema s = k.sema s := upd_sema k p _ s rfl

end

section
variable (k : Kernel) (s : SemaId) (v : Semaphore)

@[simp] theorem setSema_mode : (k.setSema s v).mode = k.mode := by cases s <;> rfl
@[simp] theorem setSema_allocated : (k.setSema s v).allocated = k.allocated := by
  cases s <;> rfl
@[simp] theorem setSema_readyList : (k.setSema s v).readyList = k.readyList := by
  cases s <;> rfl
@[simp] theorem setSema_allList : (k.setSema s v).allList = k.allList := by cases s <;> rfl
@[simp] theorem setSema_allAllList : (k.setSema s v).allAllList = k.allAllList := by
  cases s <;> rfl
@[simp] theorem setSema_waitList : (k.setSema s v).waitList = k.waitList := by
  cases s <;> rfl
@[simp] theorem setSema_current : (k.setSema s v).current = k.current := by cases s <;> rfl
@[simp] theorem setSema_idleThread : (k.setSema s v).idleThread = k.idleThread := by
  cases s <;> rfl
@[simp] theorem setSema_initialThread : (k.setSema s v).initialThread = k.initialThread := by
  cases s <;> rfl
@[simp] theorem setSema_ticks : (k.setSema s v).ticks = k.ticks := by cases s <;> rfl
@[simp] theorem setSema_loadAvg : (k.setSema s v).loadAvg = k.loadAvg := by cases s <;> rfl

theorem setSema_sema (x : SemaId) : (k.setSema s v).sema x = if x = s then v else k.sema x := by
  cases s with
  | idleStarted => cases x <;> simp [setSema, sema]
  | user n =>
    cases x with
    | user m => by_cases same : m = n <;> simp [setSema, sema, same]
    | _ => simp [setSema, sema]
  | timer p =>
    cases x with
    | timer q => by_cases same : q = p <;> simp [setSema, sema, same]
    | _ => simp [setSema, sema]

/-- Writing a semaphore changes at most the semaphore field of its owner. -/
theorem keeps_setSema {β : Type} (f : Thread → β) (ignores : ∀ w t, f (Thread.setSema w t) = f t)
    (p : Page) : f ((k.setSema s v).thread p) = f (k.thread p) := by
  cases s with
  | idleStarted => rfl
  | user n => rfl
  | timer q =>
    by_cases here : p = q
    · subst here
      simp [setSema, ignores]
    · simp [setSema, here]

@[simp] theorem setSema_status (p : Page) :
    ((k.setSema s v).thread p).status = (k.thread p).status :=
  keeps_setSema k s v (fun t => t.status) (fun _ _ => rfl) p

@[simp] theorem setSema_code (p : Page) : ((k.setSema s v).thread p).code = (k.thread p).code :=
  keeps_setSema k s v (fun t => t.code) (fun _ _ => rfl) p

end

/-- The part `f` of every thread is the same in both states. -/
def Keeps {β : Type} (f : Thread → β) (k after : Kernel) : Prop :=
  ∀ p, f (after.thread p) = f (k.thread p)

theorem Keeps.trans {β : Type} {f : Thread → β} {k middle after : Kernel}
    (first : Keeps f k middle) (second : Keeps f middle after) : Keeps f k after :=
  fun p => (second p).trans (first p)

theorem keeps_upd {β : Type} (f : Thread → β) (k : Kernel) (p : Page) (g : Thread → Thread)
    (ignores : ∀ t, f (g t) = f t) : Keeps f k (k.upd p g) := by
  intro q
  rw [upd_thread]
  split
  · rename_i same
    rw [ignores, same]
  · rfl

end Kernel
end Calendarizador.Source
