import Calendarizador.Source.SleepSteps

/-!
# `thread_create` with interrupts on

`init_thread` of `threads/thread.c` and the `list_push_back` on `all_list` it ends with,
one statement at a time. Interrupts are on, so between two statements the timer interrupt
may let another thread run. `thread_exit` takes its thread off `all_list` with interrupts
off, so that is one step; so is the walk of `thread_foreach`. Scheduling is left open: any
thread that is neither blocked nor dead may run next.
-/
namespace Calendarizador.Source
open Foundation

/-- The life of the thread on a page, and the statement of `thread_create` it executes
next; `t` is the page of the thread it creates. -/
inductive CreatePc where
  /-- No thread: `palloc_get_page` may return the page. -/
  | free
  /-- Allocated, and `init_thread` has not returned. -/
  | initialising
  /-- Blocked until its creator calls `thread_unblock`. -/
  | blocked
  /-- Outside `thread_create`. -/
  | user
  /-- `memset (t, 0, sizeof *t)` -/
  | clearing (t : Page)
  /-- `elem->prev = before->prev` -/
  | elemPrev (t : Page)
  /-- `elem->next = before` -/
  | elemNext (t : Page)
  /-- `before->prev->next = elem` -/
  | prevNext (t : Page)
  /-- `before->prev = elem` -/
  | beforePrev (t : Page)
  /-- `thread_unblock (t)` -/
  | unblocking (t : Page)
  /-- After `thread_exit`, before `thread_schedule_tail` frees the page. -/
  | dying
  deriving DecidableEq

structure Creating where
  /-- `all_list` -/
  links : Links Page
  pc : Page → CreatePc

inductive CreateEvent where
  /-- `p` calls `thread_create` and gets the page `t`. -/
  | create (p t : Page)
  /-- The next statement of a thread inside `thread_create`. -/
  | run (p : Page)
  | exit (p : Page)
  /-- The page of a dead thread is freed. -/
  | reap (p : Page)

/-- `memset` also zeroes `allelem`. -/
def clearElem (l : Links Page) (t : Page) : Links Page where
  prev := Function.update l.prev (.elem t) none
  next := Function.update l.next (.elem t) none

/-- The loop of `thread_foreach` from the element `e` on: the threads it visits. -/
def foreachFrom (l : Links Page) : Nat → Node Page → Except SleepFault (List Page)
  | _, .tail _ => .ok []
  | 0, _ => .error .disabled
  | _ + 1, .head _ => .error .nullPointer
  | bound + 1, .elem t => do
    let next ← listNext l (.elem t)
    let rest ← foreachFrom l bound next
    .ok (t :: rest)

/-- The threads that `thread_foreach` visits, if the walk ends within `bound` rounds. -/
def visited (l : Links Page) (bound : Nat) : Except SleepFault (List Page) := do
  let first ← deref (l.next (.head ()))
  foreachFrom l bound first

namespace Creating

@[simps] def goto (s : Creating) (p : Page) (c : CreatePc) : Creating :=
  { s with pc := Function.update s.pc p c }

@[simps] def setLinks (s : Creating) (l : Links Page) : Creating := { s with links := l }

/-- The next statement of `p`; `list_push_back` inserts before the tail. -/
def runThread (s : Creating) (p : Page) : Except SleepFault Creating :=
  match s.pc p with
  | .free | .initialising | .blocked | .user | .dying => .error .disabled
  | .clearing t => .ok ((s.setLinks (clearElem s.links t)).goto p (.elemPrev t))
  | .elemPrev t => do
    assert (isInterior s.links (.tail ()) || isTail s.links (.tail ()))
    let prev ← deref (s.links.prev (.tail ()))
    .ok ((s.setLinks (s.links.setPrev (.elem t) (some prev))).goto p (.elemNext t))
  | .elemNext t =>
    .ok ((s.setLinks (s.links.setNext (.elem t) (some (.tail ())))).goto p (.prevNext t))
  | .prevNext t => do
    let prev ← deref (s.links.prev (.tail ()))
    .ok ((s.setLinks (s.links.setNext prev (some (.elem t)))).goto p (.beforePrev t))
  | .beforePrev t =>
    .ok (((s.setLinks (s.links.setPrev (.tail ()) (some (.elem t)))).goto t .blocked).goto p
      (.unblocking t))
  | .unblocking t => .ok ((s.goto t .user).goto p .user)

def createStep (s : Creating) : CreateEvent → Except SleepFault Creating
  | .create p t =>
    if s.pc p = .user ∧ s.pc t = .free then .ok ((s.goto t .initialising).goto p (.clearing t))
    else .error .disabled
  | .run p => s.runThread p
  | .exit p =>
    if s.pc p = .user then (listRemove s.links (.elem p)).map fun l => (s.setLinks l).goto p .dying
    else .error .disabled
  | .reap p => if s.pc p = .dying then .ok (s.goto p .free) else .error .disabled

end Creating

/-- After `thread_init`, with `main` on page 0 the only thread. -/
def Creating.init : Creating where
  links :=
    { prev := fun
        | .tail _ => some (.elem 0)
        | .elem 0 => some (.head ())
        | _ => none
      next := fun
        | .head _ => some (.elem 0)
        | .elem 0 => some (.tail ())
        | _ => none }
  pc := Function.update (fun _ => .free) 0 .user

def creatingSystem : System Creating CreateEvent SleepFault where
  initial s := s = Creating.init
  step := Creating.createStep

end Calendarizador.Source
