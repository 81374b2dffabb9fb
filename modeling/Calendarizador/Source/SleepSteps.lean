import Calendarizador.Foundation.DoublyLinked
import Calendarizador.Foundation.Transition
import Calendarizador.Source.Kernel

/-!
# `timer_sleep` with interrupts on

`timer_sleep` of `devices/timer.c` and the list functions of `lib/kernel/list.c` it
calls, one statement at a time. Interrupts are on until its `sema_down`, so between two
statements the timer interrupt may come and another thread may run; the handler itself is
not interrupted. Scheduling is left open: any thread that is not blocked may run next.
-/
namespace Calendarizador.Source
open Foundation

/-- A call that cannot happen now, a failed `ASSERT`, or an access through null. -/
inductive SleepFault where
  | disabled
  | assertion
  | nullPointer
  deriving DecidableEq

/-- The statement of `timer_sleep` that a thread executes next. -/
inductive SleepPc where
  /-- Outside `timer_sleep`. -/
  | user
  /-- The sum is computed, `t->wakeup_time` is not written. -/
  | storing (wakeup : Int)
  /-- `e = list_begin (list)` -/
  | entering
  /-- `e != list_end (list)` and `less (elem, e, aux)` -/
  | testing (e : Node Page)
  /-- `e = list_next (e)` -/
  | advancing (e : Node Page)
  /-- `elem->prev = before->prev` -/
  | elemPrev (before : Node Page)
  /-- `elem->next = before` -/
  | elemNext (before : Node Page)
  /-- `before->prev->next = elem` -/
  | prevNext (before : Node Page)
  /-- `before->prev = elem` -/
  | beforePrev (before : Node Page)
  /-- The loop condition of `sema_down`. -/
  | downing
  /-- On the waiters of its own `timer_sema`. -/
  | waiting
  deriving DecidableEq

/-- `received` holds the ticks at which `timer_sema` was upped since the last call of
`timer_sleep` began, and `calls` the number of calls; the code has neither. -/
structure Sleeping where
  links : Links Page
  wakeupTime : Page → Int
  /-- `timer_sema.value` -/
  value : Page → Nat
  pc : Page → SleepPc
  ticks : Nat
  /-- The handler is in its loop. -/
  handling : Bool
  calls : Page → Nat
  received : Page → List Nat

inductive SleepEvent where
  | call (p : Page) (ticks : Int)
  /-- The next statement of a thread inside `timer_sleep`. -/
  | run (p : Page)
  /-- The handler starts. -/
  | tick
  /-- A round of its loop. -/
  | wake
  /-- Its loop ends. -/
  | done

def isHead (l : Links Page) (n : Node Page) : Bool := (l.prev n).isNone && (l.next n).isSome

def isInterior (l : Links Page) (n : Node Page) : Bool := (l.prev n).isSome && (l.next n).isSome

def isTail (l : Links Page) (n : Node Page) : Bool := (l.prev n).isSome && (l.next n).isNone

/-- Follows a pointer. -/
def deref {α : Type} : Option α → Except SleepFault α
  | some x => .ok x
  | none => .error .nullPointer

def assert (condition : Bool) : Except SleepFault Unit :=
  if condition then .ok () else .error .assertion

def listNext (l : Links Page) (elem : Node Page) : Except SleepFault (Node Page) := do
  assert (isHead l elem || isInterior l elem)
  deref (l.next elem)

/-- The second statement reads the pointers of `elem` again. -/
def listRemove (l : Links Page) (elem : Node Page) : Except SleepFault (Links Page) := do
  assert (isInterior l elem)
  let prev ← deref (l.prev elem)
  let next ← deref (l.next elem)
  let l := l.setNext prev (some next)
  let next ← deref (l.next elem)
  let prev ← deref (l.prev elem)
  .ok (l.setPrev next (some prev))

/-- `list_remove` on an element between two others. -/
theorem listRemove_between {l : Links Page} {p : Page} {a b : Node Page}
    (backward : l.prev (.elem p) = some a) (forward : l.next (.elem p) = some b)
    (other : .elem p ≠ a) :
    listRemove l (.elem p) = .ok ((l.setNext a (some b)).setPrev b (some a)) := by
  have again : (l.setNext a (some b)).next (.elem p) = some b := by simp [other, forward]
  simp only [listRemove, isInterior, backward, forward, assert, deref, CellHeap.setNext_prev]
  simp only [Option.isSome_some, Bool.and_self, if_true, bind, Except.bind, again]

namespace Sleeping

@[simps] def goto (s : Sleeping) (p : Page) (c : SleepPc) : Sleeping :=
  { s with pc := Function.update s.pc p c }

@[simps] def setLinks (s : Sleeping) (l : Links Page) : Sleeping := { s with links := l }

def wakeupCmp (s : Sleeping) (left right : Page) : Bool :=
  decide (s.wakeupTime left < s.wakeupTime right)

/-- One round of the search for the place of `p`. -/
def test (s : Sleeping) (p : Page) : Node Page → Except SleepFault Sleeping
  | .tail _ => .ok (s.goto p (.elemPrev (.tail ())))
  | .elem q =>
    .ok (s.goto p (if s.wakeupCmp p q then .elemPrev (.elem q) else .advancing (.elem q)))
  | .head _ => .error .nullPointer

/-- `sema_down (&t->timer_sema)` tests the value with interrupts off. -/
def down (s : Sleeping) (p : Page) : Sleeping :=
  if s.value p = 0 then s.goto p .waiting
  else { s with value := Function.update s.value p (s.value p - 1) }.goto p .user

/-- The next statement of `p`. -/
def runThread (s : Sleeping) (p : Page) : Except SleepFault Sleeping :=
  match s.pc p with
  | .user | .waiting => .error .disabled
  | .storing wakeup =>
    .ok ({ s with wakeupTime := Function.update s.wakeupTime p wakeup }.goto p .entering)
  | .entering => (deref (s.links.next (.head ()))).map fun e => s.goto p (.testing e)
  | .testing e => s.test p e
  | .advancing e => (listNext s.links e).map fun e => s.goto p (.testing e)
  | .elemPrev before => do
    assert (isInterior s.links before || isTail s.links before)
    let prev ← deref (s.links.prev before)
    .ok ((s.setLinks (s.links.setPrev (.elem p) (some prev))).goto p (.elemNext before))
  | .elemNext before =>
    .ok ((s.setLinks (s.links.setNext (.elem p) (some before))).goto p (.prevNext before))
  | .prevNext before => do
    let prev ← deref (s.links.prev before)
    .ok ((s.setLinks (s.links.setNext prev (some (.elem p)))).goto p (.beforePrev before))
  | .beforePrev before =>
    .ok ((s.setLinks (s.links.setPrev before (some (.elem p)))).goto p .downing)
  | .downing => .ok (s.down p)

/-- `timer_sleep` up to the sum; a negative argument returns at once. -/
def call (s : Sleeping) (p : Page) (ticks : Int) : Sleeping :=
  if ticks < 0 then s
  else { s with
    pc := Function.update s.pc p (.storing (i64 (s.ticks + ticks)))
    calls := Function.update s.calls p (s.calls p + 1)
    received := Function.update s.received p [] }

/-- `sema_up (&t->timer_sema)` -/
def up (s : Sleeping) (p : Page) : Sleeping :=
  { s with
    pc := Function.update s.pc p (if s.pc p = .waiting then .downing else s.pc p)
    value := Function.update s.value p ((s.value p + 1) % 4294967296)
    received := Function.update s.received p (s.received p ++ [s.ticks]) }

/-- The thread at the front of `wait_list`, if its time has come. -/
def dueFront (s : Sleeping) : Option Page :=
  match s.links.next (.head ()) with
  | some (.elem q) => if (s.ticks : Int) < s.wakeupTime q then none else some q
  | _ => none

def sleepStep (s : Sleeping) : SleepEvent → Except SleepFault Sleeping
  | .call p ticks =>
    if s.handling = false ∧ s.pc p = .user then .ok (s.call p ticks) else .error .disabled
  | .run p => if s.handling = false then s.runThread p else .error .disabled
  | .tick =>
    if s.handling = false then .ok { s with ticks := s.ticks + 1, handling := true }
    else .error .disabled
  | .wake =>
    if s.handling = true then
      match s.dueFront with
      | some q => (listRemove (s.up q).links (.elem q)).map fun l => (s.up q).setLinks l
      | none => .error .disabled
    else .error .disabled
  | .done =>
    if s.handling = true ∧ s.dueFront = none then .ok { s with handling := false }
    else .error .disabled

end Sleeping

/-- After `list_init (&wait_list)`, before any call. -/
def Sleeping.init : Sleeping where
  links := Links.empty
  wakeupTime := fun _ => 0
  value := fun _ => 0
  pc := fun _ => .user
  ticks := 0
  handling := false
  calls := fun _ => 0
  received := fun _ => []

def sleepingSystem : System Sleeping SleepEvent SleepFault where
  initial s := s = Sleeping.init
  step := Sleeping.sleepStep

end Calendarizador.Source
