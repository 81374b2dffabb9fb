import Calendarizador.Foundation.LinkedHeap

/-!
# Linked lists

`lib/kernel/list.c` on a heap of `prev` and `next` pointers. Every assertion is tested,
every pointer that is followed is tested for null, and a comparison function may be called
on elements only. Each statement of the source that writes a pointer is one write here, in
the same order. Loops take fuel; a loop that has not ended when it is used up fails.
-/
namespace Calendarizador.Source.ListHeap
open Foundation

inductive ListFault where
  | assertion
  | nullPointer
  /-- A comparison function is called on a sentinel, which is part of no structure. -/
  | sentinel
  /-- The fuel is used up. -/
  | unfinished
  deriving DecidableEq

section
variable {ι α : Type}

def load : Option (Cell ι α) → Except ListFault (Cell ι α)
  | none => .error .nullPointer
  | some x => .ok x

def listAssert (condition : Bool) : Except ListFault Unit :=
  if condition then .ok () else .error .assertion

/-- The comparison function, called on two cells. -/
def callLess (less : α → α → Bool) : Cell ι α → Cell ι α → Except ListFault Bool
  | .elem a, .elem b => .ok (less a b)
  | _, _ => .error .sentinel

def isHead (m : CellHeap ι α) (x : Cell ι α) : Bool := (m.prev x).isNone && (m.next x).isSome

def isInterior (m : CellHeap ι α) (x : Cell ι α) : Bool := (m.prev x).isSome && (m.next x).isSome

def isTail (m : CellHeap ι α) (x : Cell ι α) : Bool := (m.prev x).isSome && (m.next x).isNone

def listBegin (m : CellHeap ι α) (l : ι) : Except ListFault (Cell ι α) := load (m.next (.head l))

def listEnd (l : ι) : Cell ι α := .tail l

def listNext (m : CellHeap ι α) (x : Cell ι α) : Except ListFault (Cell ι α) := do
  listAssert (isHead m x || isInterior m x)
  load (m.next x)

def listPrev (m : CellHeap ι α) (x : Cell ι α) : Except ListFault (Cell ι α) := do
  listAssert (isInterior m x || isTail m x)
  load (m.prev x)

variable [DecidableEq ι] [DecidableEq α]

def listEmpty (m : CellHeap ι α) (l : ι) : Except ListFault Bool := do
  let first ← listBegin m l
  .ok (first = listEnd l)

def listInit (m : CellHeap ι α) (l : ι) : CellHeap ι α :=
  let m := m.setPrev (.head l) none
  let m := m.setNext (.head l) (some (.tail l))
  let m := m.setPrev (.tail l) (some (.head l))
  m.setNext (.tail l) none

def listInsert (m : CellHeap ι α) (before elem : Cell ι α) :
    Except ListFault (CellHeap ι α) := do
  listAssert (isInterior m before || isTail m before)
  let m := m.setPrev elem (m.prev before)
  let m := m.setNext elem (some before)
  let left ← load (m.prev before)
  let m := m.setNext left (some elem)
  .ok (m.setPrev before (some elem))

def listSplice (m : CellHeap ι α) (before first last : Cell ι α) :
    Except ListFault (CellHeap ι α) := do
  listAssert (isInterior m before || isTail m before)
  if first = last then .ok m
  else do
    let last ← listPrev m last
    listAssert (isInterior m first)
    listAssert (isInterior m last)
    let left ← load (m.prev first)
    let m := m.setNext left (m.next last)
    let right ← load (m.next last)
    let m := m.setPrev right (m.prev first)
    let m := m.setPrev first (m.prev before)
    let m := m.setNext last (some before)
    let left ← load (m.prev before)
    let m := m.setNext left (some first)
    .ok (m.setPrev before (some last))

def listPushFront (m : CellHeap ι α) (l : ι) (elem : Cell ι α) :
    Except ListFault (CellHeap ι α) := do
  let first ← listBegin m l
  listInsert m first elem

def listPushBack (m : CellHeap ι α) (l : ι) (elem : Cell ι α) :
    Except ListFault (CellHeap ι α) :=
  listInsert m (listEnd l) elem

/-- Returns the cell after the one removed. -/
def listRemove (m : CellHeap ι α) (elem : Cell ι α) :
    Except ListFault (CellHeap ι α × Cell ι α) := do
  listAssert (isInterior m elem)
  let left ← load (m.prev elem)
  let m := m.setNext left (m.next elem)
  let right ← load (m.next elem)
  let m := m.setPrev right (m.prev elem)
  let following ← load (m.next elem)
  .ok (m, following)

def listFront (m : CellHeap ι α) (l : ι) : Except ListFault (Cell ι α) := do
  let empty ← listEmpty m l
  listAssert (!empty)
  load (m.next (.head l))

def listBack (m : CellHeap ι α) (l : ι) : Except ListFault (Cell ι α) := do
  let empty ← listEmpty m l
  listAssert (!empty)
  load (m.prev (.tail l))

def listPopFront (m : CellHeap ι α) (l : ι) : Except ListFault (CellHeap ι α × Cell ι α) := do
  let front ← listFront m l
  let (m, _) ← listRemove m front
  .ok (m, front)

def listPopBack (m : CellHeap ι α) (l : ι) : Except ListFault (CellHeap ι α × Cell ι α) := do
  let back ← listBack m l
  let (m, _) ← listRemove m back
  .ok (m, back)

/-- `swap (&x->prev, &y->next)`. -/
def swapLinks (m : CellHeap ι α) (x y : Cell ι α) : CellHeap ι α :=
  let kept := m.prev x
  let m := m.setPrev x (m.next y)
  m.setNext y kept

/-- The loop of `list_reverse`; it goes on along `prev`, which was `next` before the swap. -/
def reverseLoop : Nat → CellHeap ι α → ι → Cell ι α → Except ListFault (CellHeap ι α)
  | 0, _, _, _ => .error .unfinished
  | fuel + 1, m, l, e =>
    if e = listEnd l then .ok m
    else do
      let m := swapLinks m e e
      let e ← load (m.prev e)
      reverseLoop fuel m l e

def listReverse (fuel : Nat) (m : CellHeap ι α) (l : ι) : Except ListFault (CellHeap ι α) := do
  let empty ← listEmpty m l
  if empty then .ok m
  else do
    let first ← listBegin m l
    let m ← reverseLoop fuel m l first
    let m := swapLinks m (.tail l) (.head l)
    let first ← load (m.next (.head l))
    let last ← load (m.prev (.tail l))
    .ok (swapLinks m first last)

/-- The loop of `is_sorted`, with `a` the cell last looked at. -/
def sortedLoop (less : α → α → Bool) :
    Nat → CellHeap ι α → Cell ι α → Cell ι α → Except ListFault Bool
  | 0, _, _, _ => .error .unfinished
  | fuel + 1, m, a, b => do
    let a ← listNext m a
    if a = b then .ok true
    else do
      let before ← listPrev m a
      let falls ← callLess less a before
      if falls then .ok false else sortedLoop less fuel m a b

def isSorted (less : α → α → Bool) (fuel : Nat) (m : CellHeap ι α) (a b : Cell ι α) :
    Except ListFault Bool :=
  if a = b then .ok true else sortedLoop less fuel m a b

/-- The loop of `find_end_of_run`. -/
def runLoop (less : α → α → Bool) :
    Nat → CellHeap ι α → Cell ι α → Cell ι α → Except ListFault (Cell ι α)
  | 0, _, _, _ => .error .unfinished
  | fuel + 1, m, a, b => do
    let a ← listNext m a
    if a = b then .ok a
    else do
      let before ← listPrev m a
      let falls ← callLess less a before
      if falls then .ok a else runLoop less fuel m a b

def findEndOfRun (less : α → α → Bool) (fuel : Nat) (m : CellHeap ι α) (a b : Cell ι α) :
    Except ListFault (Cell ι α) := do
  listAssert (a ≠ b)
  runLoop less fuel m a b

/-- The loop of `inplace_merge`. -/
def mergeLoop (less : α → α → Bool) :
    Nat → CellHeap ι α → Cell ι α → Cell ι α → Cell ι α → Except ListFault (CellHeap ι α)
  | 0, _, _, _, _ => .error .unfinished
  | fuel + 1, m, a0, a1b0, b1 =>
    if a0 = a1b0 ∨ a1b0 = b1 then .ok m
    else do
      let first ← callLess less a1b0 a0
      if first then do
        let a1b0 ← listNext m a1b0
        let moved ← listPrev m a1b0
        let m ← listSplice m a0 moved a1b0
        mergeLoop less fuel m a0 a1b0 b1
      else do
        let a0 ← listNext m a0
        mergeLoop less fuel m a0 a1b0 b1

def inplaceMerge (less : α → α → Bool) (fuel : Nat) (m : CellHeap ι α)
    (a0 a1b0 b1 : Cell ι α) : Except ListFault (CellHeap ι α) := do
  let left ← isSorted less fuel m a0 a1b0
  listAssert left
  let right ← isSorted less fuel m a1b0 b1
  listAssert right
  mergeLoop less fuel m a0 a1b0 b1

/-- One pass of `list_sort` from `a0` on: the number of runs it outputs from there. The inner
loops get fuel of their own. -/
def passLoop (less : α → α → Bool) (inner : Nat) :
    Nat → CellHeap ι α → ι → Cell ι α → Except ListFault (CellHeap ι α × Nat)
  | 0, _, _, _ => .error .unfinished
  | fuel + 1, m, l, a0 =>
    if a0 = listEnd l then .ok (m, 0)
    else do
      let a1b0 ← findEndOfRun less inner m a0 (listEnd l)
      if a1b0 = listEnd l then .ok (m, 1)
      else do
        let b1 ← findEndOfRun less inner m a1b0 (listEnd l)
        let m ← inplaceMerge less inner m a0 a1b0 b1
        let (m, count) ← passLoop less inner fuel m l b1
        .ok (m, count + 1)

/-- The passes of `list_sort`. -/
def sortLoop (less : α → α → Bool) (inner : Nat) :
    Nat → CellHeap ι α → ι → Except ListFault (CellHeap ι α)
  | 0, _, _ => .error .unfinished
  | fuel + 1, m, l => do
    let first ← listBegin m l
    let (m, outputRunCnt) ← passLoop less inner inner m l first
    if outputRunCnt > 1 then sortLoop less inner fuel m l else .ok m

/-- `list_sort` with its closing assertion. -/
def listSortHeap (less : α → α → Bool) (fuel : Nat) (m : CellHeap ι α) (l : ι) :
    Except ListFault (CellHeap ι α) := do
  let m ← sortLoop less fuel fuel m l
  let first ← listBegin m l
  let sorted ← isSorted less fuel m first (listEnd l)
  listAssert sorted
  .ok m

/-- Two elements are equal for `list_unique` if neither is less. -/
def callDiffer (less : α → α → Bool) (x y : Cell ι α) : Except ListFault Bool := do
  let rises ← callLess less x y
  if rises then .ok true else callLess less y x

/-- A duplicate is removed, and appended to the list of duplicates if there is one. -/
def takeDuplicate (m : CellHeap ι α) (duplicates : Option ι) (x : Cell ι α) :
    Except ListFault (CellHeap ι α) := do
  let (m, _) ← listRemove m x
  match duplicates with
  | none => .ok m
  | some d => listPushBack m d x

/-- The loop of `list_unique`. -/
def uniqueLoop (less : α → α → Bool) :
    Nat → CellHeap ι α → ι → Option ι → Cell ι α → Except ListFault (CellHeap ι α)
  | 0, _, _, _, _ => .error .unfinished
  | fuel + 1, m, l, duplicates, elem => do
    let following ← listNext m elem
    if following = listEnd l then .ok m
    else do
      let differs ← callDiffer less elem following
      if differs then uniqueLoop less fuel m l duplicates following
      else do
        let m ← takeDuplicate m duplicates following
        uniqueLoop less fuel m l duplicates elem

def listUnique (less : α → α → Bool) (fuel : Nat) (m : CellHeap ι α) (l : ι)
    (duplicates : Option ι) : Except ListFault (CellHeap ι α) := do
  let empty ← listEmpty m l
  if empty then .ok m
  else do
    let first ← listBegin m l
    uniqueLoop less fuel m l duplicates first

end
end Calendarizador.Source.ListHeap
