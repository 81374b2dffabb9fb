import Calendarizador.Source.Bitmap

/-!
# The page allocator

`threads/palloc.c`, with the memory size `threads/start.S` computes. Calls are taken one
after another, so the lock of a pool is left out. The bitmap of a pool lies in memory at
`usedMapAt`; its contents are kept in `usedMap`, and `memory` is read and written only
outside it.
-/
namespace Calendarizador.Source
open Foundation

/-- `enum palloc_flags` -/
structure PallocFlags where
  assert : Bool
  zero : Bool
  user : Bool
  deriving DecidableEq, Repr

/-- `struct pool` -/
structure Pool where
  /-- the pointer `used_map` -/
  usedMapAt : Nat
  usedMap : Bitmap
  base : Nat

inductive PoolName where
  | kernel | user
  deriving DecidableEq, Repr

/-- The pool a request is for. -/
def PallocFlags.pool (flags : PallocFlags) : PoolName := if flags.user then .user else .kernel

/-- `init_ram_pages`: what the BIOS reports above the first megabyte, capped at 64 MB. -/
def ramPages (extendedKb : Nat) : Nat := min (extendedKb + 1024) 65536 / 4

/-- The little-endian word at the address `a`. -/
def loadWord (memory : Nat → BitVec 8) (a : Nat) : BitVec 32 :=
  memory (a + 3) ++ memory (a + 2) ++ memory (a + 1) ++ memory a

def initPool (memory : Nat → BitVec 8) (base pageCnt : Nat) (name : String) :
    Except Halt Pool :=
  let bmPages := divRoundUp (Bitmap.bufSize pageCnt) pgSize
  if bmPages > pageCnt then
    .error (.panic ("Not enough memory in " ++ name ++ " for bitmap."))
  else
    (Bitmap.createInBuf (pageCnt - bmPages) (bmPages * pgSize)
      fun idx => loadWord memory (base + 8 + 4 * idx)).map
      fun usedMap => ⟨base, usedMap, base + bmPages * pgSize⟩

structure Palloc where
  initRamPages : Nat
  kernelPool : Pool
  userPool : Pool
  memory : Nat → BitVec 8

namespace Palloc

def init (memory : Nat → BitVec 8) (initRamPages userPageLimit : Nat) : Except Halt Palloc := do
  let freeStart ← ptov (1024 * 1024)
  let freeEnd ← ptov (initRamPages * pgSize)
  let freePages := (freeEnd - freeStart) / pgSize
  let userPages := if freePages / 2 > userPageLimit then userPageLimit else freePages / 2
  let kernelPages := freePages - userPages
  let kernelPool ← initPool memory freeStart kernelPages "kernel pool"
  let userPool ← initPool memory (freeStart + kernelPages * pgSize) userPages "user pool"
  .ok ⟨initRamPages, kernelPool, userPool, memory⟩

def pool (p : Palloc) : PoolName → Pool
  | .kernel => p.kernelPool
  | .user => p.userPool

/-- Stores the bitmap of one pool. -/
def setMap (p : Palloc) (name : PoolName) (usedMap : Bitmap) : Palloc :=
  match name with
  | .kernel => { p with kernelPool := { p.kernelPool with usedMap } }
  | .user => { p with userPool := { p.userPool with usedMap } }

/-- `memset` on `size` bytes at `dst`. -/
@[simps]
def fill (p : Palloc) (dst : Nat) (value : BitVec 8) (size : Nat) : Palloc :=
  { p with memory := memset p.memory dst value size }

def getMultiple (p : Palloc) (flags : PallocFlags) (pageCnt : Nat) :
    Except Halt (Option Nat × Palloc) :=
  let pool := p.pool flags.pool
  if pageCnt = 0 then .ok (none, p)
  else do
    let (pageIdx, usedMap) ← pool.usedMap.scanAndFlip 0 pageCnt false
    let p := p.setMap flags.pool usedMap
    match pageIdx with
    | some pageIdx =>
      let pages := pool.base + pgSize * pageIdx
      .ok (some pages, if flags.zero then p.fill pages 0 (pgSize * pageCnt) else p)
    | none => if flags.assert then .error (.panic "palloc_get: out of pages") else .ok (none, p)

def getPage (p : Palloc) (flags : PallocFlags) : Except Halt (Option Nat × Palloc) :=
  p.getMultiple flags 1

def pageFromPool (pool : Pool) (page : Nat) : Bool :=
  let pageNo := pgNo page
  let startPage := pgNo pool.base
  let endPage := startPage + pool.usedMap.bitCnt
  startPage ≤ pageNo ∧ pageNo < endPage

/-- The pool `palloc_free_multiple` decides on. -/
def owner (p : Palloc) (pages : Nat) : Except Halt PoolName :=
  if pageFromPool p.kernelPool pages then .ok .kernel
  else if pageFromPool p.userPool pages then .ok .user
  else .error .notReached

def freeMultiple (p : Palloc) (pages : Option Nat) (pageCnt : Nat) : Except Halt Palloc := do
  ensure (pgOfs (pages.getD 0) = 0)
  match pages with
  | none => .ok p
  | some pages =>
    if pageCnt = 0 then .ok p
    else
      let name ← p.owner pages
      let pool := p.pool name
      let pageIdx := pgNo pages - pgNo pool.base
      let p := p.fill pages 0xcc (pgSize * pageCnt)
      let all ← pool.usedMap.all pageIdx pageCnt
      ensure (all = true)
      let usedMap ← pool.usedMap.setMultiple pageIdx pageCnt false
      .ok (p.setMap name usedMap)

def freePage (p : Palloc) (page : Option Nat) : Except Halt Palloc := p.freeMultiple page 1

end Palloc

/-! ## Pages -/

namespace Pool

/-- The numbers of the pages a pool hands out. -/
def pages (pool : Pool) : Span := ⟨pgNo pool.base, pool.usedMap.bitCnt⟩

/-- The numbers of the pages its bitmap takes. -/
def mapPages (pool : Pool) : Span :=
  ⟨pgNo pool.usedMapAt, divRoundUp (Bitmap.bufSize pool.usedMap.bitCnt) pgSize⟩

/-- The bitmap marks the page as free. -/
def FreeAt (pool : Pool) (page : Nat) : Prop :=
  page ∈ pool.pages ∧ pool.usedMap.bit (page - pgNo pool.base) = false

/-- The pages of the run are all free. -/
def FreeRun (pool : Pool) (run : Span) : Prop := ∀ page ∈ run, pool.FreeAt page

end Pool

namespace Palloc

/-- Free memory starts at 1 MB and runs to the end of RAM. -/
def freeMemory (p : Palloc) : Span :=
  ⟨pgNo (physBase + 1024 * 1024), p.initRamPages - 1024 * 1024 / pgSize⟩

/-- The two pools and their bitmaps. -/
def areas (p : Palloc) : List Span :=
  [p.kernelPool.mapPages, p.kernelPool.pages, p.userPool.mapPages, p.userPool.pages]

end Palloc

/-! ## Sequences of calls -/

/-- The allocator and, for each pool, the runs of pages obtained from it and not yet freed. -/
structure PageHeap where
  palloc : Palloc
  live : PoolName → List Span

inductive PageEvent where
  /-- `palloc_get_multiple`, or `palloc_get_page` for one page -/
  | get (flags : PallocFlags) (pageCnt : Nat)
  /-- `palloc_free_multiple` of the part `part` of the run `run` that came from `pool` -/
  | free (pool : PoolName) (run part : Span)

namespace PageHeap

/-- A call frees pages of a live run only. -/
def Permitted (s : PageHeap) : PageEvent → Prop
  | .get _ _ => True
  | .free pool run part => run ∈ s.live pool ∧ run.start ≤ part.start ∧ part.stop ≤ run.stop

/-- The caller keeps the run it was given. -/
def keep (s : PageHeap) (pool : PoolName) (pageCnt : Nat) : Option Nat × Palloc → PageHeap
  | (none, palloc) => ⟨palloc, s.live⟩
  | (some pages, palloc) =>
    ⟨palloc, Function.update s.live pool (⟨pgNo pages, pageCnt⟩ :: s.live pool)⟩

def step (s : PageHeap) : PageEvent → Except Halt PageHeap
  | .get flags pageCnt =>
    (s.palloc.getMultiple flags pageCnt).map (s.keep flags.pool pageCnt)
  | .free pool run part =>
    (s.palloc.freeMultiple (some (pgSize * part.start)) part.count).map fun palloc =>
      ⟨palloc, Function.update s.live pool (run.without part ++ (s.live pool).erase run)⟩

end PageHeap

/-- After `palloc_init` has accepted the memory and the limit, no page is in use. -/
def pageSystem : System PageHeap PageEvent Halt where
  initial s := (∃ memory extendedKb userPageLimit,
    Palloc.init memory (ramPages extendedKb) userPageLimit = .ok s.palloc) ∧ s.live = fun _ => []
  step := PageHeap.step

end Calendarizador.Source
