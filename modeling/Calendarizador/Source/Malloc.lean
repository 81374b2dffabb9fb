import Calendarizador.Foundation.Spans
import Calendarizador.Source.Memory
import Mathlib.Logic.Function.Basic

/-!
# The block allocator

`threads/malloc.c`. Calls are taken one after another, so the locks are left out. The header
an arena has in memory is kept by page number, and a free list is the list of the addresses
of its blocks; what the blocks hold is left out. The page allocator answers a request with
any run of pages or with `NULL`; `held` lists the runs it has given and not got back.
-/
namespace Calendarizador.Source
open Foundation

/-- `struct desc` -/
structure Desc where
  blockSize : Nat
  blocksPerArena : Nat
  freeList : List Nat

/-- `struct arena`; `desc` is the index of the owning descriptor, `none` for a big block. -/
structure Arena where
  magic : Nat
  desc : Option Nat
  freeCnt : Nat

def arenaMagic : Nat := 0x9a548eed

/-- `sizeof (struct arena)` -/
def arenaSize : Nat := 12

structure Heap where
  descs : Nat → Desc
  descCnt : Nat
  /-- what stands at the start of each page -/
  header : Nat → Arena
  held : List Span

namespace Heap

@[simps]
def setDesc (h : Heap) (d : Nat) (desc : Desc) : Heap :=
  { h with descs := Function.update h.descs d desc }

def setFreeList (h : Heap) (d : Nat) (list : List Nat) : Heap :=
  h.setDesc d { h.descs d with freeList := list }

@[simps]
def setHeader (h : Heap) (page : Nat) (arena : Arena) : Heap :=
  { h with header := Function.update h.header page arena }

def setFreeCnt (h : Heap) (page freeCnt : Nat) : Heap :=
  h.setHeader page { h.header page with freeCnt }

@[simps]
def addDesc (h : Heap) (desc : Desc) : Heap :=
  { h with descs := Function.update h.descs h.descCnt desc, descCnt := h.descCnt + 1 }

/-- The loop of `malloc_init`, with room for `room` more descriptors. -/
def initFrom (h : Heap) (blockSize : Nat) (room : Nat) : Except Halt Heap :=
  if blockSize < pgSize / 2 then
    match room with
    | 0 => .error .assertion
    | room + 1 =>
      (h.addDesc ⟨blockSize, (pgSize - arenaSize) / blockSize, []⟩).initFrom (blockSize * 2) room
  else .ok h

def mallocInit (h : Heap) : Except Halt Heap := h.initFrom 16 10

/-! ## The page allocator -/

/-- `palloc_get_multiple` answers with the page `page`. -/
@[simps]
def obtain (h : Heap) (page pageCnt : Nat) : Heap := { h with held := ⟨page, pageCnt⟩ :: h.held }

/-- The page allocator has got the run back. -/
@[simps]
def giveBack (h : Heap) (run : Span) : Heap := { h with held := h.held.erase run }

/-- `palloc_free_multiple` asserts that the pages are in use. -/
def release (h : Heap) (page pageCnt : Nat) : Except Halt Heap := do
  ensure (⟨page, pageCnt⟩ ∈ h.held)
  .ok (h.giveBack ⟨page, pageCnt⟩)

/-! ## Arenas and blocks -/

/-- The number of the page the arena of block `b` starts with. -/
def blockToArena (h : Heap) (b : Nat) : Except Halt Nat := do
  let a := pgNo b
  ensure (a ≠ 0)
  ensure ((h.header a).magic = arenaMagic)
  match (h.header a).desc with
  | some d => ensure (sizeT (pgOfs b + 4294967296 - arenaSize) % (h.descs d).blockSize = 0)
  | none => ensure (pgOfs b = arenaSize)
  .ok a

def arenaToBlock (h : Heap) (a idx : Nat) : Except Halt Nat := do
  ensure (a ≠ 0)
  ensure ((h.header a).magic = arenaMagic)
  match (h.header a).desc with
  | none => .error .nullPointer
  | some d =>
    ensure (idx < (h.descs d).blocksPerArena)
    .ok (pgSize * a + arenaSize + idx * (h.descs d).blockSize)

/-- The descriptor of the smallest blocks that hold `size` bytes. -/
def findDesc (h : Heap) (size : Nat) : Option Nat :=
  (List.range h.descCnt).find? fun d => size ≤ (h.descs d).blockSize

/-- The pages of a big block. -/
def bigPages (size : Nat) : Nat := sizeT (sizeT (size + arenaSize) + pgSize - 1) / pgSize

/-- The pages a request makes `malloc` ask for. -/
def pagesFor (h : Heap) (size : Nat) : Nat :=
  if (h.findDesc size).isSome then 1 else bigPages size

/-- One round of the loop that puts the blocks of a new arena on the free list. -/
def pushBlock (h : Heap) (d a idx : Nat) : Except Halt Heap := do
  let b ← h.arenaToBlock a idx
  .ok (h.setFreeList d ((h.descs d).freeList ++ [b]))

/-- The header and the blocks of a new arena. -/
def createArena (h : Heap) (d a : Nat) : Except Halt Heap :=
  let blocksPerArena := (h.descs d).blocksPerArena
  (List.range blocksPerArena).foldlM (fun h idx => h.pushBlock d a idx)
    (h.setHeader a ⟨arenaMagic, some d, blocksPerArena⟩)

/-- Takes the first block of the free list. -/
def popBlock (h : Heap) (d : Nat) : Except Halt (Option Nat × Heap) :=
  match (h.descs d).freeList with
  | [] => .error .assertion
  | b :: rest => do
    let h := h.setFreeList d rest
    let a ← h.blockToArena b
    .ok (some b, h.setFreeCnt a (sizeT ((h.header a).freeCnt + 4294967295)))

/-- `malloc`; `page` is the answer of the page allocator if it is asked. -/
def malloc (h : Heap) (size : Nat) (page : Option Nat) : Except Halt (Option Nat × Heap) :=
  if size = 0 then .ok (none, h)
  else
    match h.findDesc size with
    | none =>
      match page with
      | none => .ok (none, h)
      | some a =>
        let pageCnt := bigPages size
        .ok (some (pgSize * a + arenaSize),
          (h.obtain a pageCnt).setHeader a ⟨arenaMagic, none, pageCnt⟩)
    | some d =>
      if (h.descs d).freeList = [] then
        match page with
        | none => .ok (none, h)
        | some a => do
          let h ← (h.obtain a 1).createArena d a
          h.popBlock d
      else h.popBlock d

def calloc (h : Heap) (a b : Nat) (page : Option Nat) : Except Halt (Option Nat × Heap) :=
  let size := sizeT (a * b)
  if size < a ∨ size < b then .ok (none, h) else h.malloc size page

/-- One round of the loop that takes the blocks of an unused arena off the free list. -/
def removeBlock (h : Heap) (d a idx : Nat) : Except Halt Heap := do
  let b ← h.arenaToBlock a idx
  ensure (b ∈ (h.descs d).freeList)
  .ok (h.setFreeList d ((h.descs d).freeList.erase b))

/-- Gives an entirely unused arena back. -/
def destroyArena (h : Heap) (d a : Nat) : Except Halt Heap := do
  ensure ((h.header a).freeCnt = (h.descs d).blocksPerArena)
  let h ← (List.range (h.descs d).blocksPerArena).foldlM (fun h idx => h.removeBlock d a idx) h
  h.release a 1

def free (h : Heap) : Option Nat → Except Halt Heap
  | none => .ok h
  | some b => do
    let a ← h.blockToArena b
    match (h.header a).desc with
    | some d =>
      let h := h.setFreeList d (b :: (h.descs d).freeList)
      let h := h.setFreeCnt a (sizeT ((h.header a).freeCnt + 1))
      if (h.descs d).blocksPerArena ≤ (h.header a).freeCnt then h.destroyArena d a else .ok h
    | none => h.release a (h.header a).freeCnt

/-- The number of bytes allocated for `block`. -/
def blockSize (h : Heap) (block : Nat) : Except Halt Nat := do
  let a ← h.blockToArena block
  match (h.header a).desc with
  | some d => .ok (h.descs d).blockSize
  | none => .ok (sizeT (pgSize * (h.header a).freeCnt + 4294967296 - pgOfs block))

def realloc (h : Heap) (oldBlock : Option Nat) (newSize : Nat) (page : Option Nat) :
    Except Halt (Option Nat × Heap) :=
  if newSize = 0 then (h.free oldBlock).map fun h => (none, h)
  else do
    let (newBlock, h) ← h.malloc newSize page
    match oldBlock, newBlock with
    | some old, some _ =>
      -- the size of the old block bounds what is copied
      let _ ← h.blockSize old
      (h.free (some old)).map fun h => (newBlock, h)
    | _, _ => .ok (newBlock, h)

/-! ## What an arena is divided into -/

/-- The addresses of the blocks of an arena with the page `a`. -/
def blocksOf (h : Heap) (d a : Nat) : List Nat :=
  (List.range (h.descs d).blocksPerArena).map fun idx =>
    pgSize * a + arenaSize + idx * (h.descs d).blockSize

/-- The one block of a run of pages without descriptor. -/
def bigBlock (run : Span) : Span := ⟨pgSize * run.start + arenaSize, pgSize * run.count - arenaSize⟩

/-- The run of pages has been cut into blocks, of which `s` is one. -/
def IsBlock (h : Heap) (run s : Span) : Prop :=
  match (h.header run.start).desc with
  | none => s = bigBlock run
  | some d => s.count = (h.descs d).blockSize ∧ s.start ∈ h.blocksOf d run.start

/-- The blocks on a free list that lie on the page `a`. -/
def freeIn (h : Heap) (d a : Nat) : Nat := (h.descs d).freeList.countP fun b => pgNo b = a

end Heap

/-! ## Sequences of calls -/

/-- The heap and the byte ranges of the blocks obtained and not yet freed. -/
structure Blocks where
  heap : Heap
  live : List Span

inductive BlockEvent where
  | malloc (size : Nat) (page : Option Nat)
  | calloc (a b : Nat) (page : Option Nat)
  | realloc (oldBlock : Option Nat) (newSize : Nat) (page : Option Nat)
  | free (block : Option Nat)

namespace Blocks

/-- The caller keeps the block it was given. -/
def keep (live : List Span) : Option Nat × Heap → Except Halt Blocks
  | (none, heap) => .ok ⟨heap, live⟩
  | (some b, heap) => (heap.blockSize b).map fun size => ⟨heap, ⟨b, size⟩ :: live⟩

/-- The caller gives up a block. -/
def drop (live : List Span) (block : Option Nat) : List Span :=
  live.filter fun s => some s.start ≠ block

def step (s : Blocks) : BlockEvent → Except Halt Blocks
  | .malloc size page => s.heap.malloc size page >>= keep s.live
  | .calloc a b page => s.heap.calloc a b page >>= keep s.live
  | .realloc oldBlock newSize page => do
    let (newBlock, heap) ← s.heap.realloc oldBlock newSize page
    -- a failed `realloc` leaves the old block alone
    if newSize = 0 ∨ newBlock ≠ none then keep (drop s.live oldBlock) (newBlock, heap)
    else .ok ⟨heap, s.live⟩
  | .free block => (s.heap.free block).map fun heap => ⟨heap, drop s.live block⟩

/-- The page allocator hands out pages apart from those it has given, and never page zero. -/
def Fresh (s : Blocks) (size : Nat) (page : Option Nat) : Prop :=
  ∀ a ∈ page, 0 < a ∧ a + s.heap.pagesFor size ≤ 1048576 ∧
    ∀ run ∈ s.heap.held, Span.Apart ⟨a, s.heap.pagesFor size⟩ run

/-- The block is `NULL` or live. -/
def Owned (s : Blocks) (block : Option Nat) : Prop := ∀ b ∈ block, ∃ r ∈ s.live, r.start = b

def Permitted (s : Blocks) : BlockEvent → Prop
  | .malloc size page => size ≤ 2147483648 ∧ s.Fresh size page
  | .calloc a b page => sizeT (a * b) ≤ 2147483648 ∧ s.Fresh (sizeT (a * b)) page
  | .realloc oldBlock newSize page =>
    newSize ≤ 2147483648 ∧ s.Fresh newSize page ∧ s.Owned oldBlock
  | .free block => s.Owned block

/-- An answer to a request of any size: `palloc_get_multiple` gives `NULL` if it is asked for no
pages. -/
def Answers (s : Blocks) (size : Nat) (page : Option Nat) : Prop :=
  (∀ a ∈ page, 0 < s.heap.pagesFor size) ∧ s.Fresh size page

/-- Calls with every `size_t`, as long as nothing is stored behind the end of a block: `calloc`
and `realloc` fill the block with as many bytes as they asked `malloc` for. -/
def Callable (s : Blocks) : BlockEvent → Prop
  | .malloc size page => size < 4294967296 ∧ s.Answers size page
  | .calloc a b page => sizeT (a * b) ≤ 4294967284 ∧ s.Answers (sizeT (a * b)) page
  | .realloc oldBlock newSize page =>
    newSize ≤ 4294967284 ∧ s.Answers newSize page ∧ s.Owned oldBlock
  | .free block => s.Owned block

end Blocks

/-- After `malloc_init`, with no block allocated. -/
def mallocSystem : System Blocks BlockEvent Halt where
  initial s := (∃ h, h.descCnt = 0 ∧ h.held = [] ∧ Heap.mallocInit h = .ok s.heap) ∧ s.live = []
  step := Blocks.step

end Calendarizador.Source
