import Calendarizador.Source.Malloc

/-!
# The block allocator and the bytes of the memory

`Heap` keeps the arena headers and the free lists in a form of its own. In the memory they are
bytes as well: a header at the start of a page, a `struct list_elem` at the start of each free
block. Here the calls of `threads/malloc.c` are followed through the memory. `memset` and
`memcpy` store what they say; where a header or a link is stored, the bytes are arbitrary
(`junk`), and the links of all elements of the list may change.
-/
namespace Calendarizador.Source
open Foundation

/-- Headers or links are stored in the spans. -/
def scribble (memory junk : Memory) (spans : List Span) : Memory :=
  fun x => if Span.Covers spans x then junk x else memory x

namespace Heap

/-- The `struct arena` of the page. -/
def headerSpan (a : Nat) : Span := ⟨pgSize * a, arenaSize⟩

/-- The `struct list_elem` of a free block. -/
def elemSpan (b : Nat) : Span := ⟨b, 8⟩

/-- The elements of a free list. -/
def links (h : Heap) (d : Nat) : List Span := (h.descs d).freeList.map elemSpan

/-- The memory after `malloc`. -/
def mallocMemory (h : Heap) (size : Nat) (page : Option Nat) (junk memory : Memory) : Memory :=
  if size = 0 then memory
  else
    match h.findDesc size with
    | none =>
      match page with
      | none => memory
      | some a => scribble memory junk [headerSpan a]
    | some d =>
      match (h.descs d).freeList, page with
      | [], none => memory
      | [], some a => scribble memory junk (headerSpan a :: (h.blocksOf d a).map elemSpan)
      | b :: _, _ => scribble memory junk (headerSpan (pgNo b) :: h.links d)

/-- The memory after `free`. A block is cleared, and so are pages that are given back. -/
def freeMemory (h : Heap) (junk memory : Memory) : Option Nat → Memory
  | none => memory
  | some b =>
    let a := pgNo b
    match (h.header a).desc with
    | some d =>
      let memory := memset memory b 0xcc (h.descs d).blockSize
      let memory := scribble memory junk (headerSpan a :: elemSpan b :: h.links d)
      if (h.descs d).blocksPerArena ≤ sizeT ((h.header a).freeCnt + 1) then
        memset memory (pgSize * a) 0xcc pgSize
      else memory
    | none => memset memory (pgSize * a) 0xcc (pgSize * (h.header a).freeCnt)

def callocOn (h : Heap) (a b : Nat) (page : Option Nat) (junk memory : Memory) :
    Except Halt (Option Nat × Heap × Memory) :=
  let size := sizeT (a * b)
  if size < a ∨ size < b then .ok (none, h, memory)
  else do
    let (p, after) ← h.malloc size page
    let memory := h.mallocMemory size page junk memory
    .ok (p, after, match p with
      | some p => memset memory p 0 size
      | none => memory)

/-- `realloc`; `junk` is what `malloc` stores in headers and links, and `junk'` what `free`
stores there. -/
def reallocOn (h : Heap) (oldBlock : Option Nat) (newSize : Nat) (page : Option Nat)
    (junk junk' memory : Memory) : Except Halt (Option Nat × Heap × Memory) :=
  if newSize = 0 then do
    let after ← h.free oldBlock
    .ok (none, after, h.freeMemory junk' memory oldBlock)
  else do
    let (newBlock, middle) ← h.malloc newSize page
    let memory := h.mallocMemory newSize page junk memory
    match oldBlock, newBlock with
    | some old, some new => do
      let oldSize ← middle.blockSize old
      let minSize := if newSize < oldSize then newSize else oldSize
      let memory := memcpy memory new old minSize
      let after ← middle.free (some old)
      .ok (newBlock, after, middle.freeMemory junk' memory (some old))
    | _, _ => .ok (newBlock, middle, memory)

end Heap
end Calendarizador.Source
