import Calendarizador.Invariant.Malloc
import Calendarizador.Source.HeapMemory

/-!
# What the calls leave of the memory

The headers, the elements of the free lists and the pages that are given back are apart from
every block that stays live, so `malloc` and `free` do not touch what a live block holds.
-/
namespace Calendarizador.Source
open Foundation List

/-! ## Stores -/

section
variable {memory junk : Memory} {x : Nat} {dst size : Nat}

theorem scribble_outside {spans : List Span} (outside : ∀ t ∈ spans, x ∉ t) :
    scribble memory junk spans x = memory x := by
  refine if_neg ?_
  rintro ⟨t, member, inside⟩
  exact outside t member inside

theorem memset_inside {i : Nat} (inside : i < size) (value : BitVec 8) :
    memset memory dst value size (dst + i) = value :=
  if_pos ⟨Nat.le_add_right _ _, Nat.add_lt_add_left inside _⟩

/-- What a copy between two blocks that do not overlap leaves. -/
theorem memcpy_eq {src : Nat} (apart : Span.Apart ⟨dst, size⟩ ⟨src, size⟩) :
    memcpy memory dst src size = splice memory dst size fun i => memory (src + i) := by
  have before : dst ≤ src ∨ src + size ≤ dst := by
    by_contra overlap
    have low := apart dst
    simp only [Span.mem_iff, Span.stop] at low
    omega
  rw [memcpy, copyUp_eq size before]

end

namespace Heap.Layout
variable {h : Heap} {live : List Span} (ok : h.Layout live)
include ok
variable {s : Span}

/-! ## What is apart from a live block -/

/-- The element of a free block. -/
theorem elem_apart (member : s ∈ live) {d b : Nat} (below : d < h.descCnt)
    (free : b ∈ (h.descs d).freeList) : Span.Apart s (elemSpan b) := by
  obtain ⟨run, held, block⟩ := ok.live_block s member
  obtain ⟨run', held', -, -, block'⟩ := ok.free_block below free
  have different : s.start ≠ b := by
    rintro rfl
    exact ((ok.free_iff d below _).mp free).2 (mem_map_of_mem member)
  have whole := ok.blocks_apart held held' block block' different
  exact whole.mono (fun x inside => inside)
    (Span.subset_of_le (le_refl b) (Nat.add_le_add_left (ok.descs d below).elem b))

/-- The pages of a run of which the block is no part. -/
theorem pages_apart {run : Span} (member : s ∈ live) (held : run ∈ h.held)
    (other : ¬ h.IsBlock run s) : Span.Apart s ⟨pgSize * run.start, pgSize * run.count⟩ := by
  obtain ⟨run', held', block⟩ := ok.live_block s member
  obtain ⟨low, high, -, -⟩ := ok.block_bounds held' block
  have different : run' ≠ run := by
    rintro rfl
    exact other block
  have separate := ok.apart.forall held' held different
  intro x inside page
  refine separate (pgNo x) ?_ ?_
  all_goals
    simp only [Span.mem_iff, Span.stop, pgNo, pgSize, arenaSize] at *
    omega

/-- Pages that the page allocator still has. -/
theorem new_apart (member : s ∈ live) {a n : Nat} (new : ∀ run ∈ h.held, Span.Apart ⟨a, n⟩ run) :
    Span.Apart s ⟨pgSize * a, pgSize * n⟩ := by
  obtain ⟨run, held, block⟩ := ok.live_block s member
  obtain ⟨low, high, -, -⟩ := ok.block_bounds held block
  have separate := new run held
  intro x inside page
  refine separate (pgNo x) ?_ ?_
  all_goals
    simp only [Span.mem_iff, Span.stop, pgNo, pgSize, arenaSize] at *
    omega

/-! ## The calls -/

/-- `malloc` leaves what the live blocks hold. -/
theorem mallocMemory_live {size : Nat} {page : Option Nat}
    (answers : Blocks.Answers ⟨h, live⟩ size page) (member : s ∈ live) {x : Nat} (inside : x ∈ s)
    (junk memory : Memory) : h.mallocMemory size page junk memory x = memory x := by
  unfold mallocMemory
  split
  · rfl
  cases found : h.findDesc size with
  | none =>
    cases page with
    | none => rfl
    | some a =>
      obtain ⟨-, -, new⟩ := answers.2 a rfl
      have some_ := answers.1 a rfl
      have apart := ok.new_apart member new
      refine scribble_outside fun t listed header => ?_
      obtain rfl := mem_singleton.mp listed
      refine apart x inside ⟨header.1, lt_of_lt_of_le header.2 ?_⟩
      simp only [headerSpan, Span.stop, arenaSize, pgSize] at some_ ⊢
      omega
  | some d =>
    have below : d < h.descCnt := mem_range.mp (mem_of_find?_eq_some found)
    dsimp only
    cases list : (h.descs d).freeList with
    | nil =>
      cases page with
      | none => rfl
      | some a =>
        obtain ⟨-, -, new⟩ := answers.2 a rfl
        simp only [pagesFor, found, Option.isSome_some, if_true] at new
        have apart := ok.new_apart member new
        rw [Nat.mul_one] at apart
        refine scribble_outside fun t listed touched => ?_
        rcases mem_cons.mp listed with rfl | listed
        · exact apart x inside ⟨touched.1, lt_of_lt_of_le touched.2 (by
            simp only [headerSpan, Span.stop, arenaSize, pgSize]
            omega)⟩
        · obtain ⟨b, block, rfl⟩ := mem_map.mp listed
          obtain ⟨idx, -, rfl, room⟩ := mem_blocksOf (ok.descs d below) block
          have elem := (ok.descs d below).elem
          refine apart x inside ?_
          simp only [elemSpan, Span.mem_iff, Span.stop] at touched ⊢
          omega
    | cons b rest =>
      have free : b ∈ (h.descs d).freeList := by
        rw [list]
        exact mem_cons_self
      obtain ⟨run, held, -, address, -⟩ := ok.free_block below free
      refine scribble_outside fun t listed touched => ?_
      rcases mem_cons.mp listed with rfl | listed
      · rw [pgNo_block (ok.descs d below) address] at touched
        exact ok.header_apart member held x inside touched
      · obtain ⟨c, free', rfl⟩ := mem_map.mp listed
        exact ok.elem_apart member below free' x inside touched

/-- `free` leaves what the other live blocks hold. -/
theorem freeMemory_live (retained : h.Retained) {r : Span} (member : s ∈ live) (kept : r ∈ live)
    (other : r.start ≠ s.start) {x : Nat} (inside : x ∈ r) (junk memory : Memory) :
    h.freeMemory junk memory (some s.start) x = memory x := by
  obtain ⟨run, held, block⟩ := ok.live_block s member
  obtain ⟨run', held', block'⟩ := ok.live_block r kept
  have page := (ok.block_bounds held block).2.2.2
  unfold freeMemory
  dsimp only
  rw [page]
  cases owner : (h.header run.start).desc with
  | none =>
    have mine : s = bigBlock run := by simpa only [IsBlock, owner] using block
    have alone : ¬ h.IsBlock run r := by
      intro same
      simp only [IsBlock, owner] at same
      exact other (by rw [same, mine])
    rw [(ok.big run held owner).1]
    exact memset_outside (ok.pages_apart kept held alone x inside)
  | some d =>
    obtain ⟨below, one, -⟩ := ok.small run held d owner
    have size : s.count = (h.descs d).blockSize := by
      simp only [IsBlock, owner] at block
      exact block.1
    have cleared : memset memory s.start 0xcc (h.descs d).blockSize x = memory x := by
      rw [← size]
      exact memset_outside (ok.blocks_apart held' held block' block other x inside)
    have linked : scribble (memset memory s.start 0xcc (h.descs d).blockSize) junk
        (headerSpan run.start :: elemSpan s.start :: h.links d) x = memory x := by
      rw [scribble_outside, cleared]
      intro t listed touched
      rcases mem_cons.mp listed with rfl | listed
      · exact ok.header_apart kept held x inside touched
      rcases mem_cons.mp listed with rfl | listed
      · have room : elemSpan s.start ⊆ s :=
          Span.subset_of_le (le_refl _) (Nat.add_le_add_left (size ▸ (ok.descs d below).elem) _)
        exact ok.blocks_apart held' held block' block other x inside (room x touched)
      · obtain ⟨c, free, rfl⟩ := mem_map.mp listed
        exact ok.elem_apart kept below free x inside touched
    dsimp only
    split
    · rename_i unused
      -- with the block back, the arena has no live block, so `r` is not on its page
      have pushed := ok.push member held owner block
      have few := blocksPerArena_lt (ok.descs d below)
      have less := retained run held d owner
      rw [sizeT_of_lt (by omega)] at unused
      have full := (pushed.unused_iff held (by simpa using owner)).mp (by
        rw [setFreeCnt_freeCnt, if_pos rfl, setFreeCnt_descs, setFreeList_blocksPerArena]
        omega)
      have alone : ¬ h.IsBlock run r := fun same =>
        full ⟨r, Blocks.mem_drop.mpr ⟨kept, other⟩, by simpa using same⟩
      rw [← linked]
      refine memset_outside ?_
      have apart := ok.pages_apart kept held alone
      rw [one, Nat.mul_one] at apart
      exact apart x inside
    · exact linked

end Heap.Layout
end Calendarizador.Source
