import Calendarizador.Source.Malloc
import Mathlib.Data.List.Nodup
import Mathlib.Data.List.Perm.Subperm

/-!
# Arenas and their blocks

`Layout` ties the arenas, their counters, the free lists and the live blocks together. It
holds between the steps of a call too: taking a block, returning one, adding an arena and
giving one back each keep it. Between calls, no arena is entirely unused (`Retained`).
-/
namespace Calendarizador.Source
open Foundation List

structure Desc.Ok (desc : Desc) : Prop where
  pos : 0 < desc.blockSize
  /-- A free block holds its list element. -/
  elem : 8 ≤ desc.blockSize
  small : desc.blockSize ≤ 4084
  blocks : desc.blocksPerArena = 4084 / desc.blockSize

namespace Blocks

theorem mem_drop {live : List Span} {b : Nat} {s : Span} :
    s ∈ drop live (some b) ↔ s ∈ live ∧ s.start ≠ b := by
  simp [drop]

theorem mem_drop_start {live : List Span} {b x : Nat} :
    x ∈ (drop live (some b)).map Span.start ↔ x ∈ live.map Span.start ∧ x ≠ b := by
  simp only [mem_map, mem_drop]
  grind

end Blocks

namespace Heap

structure Layout (h : Heap) (live : List Span) : Prop where
  descs : ∀ d < h.descCnt, (h.descs d).Ok
  apart : h.held.Pairwise Span.Apart
  bounds : ∀ run ∈ h.held, 0 < run.start ∧ 0 < run.count ∧ run.stop ≤ 1048576
  magic : ∀ run ∈ h.held, (h.header run.start).magic = arenaMagic
  big : ∀ run ∈ h.held, (h.header run.start).desc = none →
    (h.header run.start).freeCnt = run.count ∧ bigBlock run ∈ live
  small : ∀ run ∈ h.held, ∀ d, (h.header run.start).desc = some d →
    d < h.descCnt ∧ run.count = 1 ∧ (h.header run.start).freeCnt = h.freeIn d run.start
  nodup : ∀ d < h.descCnt, (h.descs d).freeList.Nodup
  free_iff : ∀ d < h.descCnt, ∀ b, b ∈ (h.descs d).freeList ↔
    (∃ run ∈ h.held, (h.header run.start).desc = some d ∧ b ∈ h.blocksOf d run.start) ∧
      b ∉ live.map Span.start
  live_block : ∀ s ∈ live, ∃ run ∈ h.held, h.IsBlock run s
  live_nodup : (live.map Span.start).Nodup

/-- Every arena has a block in use. -/
def Retained (h : Heap) : Prop :=
  ∀ run ∈ h.held, ∀ d, (h.header run.start).desc = some d →
    (h.header run.start).freeCnt < (h.descs d).blocksPerArena

/-! ## Frame of the stores -/

section
variable (h : Heap) (d a : Nat) (list : List Nat) (n : Nat)

@[simp]
theorem setFreeList_header : (h.setFreeList d list).header = h.header := rfl

@[simp]
theorem setFreeList_held : (h.setFreeList d list).held = h.held := rfl

@[simp]
theorem setFreeList_blockSize (d' : Nat) :
    ((h.setFreeList d list).descs d').blockSize = (h.descs d').blockSize := by
  by_cases same : d' = d
  · subst same
    simp [setFreeList]
  · simp [setFreeList, same]

@[simp]
theorem setFreeList_blocksPerArena (d' : Nat) :
    ((h.setFreeList d list).descs d').blocksPerArena = (h.descs d').blocksPerArena := by
  by_cases same : d' = d
  · subst same
    simp [setFreeList]
  · simp [setFreeList, same]

theorem setFreeList_freeList (d' : Nat) : ((h.setFreeList d list).descs d').freeList =
    if d' = d then list else (h.descs d').freeList := by
  by_cases same : d' = d
  · subst same
    simp [setFreeList]
  · simp [setFreeList, same]

@[simp]
theorem setFreeList_freeList_self : ((h.setFreeList d list).descs d).freeList = list := by
  rw [setFreeList_freeList, if_pos rfl]

@[simp]
theorem setFreeList_setFreeList (list' : List Nat) :
    (h.setFreeList d list).setFreeList d list' = h.setFreeList d list' := by
  simp [setFreeList, setDesc]

@[simp]
theorem setFreeList_self : h.setFreeList d (h.descs d).freeList = h := by
  simp [setFreeList, setDesc]

@[simp]
theorem setFreeCnt_descs : (h.setFreeCnt a n).descs = h.descs := rfl

@[simp]
theorem setFreeCnt_held : (h.setFreeCnt a n).held = h.held := rfl

@[simp]
theorem setFreeCnt_desc (a' : Nat) : ((h.setFreeCnt a n).header a').desc = (h.header a').desc := by
  by_cases same : a' = a
  · subst same
    simp [setFreeCnt]
  · simp [setFreeCnt, same]

@[simp]
theorem setFreeCnt_magic (a' : Nat) :
    ((h.setFreeCnt a n).header a').magic = (h.header a').magic := by
  by_cases same : a' = a
  · subst same
    simp [setFreeCnt]
  · simp [setFreeCnt, same]

theorem setFreeCnt_freeCnt (a' : Nat) : ((h.setFreeCnt a n).header a').freeCnt =
    if a' = a then n else (h.header a').freeCnt := by
  by_cases same : a' = a
  · subst same
    simp [setFreeCnt]
  · simp [setFreeCnt, same]

@[simp]
theorem setFreeList_blocksOf (d' a' : Nat) :
    (h.setFreeList d list).blocksOf d' a' = h.blocksOf d' a' := by
  simp [blocksOf]

@[simp]
theorem setFreeCnt_blocksOf (d' a' : Nat) :
    (h.setFreeCnt a n).blocksOf d' a' = h.blocksOf d' a' := rfl

@[simp]
theorem setFreeList_isBlock (run s : Span) :
    (h.setFreeList d list).IsBlock run s ↔ h.IsBlock run s := by
  simp [IsBlock]

@[simp]
theorem setFreeCnt_isBlock (run s : Span) : (h.setFreeCnt a n).IsBlock run s ↔ h.IsBlock run s := by
  simp [IsBlock]

end

variable {h : Heap} {d a b : Nat}

/-! ## Blocks -/

/-- A block lies on the page of its arena, behind the header. -/
theorem mem_blocksOf (ok : (h.descs d).Ok) (member : b ∈ h.blocksOf d a) :
    ∃ idx < (h.descs d).blocksPerArena, b = pgSize * a + (arenaSize + idx * (h.descs d).blockSize) ∧
      arenaSize + idx * (h.descs d).blockSize + (h.descs d).blockSize ≤ pgSize := by
  obtain ⟨idx, range, rfl⟩ := mem_map.mp member
  have below := mem_range.mp range
  refine ⟨idx, below, Nat.add_assoc _ _ _, ?_⟩
  have room : (idx + 1) * (h.descs d).blockSize ≤ 4084 := by
    rw [ok.blocks] at below
    exact (Nat.mul_le_mul_right _ below).trans (Nat.div_mul_le_self 4084 _)
  rw [Nat.succ_mul] at room
  simp only [arenaSize, pgSize]
  omega

theorem pgNo_block (ok : (h.descs d).Ok) (member : b ∈ h.blocksOf d a) : pgNo b = a := by
  obtain ⟨idx, -, rfl, room⟩ := mem_blocksOf ok member
  have pos := ok.pos
  simp only [pgNo, pgSize] at room ⊢
  omega

theorem nodup_blocksOf (ok : (h.descs d).Ok) (a : Nat) : (h.blocksOf d a).Nodup := by
  refine List.Nodup.map (fun i j same => ?_) nodup_range
  exact Nat.eq_of_mul_eq_mul_right ok.pos (Nat.add_left_cancel same)

/-- The offset of a block behind the header is a multiple of the block size. -/
theorem aligned_of_mem (ok : (h.descs d).Ok) (member : b ∈ h.blocksOf d a) :
    sizeT (pgOfs b + 4294967296 - arenaSize) % (h.descs d).blockSize = 0 := by
  obtain ⟨idx, -, rfl, room⟩ := mem_blocksOf ok member
  have pos := ok.pos
  have value : sizeT (pgOfs (pgSize * a + (arenaSize + idx * (h.descs d).blockSize)) +
      4294967296 - arenaSize) = idx * (h.descs d).blockSize := by
    simp only [sizeT, pgOfs, arenaSize, pgSize] at room ⊢
    omega
  rw [value, Nat.mul_mod_left]

/-- The assertions of `block_to_arena` on a block of an arena. -/
theorem blockToArena_some (page : pgNo b = a) (pos : a ≠ 0)
    (magic : (h.header a).magic = arenaMagic) (owner : (h.header a).desc = some d)
    (aligned : sizeT (pgOfs b + 4294967296 - arenaSize) % (h.descs d).blockSize = 0) :
    h.blockToArena b = .ok a := by
  subst page
  unfold blockToArena
  rw [ensure_bind pos, ensure_bind magic, owner]
  exact ensure_bind aligned _

theorem isBlock_of_mem {run : Span} (owner : (h.header run.start).desc = some d)
    (block : b ∈ h.blocksOf d run.start) : h.IsBlock run ⟨b, (h.descs d).blockSize⟩ := by
  simp only [IsBlock, owner]
  exact ⟨trivial, block⟩

namespace Layout
variable {h : Heap} {live : List Span} (ok : h.Layout live)
include ok
variable {run s : Span} {d : Nat}

/-- Runs of pages are told apart by their first page. -/
theorem run_unique {run' : Span} (member : run ∈ h.held) (member' : run' ∈ h.held)
    (same : run.start = run'.start) : run = run' := by
  by_contra different
  have separate : Span.Apart run run' :=
    ok.apart.forall member member' different
  obtain ⟨-, some_, -⟩ := ok.bounds run member
  obtain ⟨-, some_', -⟩ := ok.bounds run' member'
  refine separate run.start ?_ ?_
  all_goals
    simp only [Span.mem_iff, Span.stop]
    omega

theorem block_bounds (member : run ∈ h.held) (block : h.IsBlock run s) :
    pgSize * run.start + arenaSize ≤ s.start ∧ s.stop ≤ pgSize * run.stop ∧ 0 < s.count ∧
      pgNo s.start = run.start := by
  obtain ⟨-, some_, -⟩ := ok.bounds run member
  cases owner : (h.header run.start).desc with
  | none =>
    simp only [IsBlock, owner] at block
    subst block
    simp only [bigBlock, Span.stop, pgNo, pgSize, arenaSize]
    omega
  | some d =>
    obtain ⟨below, one, -⟩ := ok.small run member d owner
    have desc := ok.descs d below
    simp only [IsBlock, owner] at block
    obtain ⟨idx, -, start, room⟩ := mem_blocksOf desc block.2
    have pos := desc.pos
    refine ⟨?_, ?_, by rw [block.1]; exact pos, pgNo_block desc block.2⟩
    all_goals
      simp only [Span.stop, block.1, start, one]
      simp only [pgSize] at room ⊢
      omega

/-- Different blocks do not overlap. -/
theorem blocks_apart {run' s' : Span} (member : run ∈ h.held) (member' : run' ∈ h.held)
    (block : h.IsBlock run s) (block' : h.IsBlock run' s') (different : s.start ≠ s'.start) :
    Span.Apart s s' := by
  obtain ⟨low, high, -, -⟩ := ok.block_bounds member block
  obtain ⟨low', high', -, -⟩ := ok.block_bounds member' block'
  by_cases same : run = run'
  · subst same
    cases owner : (h.header run.start).desc with
    | none =>
      simp only [IsBlock, owner] at block block'
      subst block block'
      exact absurd rfl different
    | some d =>
      have desc := ok.descs d (ok.small run member d owner).1
      simp only [IsBlock, owner] at block block'
      obtain ⟨idx, -, start, -⟩ := mem_blocksOf desc block.2
      obtain ⟨idx', -, start', -⟩ := mem_blocksOf desc block'.2
      rcases Nat.lt_trichotomy idx idx' with before | equal | after
      · refine Span.apart_of_le ?_
        have next := Nat.mul_le_mul_right (h.descs d).blockSize (Nat.succ_le_of_lt before)
        rw [Nat.succ_mul] at next
        rw [Span.stop, start, start', block.1]
        omega
      · rw [start, start', equal] at different
        exact absurd rfl different
      · refine (Span.apart_of_le ?_).symm
        have next := Nat.mul_le_mul_right (h.descs d).blockSize (Nat.succ_le_of_lt after)
        rw [Nat.succ_mul] at next
        rw [Span.stop, start, start', block'.1]
        omega
  · have separate : Span.Apart run run' :=
      ok.apart.forall member member' same
    intro x inside inside'
    refine separate (pgNo x) ?_ ?_
    all_goals
      simp only [Span.mem_iff, pgNo, pgSize, arenaSize] at *
      omega

/-- The arena of a block is found and its assertions hold. -/
theorem blockToArena_eq (member : run ∈ h.held) (block : h.IsBlock run s) :
    h.blockToArena s.start = .ok run.start := by
  obtain ⟨start, -, -⟩ := ok.bounds run member
  obtain ⟨low, -, -, page⟩ := ok.block_bounds member block
  cases owner : (h.header run.start).desc with
  | none =>
    simp only [IsBlock, owner] at block
    have offset : pgOfs s.start = arenaSize := by
      rw [block]
      simp only [bigBlock, pgOfs, pgSize, arenaSize]
      omega
    unfold blockToArena
    rw [page]
    rw [ensure_bind (by omega), ensure_bind (ok.magic run member), owner]
    exact ensure_bind offset _
  | some d =>
    have desc := ok.descs d (ok.small run member d owner).1
    simp only [IsBlock, owner] at block
    exact blockToArena_some page (by omega) (ok.magic run member) owner
      (aligned_of_mem desc block.2)

/-- A live block on the first page of a run belongs to the run. -/
theorem block_of_page (member : s ∈ live) (held : run ∈ h.held) (page : pgNo s.start = run.start) :
    h.IsBlock run s := by
  obtain ⟨run', held', block⟩ := ok.live_block s member
  have start := (ok.block_bounds held' block).2.2.2
  rwa [ok.run_unique held' held (by rw [← start, page])] at block

theorem live_apart {t : Span} (member : s ∈ live) (member' : t ∈ live)
    (different : s.start ≠ t.start) : Span.Apart s t := by
  obtain ⟨run, held, block⟩ := ok.live_block s member
  obtain ⟨run', held', block'⟩ := ok.live_block t member'
  exact ok.blocks_apart held held' block block' different

/-- A header is the start of a page; a block starts behind that of its own run and does not
reach the pages of another. -/
theorem header_apart {block : Span} (member : block ∈ live) (held : run ∈ h.held) :
    Span.Apart block ⟨pgSize * run.start, arenaSize⟩ := by
  obtain ⟨own, owned, isBlock⟩ := ok.live_block block member
  obtain ⟨low, high, -, -⟩ := ok.block_bounds owned isBlock
  by_cases same : own = run
  · subst same
    have behind : Span.stop ⟨pgSize * own.start, arenaSize⟩ ≤ block.start := low
    exact (Span.apart_of_le behind).symm
  · have separate := ok.apart.forall owned held same
    obtain ⟨-, some_, -⟩ := ok.bounds run held
    intro x inside header
    refine separate (pgNo x) ?_ ?_
    all_goals
      simp only [Span.mem_iff, Span.stop, pgNo, pgSize, arenaSize] at *
      omega

/-! ## Free blocks -/

/-- A block on a free list belongs to an arena of the descriptor. -/
theorem free_block {b : Nat} (below : d < h.descCnt) (member : b ∈ (h.descs d).freeList) :
    ∃ run ∈ h.held, (h.header run.start).desc = some d ∧ b ∈ h.blocksOf d run.start ∧
      h.IsBlock run ⟨b, (h.descs d).blockSize⟩ := by
  obtain ⟨⟨run, held, owner, block⟩, -⟩ := (ok.free_iff d below b).mp member
  exact ⟨run, held, owner, block, isBlock_of_mem owner block⟩

/-- The entries of a free list on the page of an arena are blocks of the arena. -/
theorem mem_filter_page (held : run ∈ h.held) {b : Nat} (below : d < h.descCnt)
    (member : b ∈ (h.descs d).freeList) (page : pgNo b = run.start) :
    b ∈ h.blocksOf d run.start := by
  obtain ⟨run', held', -, block', -⟩ := ok.free_block below member
  have same : run' = run := ok.run_unique held' held (by
    rw [← page, pgNo_block (ok.descs d below) block'])
  rwa [same] at block'

theorem filter_page_subperm (held : run ∈ h.held) (below : d < h.descCnt) :
    ((h.descs d).freeList.filter fun b => pgNo b = run.start).Subperm (h.blocksOf d run.start) := by
  refine subperm_of_subset ((ok.nodup d below).filter _) fun b member => ?_
  obtain ⟨inList, page⟩ := mem_filter.mp member
  exact ok.mem_filter_page held below inList (by simpa using page)

theorem freeIn_le (held : run ∈ h.held) (below : d < h.descCnt) :
    h.freeIn d run.start ≤ (h.descs d).blocksPerArena := by
  have length := (ok.filter_page_subperm held below).length_le
  rw [← countP_eq_length_filter, blocksOf, length_map, length_range] at length
  exact length

/-- The counter is at its maximum exactly when all blocks of the arena are free. -/
theorem freeIn_eq_iff (held : run ∈ h.held) (below : d < h.descCnt) :
    h.freeIn d run.start = (h.descs d).blocksPerArena ↔
      ∀ b ∈ h.blocksOf d run.start, b ∈ (h.descs d).freeList := by
  have length : (h.blocksOf d run.start).length = (h.descs d).blocksPerArena := by
    rw [blocksOf, length_map, length_range]
  have inside := ok.filter_page_subperm held below
  constructor
  · intro full b block
    have perm := inside.perm_of_length_le (by
      rw [length, ← full, freeIn, countP_eq_length_filter])
    exact (mem_filter.mp (perm.mem_iff.mpr block)).1
  · intro all
    refine Nat.le_antisymm (ok.freeIn_le held below) ?_
    have back : (h.blocksOf d run.start).Subperm
        ((h.descs d).freeList.filter fun b => pgNo b = run.start) :=
      subperm_of_subset (nodup_blocksOf (ok.descs d below) run.start) fun b block =>
        mem_filter.mpr ⟨all b block, by simpa using pgNo_block (ok.descs d below) block⟩
    rw [← length, freeIn, countP_eq_length_filter]
    exact back.length_le

end Layout

/-! ## Changing one arena -/

/-- The two heaps differ only in the run of pages that starts at `page` and in its blocks. -/
structure Elsewhere (h h' : Heap) (live live' : List Span) (page : Nat) : Prop where
  descCnt : h'.descCnt = h.descCnt
  blockSize : ∀ d, (h'.descs d).blockSize = (h.descs d).blockSize
  blocksPerArena : ∀ d, (h'.descs d).blocksPerArena = (h.descs d).blocksPerArena
  held : ∀ run : Span, run.start ≠ page → (run ∈ h'.held ↔ run ∈ h.held)
  header : ∀ a, a ≠ page → h'.header a = h.header a
  free : ∀ d < h.descCnt, ∀ b, pgNo b ≠ page →
    (b ∈ (h'.descs d).freeList ↔ b ∈ (h.descs d).freeList)
  live : ∀ s : Span, pgNo s.start ≠ page → (s ∈ live' ↔ s ∈ live)

/-- What `Layout` says about the run of pages that starts at `page`, and about the lists. -/
structure Here (h : Heap) (live : List Span) (page : Nat) : Prop where
  apart : h.held.Pairwise Span.Apart
  run : ∀ run ∈ h.held, run.start = page →
    (0 < run.start ∧ 0 < run.count ∧ run.stop ≤ 1048576) ∧
    (h.header page).magic = arenaMagic ∧
    ((h.header page).desc = none → (h.header page).freeCnt = run.count ∧ bigBlock run ∈ live) ∧
    ∀ d, (h.header page).desc = some d →
      d < h.descCnt ∧ run.count = 1 ∧ (h.header page).freeCnt = h.freeIn d page
  nodup : ∀ d < h.descCnt, (h.descs d).freeList.Nodup
  free_iff : ∀ d < h.descCnt, ∀ b, pgNo b = page → (b ∈ (h.descs d).freeList ↔
    (∃ run ∈ h.held, run.start = page ∧ (h.header page).desc = some d ∧ b ∈ h.blocksOf d page) ∧
      b ∉ live.map Span.start)
  live_block : ∀ s ∈ live, pgNo s.start = page → ∃ run ∈ h.held, run.start = page ∧ h.IsBlock run s
  live_nodup : (live.map Span.start).Nodup

namespace Elsewhere
variable {h h' : Heap} {live live' : List Span} {page : Nat}
  (frame : Elsewhere h h' live live' page)
include frame

theorem blocksOf (d a : Nat) : h'.blocksOf d a = h.blocksOf d a := by
  simp only [Heap.blocksOf, frame.blockSize, frame.blocksPerArena]

theorem isBlock {run s : Span} (other : run.start ≠ page) : h'.IsBlock run s ↔ h.IsBlock run s := by
  simp only [IsBlock, frame.header _ other, frame.blockSize, frame.blocksOf]

theorem desc_ok {d : Nat} (ok : (h.descs d).Ok) : (h'.descs d).Ok :=
  ⟨by rw [frame.blockSize]; exact ok.pos, by rw [frame.blockSize]; exact ok.elem,
    by rw [frame.blockSize]; exact ok.small,
    by rw [frame.blockSize, frame.blocksPerArena]; exact ok.blocks⟩

theorem live_start {b : Nat} (other : pgNo b ≠ page) :
    b ∈ live'.map Span.start ↔ b ∈ live.map Span.start := by
  simp only [mem_map]
  refine exists_congr fun s => and_congr_left ?_
  rintro rfl
  exact frame.live s other

/-- Lists without duplicates that have the same blocks on a page have as many there. -/
theorem freeIn {d a : Nat} (below : d < h.descCnt) (fresh : (h.descs d).freeList.Nodup)
    (fresh' : (h'.descs d).freeList.Nodup) (other : a ≠ page) : h'.freeIn d a = h.freeIn d a := by
  simp only [Heap.freeIn, countP_eq_length_filter]
  refine ((perm_ext_iff_of_nodup (fresh'.filter _) (fresh.filter _)).mpr ?_).length_eq
  intro b
  simp only [mem_filter, decide_eq_true_eq]
  refine and_congr_left fun here => ?_
  exact frame.free d below b (by rwa [here])

/-- If the run that starts at `page` is in order, so is the heap. -/
theorem layout (ok : h.Layout live) (here : h'.Here live' page) : h'.Layout live' := by
  have descs : ∀ d < h'.descCnt, (h'.descs d).Ok := by
    intro d below
    rw [frame.descCnt] at below
    exact frame.desc_ok (ok.descs d below)
  refine ⟨descs, here.apart, ?_, ?_, ?_, ?_, here.nodup, ?_, ?_, here.live_nodup⟩
  · intro run held
    by_cases same : run.start = page
    · exact (here.run run held same).1
    · exact ok.bounds run ((frame.held run same).mp held)
  · intro run held
    by_cases same : run.start = page
    · rw [same]
      exact (here.run run held same).2.1
    · rw [frame.header _ same]
      exact ok.magic run ((frame.held run same).mp held)
  · intro run held none_
    by_cases same : run.start = page
    · rw [same] at none_ ⊢
      exact (here.run run held same).2.2.1 none_
    · have old := (frame.held run same).mp held
      rw [frame.header _ same] at none_ ⊢
      obtain ⟨count, big⟩ := ok.big run old none_
      have block : h.IsBlock run (bigBlock run) := by simp only [IsBlock, none_]
      have start := (ok.block_bounds old block).2.2.2
      exact ⟨count, (frame.live _ (by rwa [start])).mpr big⟩
  · intro run held d owner
    by_cases same : run.start = page
    · rw [same] at owner ⊢
      exact (here.run run held same).2.2.2 d owner
    · rw [frame.header _ same] at owner ⊢
      obtain ⟨below, one, count⟩ := ok.small run ((frame.held run same).mp held) d owner
      have below' : d < h'.descCnt := by rwa [frame.descCnt]
      exact ⟨below', one, count.trans
        (frame.freeIn below (ok.nodup d below) (here.nodup d below') same).symm⟩
  · intro d below b
    have below' : d < h.descCnt := by rwa [← frame.descCnt]
    by_cases same : pgNo b = page
    · rw [here.free_iff d below b same]
      refine and_congr_left fun _ => exists_congr fun run => and_congr_right fun held => ?_
      constructor
      · rintro ⟨rfl, both⟩
        exact both
      · rintro ⟨owner, block⟩
        have start : run.start = page := by rw [← same, pgNo_block (descs d below) block]
        rw [start] at owner block
        exact ⟨start, owner, block⟩
    · rw [frame.free d below' b same, ok.free_iff d below' b, frame.live_start same]
      refine and_congr_left fun _ => exists_congr fun run => ?_
      rw [frame.blocksOf]
      constructor
      · rintro ⟨held, owner, block⟩
        have other : run.start ≠ page := by rwa [← pgNo_block (ok.descs d below') block]
        rw [frame.held run other, frame.header _ other]
        exact ⟨held, owner, block⟩
      · rintro ⟨held, owner, block⟩
        have other : run.start ≠ page := by rwa [← pgNo_block (ok.descs d below') block]
        rw [frame.held run other] at held
        rw [frame.header _ other] at owner
        exact ⟨held, owner, block⟩
  · intro s member
    by_cases same : pgNo s.start = page
    · obtain ⟨run, held, -, block⟩ := here.live_block s member same
      exact ⟨run, held, block⟩
    · obtain ⟨run, held, block⟩ := ok.live_block s ((frame.live s same).mp member)
      have other : run.start ≠ page := by
        rw [← (ok.block_bounds held block).2.2.2]
        exact same
      exact ⟨run, (frame.held run other).mpr held, (frame.isBlock other).mpr block⟩

end Elsewhere

/-! ## Taking and returning a block -/

/-- The runs other than the one given back are held as before. -/
theorem mem_erase_held {h : Heap} {run run' : Span} (other : run'.start ≠ run.start) :
    run' ∈ h.held.erase run ↔ run' ∈ h.held := by
  refine mem_erase_of_ne ?_
  rintro rfl
  exact other rfl

namespace Layout
variable {h : Heap} {live : List Span} (ok : h.Layout live)
include ok
variable {d a : Nat} {run : Span}

/-- A new free list and a new counter for one arena, and other live blocks on its page. -/
theorem update (below : d < h.descCnt) (held : run ∈ h.held)
    (owner : (h.header run.start).desc = some d) {list : List Nat} {live' : List Span} {n : Nat}
    (fresh : list.Nodup)
    (elsewhere : ∀ b, pgNo b ≠ run.start → (b ∈ list ↔ b ∈ (h.descs d).freeList))
    (members : ∀ b, pgNo b = run.start →
      (b ∈ list ↔ b ∈ h.blocksOf d run.start ∧ b ∉ live'.map Span.start))
    (count : n = list.countP fun b => pgNo b = run.start)
    (same : ∀ s : Span, pgNo s.start ≠ run.start → (s ∈ live' ↔ s ∈ live))
    (blocks : ∀ s ∈ live', pgNo s.start = run.start → h.IsBlock run s)
    (nodup : (live'.map Span.start).Nodup) :
    ((h.setFreeList d list).setFreeCnt run.start n).Layout live' := by
  have frame : Elsewhere h ((h.setFreeList d list).setFreeCnt run.start n) live live'
      run.start := by
    refine ⟨rfl, by simp, by simp, fun _ _ => Iff.rfl, fun a other => ?_,
      fun d' _ b other => ?_, same⟩
    · simp [setFreeCnt, other]
    · simp only [setFreeCnt_descs, setFreeList_freeList]
      split
      · rename_i equal
        rw [equal]
        exact elsewhere b other
      · rfl
  refine frame.layout ok ⟨ok.apart, fun run' held' start => ?_, fun d' below' => ?_,
    fun d' below' b here => ?_, fun s member here => ?_, nodup⟩
  · obtain rfl := ok.run_unique held' held start
    refine ⟨ok.bounds run' held, by simpa using ok.magic run' held, fun none_ => ?_,
      fun d' owner' => ?_⟩
    · simp only [setFreeCnt_desc, setFreeList_header, owner] at none_
      cases none_
    · simp only [setFreeCnt_desc, setFreeList_header, owner, Option.some.injEq] at owner'
      subst owner'
      refine ⟨below, (ok.small run' held d owner).2.1, ?_⟩
      rw [setFreeCnt_freeCnt, if_pos rfl, freeIn]
      simpa using count
  · simp only [setFreeCnt_descs, setFreeList_freeList]
    split
    · exact fresh
    · exact ok.nodup d' below'
  · simp only [setFreeCnt_descs, setFreeList_freeList, setFreeCnt_held, setFreeList_held,
      setFreeCnt_desc, setFreeList_header, setFreeCnt_blocksOf, setFreeList_blocksOf, owner,
      Option.some.injEq]
    split
    · rename_i equal
      rw [members b here, equal]
      refine and_congr_left fun _ => ⟨fun block => ⟨run, held, rfl, rfl, block⟩, ?_⟩
      rintro ⟨-, -, -, -, block⟩
      exact block
    · rename_i different
      constructor
      · intro free
        obtain ⟨run', held', owner', block', -⟩ := ok.free_block below' free
        have start : run'.start = run.start := by
          rw [← here, pgNo_block (ok.descs d' below') block']
        rw [start, owner] at owner'
        exact absurd (Option.some.inj owner').symm different
      · rintro ⟨⟨-, -, -, owner', -⟩, -⟩
        exact absurd owner'.symm different
  · exact ⟨run, held, rfl, by simpa using blocks s member here⟩

/-- Taking the first block of a free list. -/
theorem pop {b : Nat} {rest : List Nat} (below : d < h.descCnt)
    (list : (h.descs d).freeList = b :: rest) (held : run ∈ h.held)
    (owner : (h.header run.start).desc = some d) (block : b ∈ h.blocksOf d run.start) {n : Nat}
    (count : (h.header run.start).freeCnt = n + 1) :
    ((h.setFreeList d rest).setFreeCnt run.start n).Layout
      (⟨b, (h.descs d).blockSize⟩ :: live) := by
  have page : pgNo b = run.start := pgNo_block (ok.descs d below) block
  have free : b ∈ (h.descs d).freeList := by
    rw [list]
    exact mem_cons_self
  obtain ⟨unused, fresh⟩ := nodup_cons.mp (list ▸ ok.nodup d below)
  have total := (ok.small run held d owner).2.2
  rw [freeIn, list, countP_cons] at total
  have elsewhere : ∀ x, pgNo x ≠ run.start → x ≠ b := by
    rintro x other rfl
    exact other page
  refine ok.update below held owner fresh (fun x other => ?_) (fun x here => ?_) ?_
    (fun s other => ?_) (fun s member here => ?_) ?_
  · rw [list, mem_cons, or_iff_right (elsewhere x other)]
  · have before := ok.free_iff d below x
    rw [list, mem_cons] at before
    simp only [map_cons, mem_cons, not_or]
    constructor
    · intro member
      refine ⟨ok.mem_filter_page held below (by rw [list]; exact .tail b member) here, ?_,
        (before.mp (.inr member)).2⟩
      rintro rfl
      exact unused member
    · rintro ⟨arena, different, notIn⟩
      exact (before.mpr ⟨⟨run, held, owner, arena⟩, notIn⟩).resolve_left different
  · simp only [page, decide_true, if_true] at total
    omega
  · rw [mem_cons, or_iff_right]
    rintro rfl
    exact other page
  · rcases mem_cons.mp member with rfl | old
    · exact isBlock_of_mem owner block
    · exact ok.block_of_page old held here
  · rw [map_cons]
    exact nodup_cons.mpr ⟨((ok.free_iff d below b).mp free).2, ok.live_nodup⟩

/-- Returning a live block of an arena to the free list. -/
theorem push {s : Span} (member : s ∈ live) (held : run ∈ h.held)
    (owner : (h.header run.start).desc = some d) (block : h.IsBlock run s) :
    ((h.setFreeList d (s.start :: (h.descs d).freeList)).setFreeCnt run.start
      ((h.header run.start).freeCnt + 1)).Layout (Blocks.drop live (some s.start)) := by
  obtain ⟨below, -, total⟩ := ok.small run held d owner
  have page : pgNo s.start = run.start := (ok.block_bounds held block).2.2.2
  have address : s.start ∈ h.blocksOf d run.start := by
    simp only [IsBlock, owner] at block
    exact block.2
  have elsewhere : ∀ x, pgNo x ≠ run.start → x ≠ s.start := by
    rintro x other rfl
    exact other page
  refine ok.update below held owner ?_ (fun x other => ?_) (fun x here => ?_) ?_
    (fun r other => ?_) (fun r kept here => ?_) ?_
  · refine nodup_cons.mpr ⟨fun free => ?_, ok.nodup d below⟩
    exact ((ok.free_iff d below s.start).mp free).2 (mem_map_of_mem member)
  · rw [mem_cons, or_iff_right (elsewhere x other)]
  · rw [mem_cons, Blocks.mem_drop_start]
    constructor
    · rintro (rfl | free)
      · exact ⟨address, fun both => both.2 rfl⟩
      · exact ⟨ok.mem_filter_page held below free here,
          fun both => ((ok.free_iff d below x).mp free).2 both.1⟩
    · rintro ⟨arena, notIn⟩
      by_cases equal : x = s.start
      · exact .inl equal
      · exact .inr ((ok.free_iff d below x).mpr
          ⟨⟨run, held, owner, arena⟩, fun old => notIn ⟨old, equal⟩⟩)
  · rw [countP_cons, total, freeIn]
    simp [page]
  · rw [Blocks.mem_drop]
    exact ⟨fun both => both.1, fun old => ⟨old, elsewhere _ other⟩⟩
  · exact ok.block_of_page (Blocks.mem_drop.mp kept).1 held here
  · exact ok.live_nodup.sublist (filter_sublist.map Span.start)

/-! ## Adding and giving back pages -/

/-- Nothing of the heap lies on a page it does not hold. -/
theorem vacant {pageCnt : Nat} (some_ : 0 < pageCnt)
    (new : ∀ run ∈ h.held, Span.Apart ⟨a, pageCnt⟩ run) : (∀ run ∈ h.held, run.start ≠ a) ∧
    (∀ d < h.descCnt, ∀ b ∈ (h.descs d).freeList, pgNo b ≠ a) ∧
    ∀ s ∈ live, pgNo s.start ≠ a := by
  have runs : ∀ run ∈ h.held, run.start ≠ a := by
    rintro run held rfl
    obtain ⟨-, count, -⟩ := ok.bounds run held
    refine new run held run.start ?_ ?_
    all_goals
      simp only [Span.mem_iff, Span.stop]
      omega
  refine ⟨runs, fun d below b member => ?_, fun s member => ?_⟩
  · obtain ⟨run, held, -, block, -⟩ := ok.free_block below member
    rw [pgNo_block (ok.descs d below) block]
    exact runs run held
  · obtain ⟨run, held, block⟩ := ok.live_block s member
    rw [(ok.block_bounds held block).2.2.2]
    exact runs run held

/-- A new arena, with all of its blocks on the free list. -/
theorem addArena (below : d < h.descCnt) (empty : (h.descs d).freeList = []) (pos : 0 < a)
    (high : a + 1 ≤ 1048576) (new : ∀ run ∈ h.held, Span.Apart ⟨a, 1⟩ run) :
    (((h.obtain a 1).setHeader a ⟨arenaMagic, some d, (h.descs d).blocksPerArena⟩).setFreeList d
      (h.blocksOf d a)).Layout live := by
  obtain ⟨runs, frees, lives⟩ := ok.vacant Nat.one_pos new
  have desc := ok.descs d below
  have frame : Elsewhere h (((h.obtain a 1).setHeader a
      ⟨arenaMagic, some d, (h.descs d).blocksPerArena⟩).setFreeList d (h.blocksOf d a))
      live live a := by
    refine ⟨rfl, by simp, by simp, fun run other => ?_, fun a' other => ?_,
      fun d' _ b other => ?_, fun _ _ => Iff.rfl⟩
    · simp only [setFreeList_held, setHeader_held, obtain_held, mem_cons]
      refine or_iff_right ?_
      rintro rfl
      exact other rfl
    · simp [other]
    · rw [setFreeList_freeList]
      split
      · rename_i equal
        rw [equal, empty]
        simp only [not_mem_nil, iff_false]
        exact fun block => other (pgNo_block desc block)
      · rfl
  refine frame.layout ok ⟨?_, fun run held start => ?_, fun d' below' => ?_,
    fun d' below' b here => ?_, fun s member here => ?_, ok.live_nodup⟩
  · exact pairwise_cons.mpr ⟨new, ok.apart⟩
  · have only : run = ⟨a, 1⟩ :=
      (mem_cons.mp held).resolve_right fun old => runs run old start
    subst only
    refine ⟨⟨pos, Nat.one_pos, high⟩, by simp, fun none_ => by simp at none_, fun d' owner => ?_⟩
    simp only [setFreeList_header, setHeader_header, Function.update_self,
      Option.some.injEq] at owner ⊢
    subst owner
    refine ⟨below, trivial, ?_⟩
    rw [freeIn, setFreeList_freeList_self, countP_eq_length.mpr, blocksOf, length_map,
      length_range]
    exact fun b block => by simpa using pgNo_block desc block
  · rw [setFreeList_freeList]
    split
    · exact nodup_blocksOf desc a
    · exact ok.nodup d' below'
  · have notLive : b ∉ live.map Span.start := by
      intro member
      obtain ⟨s, old, rfl⟩ := mem_map.mp member
      exact lives s old here
    rw [setFreeList_freeList, frame.blocksOf]
    simp only [setFreeList_held, setHeader_held, obtain_held, setFreeList_header, setHeader_header,
      Function.update_self, Option.some.injEq, notLive, not_false_eq_true, and_true]
    split
    · rename_i equal
      subst equal
      refine ⟨fun block => ⟨⟨a, 1⟩, mem_cons_self, rfl, rfl, block⟩, ?_⟩
      rintro ⟨-, -, -, -, block⟩
      exact block
    · rename_i different
      constructor
      · exact fun free => absurd here (frees d' below' b free)
      · rintro ⟨-, -, -, equal, -⟩
        exact absurd equal.symm different
  · exact absurd here (lives s member)

/-- A new run of pages for one big block. -/
theorem addBig {pageCnt : Nat} (some_ : 0 < pageCnt) (pos : 0 < a) (high : a + pageCnt ≤ 1048576)
    (new : ∀ run ∈ h.held, Span.Apart ⟨a, pageCnt⟩ run) :
    ((h.obtain a pageCnt).setHeader a ⟨arenaMagic, none, pageCnt⟩).Layout
      (bigBlock ⟨a, pageCnt⟩ :: live) := by
  obtain ⟨runs, frees, lives⟩ := ok.vacant some_ new
  have page : pgNo (bigBlock ⟨a, pageCnt⟩).start = a := by
    simp only [bigBlock, pgNo, pgSize, arenaSize]
    omega
  have frame : Elsewhere h ((h.obtain a pageCnt).setHeader a ⟨arenaMagic, none, pageCnt⟩)
      live (bigBlock ⟨a, pageCnt⟩ :: live) a := by
    refine ⟨rfl, fun _ => rfl, fun _ => rfl, fun run other => ?_, fun a' other => ?_,
      fun _ _ _ _ => Iff.rfl, fun s other => ?_⟩
    · simp only [setHeader_held, obtain_held, mem_cons]
      refine or_iff_right ?_
      rintro rfl
      exact other rfl
    · simp [other]
    · rw [mem_cons]
      refine or_iff_right ?_
      rintro rfl
      exact other page
  refine frame.layout ok ⟨?_, fun run held start => ?_, ok.nodup,
    fun d below b here => ?_, fun s member here => ?_, ?_⟩
  · exact pairwise_cons.mpr ⟨new, ok.apart⟩
  · have only : run = ⟨a, pageCnt⟩ :=
      (mem_cons.mp held).resolve_right fun old => runs run old start
    subst only
    refine ⟨⟨pos, some_, high⟩, by simp, fun _ => ⟨by simp, mem_cons_self⟩,
      fun d owner => by simp at owner⟩
  · simp only [setHeader_header, Function.update_self, reduceCtorEq, false_and, and_false,
      exists_false, iff_false]
    exact fun free => frees d below b free here
  · have only : s = bigBlock ⟨a, pageCnt⟩ :=
      (mem_cons.mp member).resolve_right fun old => lives s old here
    exact ⟨⟨a, pageCnt⟩, mem_cons_self, rfl, by simp [IsBlock, only]⟩
  · rw [map_cons]
    refine nodup_cons.mpr ⟨fun member => ?_, ok.live_nodup⟩
    obtain ⟨s, old, start⟩ := mem_map.mp member
    exact lives s old (by rw [start, page])

/-- A run of pages is held once. -/
theorem start_ne_of_mem_erase {run' : Span} (held : run ∈ h.held) (kept : run' ∈ h.held.erase run) :
    run'.start ≠ run.start := by
  intro start
  have split : (run :: h.held.erase run).Pairwise Span.Apart :=
    (perm_cons_erase held).pairwise ok.apart fun first => first.symm
  have same := ok.run_unique (mem_of_mem_erase kept) held start
  subst same
  obtain ⟨-, count, -⟩ := ok.bounds run' held
  refine (pairwise_cons.mp split).1 run' kept run'.start ?_ ?_
  all_goals
    simp only [Span.mem_iff, Span.stop]
    omega

/-- Giving back a run of pages on which no block is left, free or live. -/
theorem vacate (held : run ∈ h.held) {h' : Heap} {live' : List Span}
    (frame : Elsewhere h h' live live' run.start) (erased : h'.held = h.held.erase run)
    (nodup : ∀ d < h'.descCnt, (h'.descs d).freeList.Nodup)
    (frees : ∀ d < h'.descCnt, ∀ b ∈ (h'.descs d).freeList, pgNo b ≠ run.start)
    (lives : ∀ s ∈ live', pgNo s.start ≠ run.start) (live_nodup : (live'.map Span.start).Nodup) :
    h'.Layout live' := by
  have runs : ∀ run' ∈ h'.held, run'.start ≠ run.start := by
    intro run' held'
    rw [erased] at held'
    exact ok.start_ne_of_mem_erase held held'
  have rest : (h.held.erase run).Pairwise Span.Apart := ok.apart.sublist erase_sublist
  refine frame.layout ok ⟨erased ▸ rest, fun run' held' start => absurd start (runs run' held'),
    nodup, fun d below b here => ?_, fun s member here => absurd here (lives s member), live_nodup⟩
  constructor
  · exact fun free => absurd here (frees d below b free)
  · rintro ⟨⟨run', held', start, -⟩, -⟩
    exact absurd start (runs run' held')

/-- Giving back an arena whose blocks are all free. -/
theorem removeArena (held : run ∈ h.held) (owner : (h.header run.start).desc = some d)
    (all : ∀ b ∈ h.blocksOf d run.start, b ∈ (h.descs d).freeList) :
    ((h.setFreeList d ((h.descs d).freeList.diff (h.blocksOf d run.start))).giveBack run).Layout
      live := by
  obtain ⟨below, -, -⟩ := ok.small run held d owner
  have left : ∀ b, b ∈ (h.descs d).freeList.diff (h.blocksOf d run.start) ↔
      b ∈ (h.descs d).freeList ∧ b ∉ h.blocksOf d run.start :=
    fun b => (ok.nodup d below).mem_sdiff_iff
  have frame : Elsewhere h ((h.setFreeList d
      ((h.descs d).freeList.diff (h.blocksOf d run.start))).giveBack run) live live run.start := by
    refine ⟨rfl, by simp, by simp, fun run' other => mem_erase_held other, fun _ _ => rfl,
      fun d' _ b other => ?_, fun _ _ => Iff.rfl⟩
    rw [giveBack_descs, setFreeList_freeList]
    split
    · rename_i equal
      rw [left, equal]
      refine and_iff_left fun block => other ?_
      exact pgNo_block (ok.descs d below) block
    · rfl
  refine ok.vacate held frame rfl (fun d' below' => ?_) (fun d' below' b member here => ?_)
    (fun s member here => ?_) ok.live_nodup
  · rw [giveBack_descs, setFreeList_freeList]
    split
    · exact (ok.nodup d below).diff
    · exact ok.nodup d' below'
  · rw [giveBack_descs, setFreeList_freeList] at member
    split at member
    · obtain ⟨free, notBlock⟩ := (left b).mp member
      exact notBlock (ok.mem_filter_page held below free here)
    · rename_i different
      obtain ⟨run', held', owner', block', -⟩ := ok.free_block below' member
      have start : run'.start = run.start := by
        rw [← here, pgNo_block (ok.descs d' below') block']
      rw [start, owner] at owner'
      exact different (Option.some.inj owner').symm
  · have block := ok.block_of_page member held here
    simp only [IsBlock, owner] at block
    exact ((ok.free_iff d below s.start).mp (all _ block.2)).2 (mem_map_of_mem member)

/-- Giving back the pages of a big block. -/
theorem removeBig (held : run ∈ h.held) (owner : (h.header run.start).desc = none) :
    (h.giveBack run).Layout (Blocks.drop live (some (bigBlock run).start)) := by
  have block : h.IsBlock run (bigBlock run) := by simp only [IsBlock, owner]
  have page := (ok.block_bounds held block).2.2.2
  refine ok.vacate held ⟨rfl, fun _ => rfl, fun _ => rfl,
    fun run' other => mem_erase_held other, fun _ _ => rfl, fun _ _ _ _ => Iff.rfl,
    fun s other => ?_⟩ rfl ok.nodup (fun d below b member here => ?_)
    (fun s member here => ?_) (ok.live_nodup.sublist (filter_sublist.map Span.start))
  · rw [Blocks.mem_drop]
    refine and_iff_left fun equal => other ?_
    rw [equal, page]
  · obtain ⟨run', held', owner', block', -⟩ := ok.free_block below member
    have start : run'.start = run.start := by
      rw [← here, pgNo_block (ok.descs d below) block']
    rw [start, owner] at owner'
    cases owner'
  · obtain ⟨old, different⟩ := Blocks.mem_drop.mp member
    have block' := ok.block_of_page old held here
    simp only [IsBlock, owner] at block'
    exact different (congrArg Span.start block')

end Layout

end Heap
end Calendarizador.Source
