import Calendarizador.Invariant.Arenas

/-!
# Invariant of the block allocator

Each call keeps `Layout` and leaves no arena that is entirely unused. The loops that put the
blocks of an arena on the free list and take them off again are summed up first.
-/
namespace Calendarizador.Source
open Foundation List

namespace Heap

theorem arenaToBlock_eq {h : Heap} {a d idx : Nat} (pos : a ≠ 0)
    (magic : (h.header a).magic = arenaMagic) (owner : (h.header a).desc = some d)
    (below : idx < (h.descs d).blocksPerArena) :
    h.arenaToBlock a idx = .ok (pgSize * a + arenaSize + idx * (h.descs d).blockSize) := by
  unfold arenaToBlock
  rw [ensure_bind pos, ensure_bind magic, owner]
  exact ensure_bind below _

section
variable {h : Heap} {a d : Nat} (pos : a ≠ 0) (magic : (h.header a).magic = arenaMagic)
  (owner : (h.header a).desc = some d)
include pos magic owner

/-- The loop that puts blocks on the free list, by induction on the number of rounds. -/
theorem pushLoop_eq {n : Nat} (most : n ≤ (h.descs d).blocksPerArena) :
    (List.range n).foldlM (fun h idx => h.pushBlock d a idx) h =
      .ok (h.setFreeList d ((h.descs d).freeList ++ (List.range n).map fun idx =>
        pgSize * a + arenaSize + idx * (h.descs d).blockSize)) := by
  induction n with
  | zero => simp [pure, Except.pure]
  | succ n ih =>
    rw [range_succ, foldlM_append, ih (by omega)]
    simp only [foldlM_cons, foldlM_nil, pushBlock, bind, Except.bind, map_append,
      map_cons, map_nil]
    rw [arenaToBlock_eq pos (by simpa using magic) (by simpa using owner)
      (by rw [setFreeList_blocksPerArena]; exact most)]
    simp [pure, Except.pure]

/-- The loop that takes blocks off the free list. -/
theorem removeLoop_eq (desc : (h.descs d).Ok) (fresh : (h.descs d).freeList.Nodup)
    (all : ∀ b ∈ h.blocksOf d a, b ∈ (h.descs d).freeList) {n : Nat}
    (most : n ≤ (h.descs d).blocksPerArena) :
    (List.range n).foldlM (fun h idx => h.removeBlock d a idx) h =
      .ok (h.setFreeList d ((h.descs d).freeList.diff ((List.range n).map fun idx =>
        pgSize * a + arenaSize + idx * (h.descs d).blockSize))) := by
  induction n with
  | zero => simp [pure, Except.pure]
  | succ n ih =>
    rw [range_succ, foldlM_append, ih (by omega)]
    simp only [foldlM_cons, foldlM_nil, removeBlock, bind, Except.bind, map_append,
      map_cons, map_nil]
    rw [arenaToBlock_eq pos (by simpa using magic) (by simpa using owner)
      (by rw [setFreeList_blocksPerArena]; exact most)]
    have still : pgSize * a + arenaSize + n * (h.descs d).blockSize ∈
        (h.descs d).freeList.diff ((List.range n).map fun idx =>
          pgSize * a + arenaSize + idx * (h.descs d).blockSize) := by
      refine fresh.mem_sdiff_iff.mpr ⟨all _ ?_, fun earlier => ?_⟩
      · exact mem_map.mpr ⟨n, mem_range.mpr most, rfl⟩
      · obtain ⟨idx, range, equal⟩ := mem_map.mp earlier
        have same := Nat.eq_of_mul_eq_mul_right desc.pos (Nat.add_left_cancel equal)
        have before := mem_range.mp range
        omega
    simp only [setFreeList_freeList_self, setFreeList_blockSize, ensure_pos still, pure,
      Except.pure, setFreeList_setFreeList, diff_append, diff_cons, diff_nil]

end

/-- `free_cnt--` of a counter that is not zero. -/
theorem sizeT_pred {n : Nat} (small : n < 4294967296) : sizeT (n + 1 + 4294967295) = n := by
  unfold sizeT
  omega

theorem blocksPerArena_lt {desc : Desc} (ok : desc.Ok) : desc.blocksPerArena ≤ 4084 := by
  rw [ok.blocks]
  exact Nat.div_le_self _ _

namespace Layout
variable {h : Heap} {live : List Span} (ok : h.Layout live)
include ok

theorem blockSize_eq {run s : Span} (held : run ∈ h.held) (block : h.IsBlock run s) :
    h.blockSize s.start = .ok s.count := by
  unfold blockSize
  rw [ok.blockToArena_eq held block]
  obtain ⟨-, some_, high⟩ := ok.bounds run held
  cases owner : (h.header run.start).desc with
  | none =>
    have count := (ok.big run held owner).1
    simp only [IsBlock, owner] at block
    simp only [bind, Except.bind, owner, count, block]
    simp only [Span.stop] at high
    refine congrArg Except.ok ?_
    simp only [bigBlock, sizeT, pgOfs, pgSize, arenaSize]
    omega
  | some d =>
    simp only [IsBlock, owner] at block
    simp only [bind, Except.bind, owner, block.1]

theorem blockSize_live {s : Span} (member : s ∈ live) : h.blockSize s.start = .ok s.count := by
  obtain ⟨run, held, block⟩ := ok.live_block s member
  exact ok.blockSize_eq held block

/-- Taking a block succeeds and yields a block of the descriptor that was not live. -/
theorem popBlock_spec {d b : Nat} {rest : List Nat} (below : d < h.descCnt)
    (list : (h.descs d).freeList = b :: rest) :
    ∃ run ∈ h.held, (h.header run.start).desc = some d ∧ pgNo b = run.start ∧
      (h.header run.start).freeCnt - 1 + 1 = (h.header run.start).freeCnt ∧
      h.popBlock d = .ok (some b, (h.setFreeList d rest).setFreeCnt run.start
        ((h.header run.start).freeCnt - 1)) ∧
      ((h.setFreeList d rest).setFreeCnt run.start ((h.header run.start).freeCnt - 1)).Layout
        (⟨b, (h.descs d).blockSize⟩ :: live) := by
  have free : b ∈ (h.descs d).freeList := by
    rw [list]
    exact mem_cons_self
  obtain ⟨run, held, owner, address, -⟩ := ok.free_block below free
  obtain ⟨-, -, count⟩ := ok.small run held d owner
  have most := ok.freeIn_le held below
  have few := blocksPerArena_lt (ok.descs d below)
  have page : pgNo b = run.start := pgNo_block (ok.descs d below) address
  have some_ : 0 < (h.header run.start).freeCnt := by
    rw [count, freeIn]
    exact countP_pos_iff.mpr ⟨b, free, by simpa using page⟩
  have pred : (h.header run.start).freeCnt = (h.header run.start).freeCnt - 1 + 1 := by omega
  have start := (ok.bounds run held).1
  have arena : (h.setFreeList d rest).blockToArena b = .ok run.start := by
    refine blockToArena_some page (by omega) (ok.magic run held) owner ?_
    rw [setFreeList_blockSize]
    exact aligned_of_mem (ok.descs d below) address
  refine ⟨run, held, owner, page, pred.symm, ?_, ok.pop below list held owner address pred⟩
  unfold popBlock
  rw [list]
  simp only [arena, bind, Except.bind, setFreeList_header]
  nth_rewrite 1 [pred]
  rw [sizeT_pred (by omega)]

end Layout

/-! ## Obtaining a block -/

theorem bigPages_pos {size : Nat} (small : size ≤ 2147483648) : 0 < bigPages size := by
  simp only [bigPages, sizeT, pgSize, arenaSize]
  omega

/-- Only the header added to the size may wrap to another number of pages than none. -/
theorem le_bigPages {size : Nat} (some_ : 0 < bigPages size) (small : size ≤ 4294967284) :
    size ≤ pgSize * bigPages size - arenaSize := by
  simp only [bigPages, sizeT, pgSize, arenaSize] at some_ ⊢
  omega

/-- What `malloc` has done when it returns the block `b` of `n` bytes. -/
structure Gets (h : Heap) (live : List Span) (size b n : Nat) (after : Heap) : Prop where
  layout : after.Layout (⟨b, n⟩ :: live)
  retained : after.Retained
  blockSize : after.blockSize b = .ok n
  enough : size ≤ 4294967284 → size ≤ n
  held : h.held <:+ after.held

namespace Layout
variable {h : Heap} {live : List Span} (ok : h.Layout live)
include ok
variable {size : Nat}

/-- Taking a block when every arena but that of the block has one in use. -/
theorem popBlock_gets {d : Nat} {rest : List Nat} {b : Nat} (below : d < h.descCnt)
    (list : (h.descs d).freeList = b :: rest) (enough : size ≤ (h.descs d).blockSize)
    (retained : ∀ run ∈ h.held, run.start ≠ pgNo b → ∀ d', (h.header run.start).desc = some d' →
      (h.header run.start).freeCnt < (h.descs d').blocksPerArena) :
    ∃ after, h.popBlock d = .ok (some b, after) ∧
      Gets h live size b (h.descs d).blockSize after := by
  obtain ⟨run, held, owner, page, pred, popped, layout⟩ := ok.popBlock_spec below list
  refine ⟨_, popped, layout, fun run' held' d' owner' => ?_, ?_, fun _ => enough,
    suffix_rfl⟩
  · simp only [setFreeCnt_desc, setFreeList_header] at owner'
    simp only [setFreeCnt_freeCnt, setFreeCnt_descs, setFreeList_header,
      setFreeList_blocksPerArena]
    split
    · rename_i same
      rw [same, owner, Option.some.injEq] at owner'
      subst owner'
      have most := ok.freeIn_le held below
      rw [← (ok.small run held d owner).2.2] at most
      omega
    · rename_i other
      exact retained run' held' (by rwa [page]) d' owner'
  · exact layout.blockSize_eq held (layout.block_of_page mem_cons_self held page)

/-- A big block. -/
theorem big_gets (retained : h.Retained) {a : Nat} (some_ : 0 < bigPages size) (pos : 0 < a)
    (high : a + bigPages size ≤ 1048576) (new : ∀ run ∈ h.held, Span.Apart ⟨a, bigPages size⟩ run) :
    Gets h live size (pgSize * a + arenaSize) (pgSize * bigPages size - arenaSize)
      ((h.obtain a (bigPages size)).setHeader a ⟨arenaMagic, none, bigPages size⟩) := by
  have layout := ok.addBig some_ pos high new
  refine ⟨layout, fun run held d owner => ?_, ?_, le_bigPages some_, suffix_cons _ _⟩
  · by_cases same : run.start = a
    · simp [same] at owner
    · have old : run ∈ h.held := (mem_cons.mp held).resolve_left fun new => by
        rw [new] at same
        exact same rfl
      simp only [setHeader_header, Function.update_of_ne same, obtain_header] at owner ⊢
      exact retained run old d owner
  · have block :
        ((h.obtain a (bigPages size)).setHeader a ⟨arenaMagic, none, bigPages size⟩).IsBlock
          ⟨a, bigPages size⟩ (bigBlock ⟨a, bigPages size⟩) := by simp [IsBlock]
    exact layout.blockSize_eq mem_cons_self block

/-- A block of a new arena. -/
theorem new_gets (retained : h.Retained) {a d : Nat} (below : d < h.descCnt)
    (enough : size ≤ (h.descs d).blockSize) (empty : (h.descs d).freeList = []) (pos : 0 < a)
    (high : a + 1 ≤ 1048576) (new : ∀ run ∈ h.held, Span.Apart ⟨a, 1⟩ run) :
    ∃ b after, ((h.obtain a 1).createArena d a >>= fun h => h.popBlock d) = .ok (some b, after) ∧
      Gets h live size b (h.descs d).blockSize after := by
  have desc := ok.descs d below
  have layout := ok.addArena below empty pos high new
  have created : (h.obtain a 1).createArena d a = .ok (((h.obtain a 1).setHeader a
      ⟨arenaMagic, some d, (h.descs d).blocksPerArena⟩).setFreeList d (h.blocksOf d a)) := by
    refine (pushLoop_eq (by omega) (by simp) (by simp) le_rfl).trans ?_
    simp only [setHeader_descs, obtain_descs, empty, nil_append]
    rfl
  have count : 0 < (h.descs d).blocksPerArena := by
    rw [desc.blocks]
    exact Nat.div_pos desc.small desc.pos
  obtain ⟨b, rest, list⟩ : ∃ b rest, h.blocksOf d a = b :: rest := by
    refine exists_cons_of_length_pos ?_
    rw [blocksOf, length_map, length_range]
    exact count
  have page : pgNo b = a := pgNo_block desc (by rw [list]; exact mem_cons_self)
  obtain ⟨after, popped, gets⟩ := layout.popBlock_gets (b := b) (d := d) below
    (by rw [setFreeList_freeList_self, list]) (by simpa using enough)
    (fun run held other d' owner => by
      rw [page] at other
      have old : run ∈ h.held := (mem_cons.mp held).resolve_left fun new => by
        rw [new] at other
        exact other rfl
      simp only [setFreeList_header, setHeader_header, Function.update_of_ne other,
        obtain_header, setFreeList_blocksPerArena, setHeader_descs, obtain_descs] at owner ⊢
      exact retained run old d' owner)
  refine ⟨b, after, ?_, ?_⟩
  · rw [created]
    exact popped
  · rw [setFreeList_blockSize] at gets
    exact ⟨gets.layout, gets.retained, gets.blockSize, fun _ => enough,
      (suffix_cons _ _).trans gets.held⟩

/-- `malloc` either changes nothing and returns `NULL`, or returns a block that was not live. -/
theorem malloc_spec (retained : h.Retained) {page : Option Nat}
    (answers : Blocks.Answers ⟨h, live⟩ size page) : h.malloc size page = .ok (none, h) ∨
      ∃ b n after, h.malloc size page = .ok (some b, after) ∧ Gets h live size b n after := by
  unfold malloc
  by_cases zero : size = 0
  · rw [if_pos zero]
    exact .inl rfl
  rw [if_neg zero]
  cases found : h.findDesc size with
  | none =>
    cases page with
    | none => exact .inl rfl
    | some a =>
      obtain ⟨pos, high, new⟩ := answers.2 a rfl
      have some_ := answers.1 a rfl
      simp only [pagesFor, found] at some_ high new
      exact .inr ⟨_, _, _, rfl, ok.big_gets retained some_ pos high new⟩
  | some d =>
    have enough : size ≤ (h.descs d).blockSize := by simpa using List.find?_some found
    have below : d < h.descCnt := mem_range.mp (mem_of_find?_eq_some found)
    cases list : (h.descs d).freeList with
    | nil =>
      cases page with
      | none => exact .inl (by simp [list])
      | some a =>
        obtain ⟨pos, high, new⟩ := answers.2 a rfl
        simp only [pagesFor, found] at high new
        obtain ⟨b, after, executed, gets⟩ :=
          ok.new_gets retained below enough list pos high new
        refine .inr ⟨b, _, after, ?_, gets⟩
        simpa [list] using executed
    | cons b rest =>
      obtain ⟨after, popped, gets⟩ := ok.popBlock_gets below list enough
        fun run held _ d' owner => retained run held d' owner
      refine .inr ⟨b, _, after, ?_, gets⟩
      simpa [list] using popped

end Layout

/-! ## Freeing a block -/

/-- What `free` has done with the live block `s`: its run of pages is given back exactly when
no other block of the run is live. -/
structure Frees (h : Heap) (live : List Span) (s : Span) (after : Heap) : Prop where
  layout : after.Layout (Blocks.drop live (some s.start))
  retained : after.Retained
  returned : ∃ run ∈ h.held, h.IsBlock run s ∧
    ((∃ r ∈ Blocks.drop live (some s.start), h.IsBlock run r) → after.held = h.held) ∧
    ((¬ ∃ r ∈ Blocks.drop live (some s.start), h.IsBlock run r) →
      after.held = h.held.erase run)

namespace Layout
variable {h : Heap} {live : List Span} (ok : h.Layout live)
include ok
variable {run s : Span} {d : Nat}

/-- An arena is entirely unused exactly when none of its blocks is live. -/
theorem unused_iff (held : run ∈ h.held) (owner : (h.header run.start).desc = some d) :
    (h.header run.start).freeCnt = (h.descs d).blocksPerArena ↔ ¬ ∃ r ∈ live, h.IsBlock run r := by
  obtain ⟨below, -, count⟩ := ok.small run held d owner
  rw [count, ok.freeIn_eq_iff held below]
  constructor
  · rintro all ⟨r, member, block⟩
    simp only [IsBlock, owner] at block
    exact ((ok.free_iff d below r.start).mp (all _ block.2)).2 (mem_map_of_mem member)
  · intro none_ b address
    refine (ok.free_iff d below b).mpr ⟨⟨run, held, owner, address⟩, fun used => none_ ?_⟩
    obtain ⟨r, member, rfl⟩ := mem_map.mp used
    exact ⟨r, member, ok.block_of_page member held (pgNo_block (ok.descs d below) address)⟩

/-- Giving back an arena none of whose blocks is live. -/
theorem destroyArena_spec (held : run ∈ h.held) (owner : (h.header run.start).desc = some d)
    (full : (h.header run.start).freeCnt = (h.descs d).blocksPerArena) :
    h.destroyArena d run.start = .ok ((h.setFreeList d
        ((h.descs d).freeList.diff (h.blocksOf d run.start))).giveBack run) ∧
      ((h.setFreeList d ((h.descs d).freeList.diff (h.blocksOf d run.start))).giveBack run).Layout
        live := by
  obtain ⟨below, one, count⟩ := ok.small run held d owner
  have all := (ok.freeIn_eq_iff held below).mp (count ▸ full)
  have start := (ok.bounds run held).1
  have whole : run = ⟨run.start, 1⟩ := by rw [← one]
  refine ⟨?_, ok.removeArena held owner all⟩
  unfold destroyArena
  rw [ensure_bind full, removeLoop_eq (by omega) (ok.magic run held) owner (ok.descs d below)
    (ok.nodup d below) all le_rfl]
  unfold release
  rw [← whole]
  exact ensure_bind held _

theorem free_small (retained : h.Retained) (member : s ∈ live) (held : run ∈ h.held)
    (block : h.IsBlock run s) (owner : (h.header run.start).desc = some d) :
    ∃ after, h.free (some s.start) = .ok after ∧ Frees h live s after := by
  obtain ⟨below, -, count⟩ := ok.small run held d owner
  have few := blocksPerArena_lt (ok.descs d below)
  have less := retained run held d owner
  have pushed := ok.push member held owner block
  have counter : sizeT ((h.header run.start).freeCnt + 1) = (h.header run.start).freeCnt + 1 :=
    sizeT_of_lt (by omega)
  unfold free
  dsimp only
  rw [ok.blockToArena_eq held block]
  simp only [bind, Except.bind, owner, setFreeList_header, counter]
  generalize given : (h.setFreeList d (s.start :: (h.descs d).freeList)).setFreeCnt run.start
    ((h.header run.start).freeCnt + 1) = h' at pushed ⊢
  have frame : h'.held = h.held ∧ (h'.header run.start).freeCnt = (h.header run.start).freeCnt + 1 ∧
      (∀ d, (h'.descs d).blocksPerArena = (h.descs d).blocksPerArena) ∧
      (∀ a, (h'.header a).desc = (h.header a).desc) ∧
      (∀ a, a ≠ run.start → (h'.header a).freeCnt = (h.header a).freeCnt) ∧
      ∀ run r, h'.IsBlock run r ↔ h.IsBlock run r := by
    subst given
    refine ⟨rfl, by simp [setFreeCnt_freeCnt], by simp, by simp, fun a other => ?_, by simp⟩
    rw [setFreeCnt_freeCnt, if_neg other]
    rfl
  obtain ⟨heldEq, freeCnt, sizes, descs, others, blocks⟩ := frame
  have owner' : (h'.header run.start).desc = some d := by rw [descs, owner]
  have held' : run ∈ h'.held := by rwa [heldEq]
  have unused := pushed.unused_iff held' owner'
  by_cases full : (h'.header run.start).freeCnt = (h'.descs d).blocksPerArena
  · obtain ⟨executed, layout⟩ := pushed.destroyArena_spec held' owner' full
    refine ⟨_, by rw [if_pos full.ge, executed], layout, fun run' kept d' owned => ?_, run, held,
      block, fun another => ?_, fun _ => by simp [heldEq]⟩
    · have other : run'.start ≠ run.start := pushed.start_ne_of_mem_erase held' kept
      have old : run' ∈ h.held := by
        rw [← heldEq]
        exact mem_of_mem_erase kept
      simp only [giveBack_header, setFreeList_header, giveBack_descs,
        setFreeList_blocksPerArena] at owned ⊢
      rw [others _ other, sizes]
      rw [descs] at owned
      exact retained run' old d' owned
    · simp only [← blocks] at another
      exact absurd another (unused.mp full)
  · have below' : ¬ (h'.descs d).blocksPerArena ≤ (h'.header run.start).freeCnt := by
      rw [sizes] at full ⊢
      omega
    refine ⟨h', by rw [if_neg below'], pushed, fun run' kept d' owned => ?_, run, held, block,
      fun _ => heldEq, fun none_ => ?_⟩
    · rw [descs] at owned
      rw [heldEq] at kept
      rw [sizes]
      by_cases same : run'.start = run.start
      · rw [same, owner, Option.some.injEq] at owned
        subst owned
        rw [same]
        rw [sizes] at below'
        omega
      · rw [others _ same]
        exact retained run' kept d' owned
    · simp only [← blocks] at none_
      exact absurd (unused.mpr none_) full

theorem free_big (retained : h.Retained) (held : run ∈ h.held) (block : h.IsBlock run s)
    (owner : (h.header run.start).desc = none) :
    ∃ after, h.free (some s.start) = .ok after ∧ Frees h live s after := by
  obtain ⟨count, -⟩ := ok.big run held owner
  have layout := ok.removeBig held owner
  have equal : s = bigBlock run := by simpa only [IsBlock, owner] using block
  unfold free
  dsimp only
  rw [ok.blockToArena_eq held block]
  simp only [bind, Except.bind, owner, count]
  refine ⟨h.giveBack run, ensure_bind held _, by rwa [equal], fun run' kept d owned => ?_, run,
    held, block, ?_, fun _ => rfl⟩
  · exact retained run' (mem_of_mem_erase kept) d owned
  · rintro ⟨r, member, other⟩
    simp only [IsBlock, owner] at other
    obtain ⟨-, different⟩ := Blocks.mem_drop.mp member
    exact absurd (by rw [other, equal]) different

theorem free_spec (retained : h.Retained) (member : s ∈ live) :
    ∃ after, h.free (some s.start) = .ok after ∧ Frees h live s after := by
  obtain ⟨run, held, block⟩ := ok.live_block s member
  cases owner : (h.header run.start).desc with
  | none => exact ok.free_big retained held block owner
  | some d => exact ok.free_small retained member held block owner

end Layout

/-! ## The descriptors `malloc_init` makes -/

/-- By induction on the room left for descriptors. -/
theorem initFrom_spec {h after : Heap} {blockSize room : Nat} (elem : 8 ≤ blockSize)
    (start : ∀ d < h.descCnt, (h.descs d).Ok ∧ (h.descs d).freeList = [])
    (made : h.initFrom blockSize room = .ok after) : after.held = h.held ∧
      ∀ d < after.descCnt, (after.descs d).Ok ∧ (after.descs d).freeList = [] := by
  induction room generalizing h blockSize with
  | zero =>
    unfold initFrom at made
    split at made
    · cases made
    · cases made
      exact ⟨rfl, start⟩
  | succ room ih =>
    unfold initFrom at made
    split at made
    · rename_i small
      have bound : blockSize ≤ 4084 := (show blockSize < 2048 from small).le.trans (by decide)
      have next : (h.addDesc ⟨blockSize, (pgSize - arenaSize) / blockSize, []⟩).initFrom
          (blockSize * 2) room = .ok after := made
      refine ih (show 8 ≤ blockSize * 2 by omega) (h := h.addDesc _) (fun d below => ?_) next
      by_cases last : d = h.descCnt
      · subst last
        simp only [addDesc_descs, Function.update_self]
        exact ⟨⟨Nat.lt_of_lt_of_le (by decide) elem, elem, bound, rfl⟩, trivial⟩
      · have before : d < h.descCnt := Nat.lt_of_le_of_ne (Nat.le_of_lt_succ below) last
        simpa [last] using start d before
    · cases made
      exact ⟨rfl, start⟩

theorem mallocInit_layout {h after : Heap} (none_ : h.descCnt = 0) (free : h.held = [])
    (made : h.mallocInit = .ok after) : after.Layout [] ∧ after.Retained := by
  have start : ∀ d < h.descCnt, (h.descs d).Ok ∧ (h.descs d).freeList = [] := by
    rw [none_]
    exact fun d below => absurd below (Nat.not_lt_zero d)
  obtain ⟨held, descs⟩ := initFrom_spec (by decide) start made
  rw [free] at held
  refine ⟨⟨fun d below => (descs d below).1, ?_, ?_, ?_, ?_, ?_, fun d below => ?_,
    fun d below b => ?_, by simp, by simp⟩, ?_⟩
  · rw [held]
    exact .nil
  · simp [held]
  · simp [held]
  · simp [held]
  · simp [held]
  · rw [(descs d below).2]
    exact .nil
  · simp [held, (descs d below).2]
  · simp [Retained, held]

end Heap

/-! ## Sequences of calls -/

namespace Blocks
variable {size : Nat}

structure Ok (s : Blocks) : Prop where
  layout : s.heap.Layout s.live
  retained : s.heap.Retained

variable {s : Blocks}

theorem keep_some (live : List Span) (b : Nat) (heap : Heap) : keep live (some b, heap) =
    (heap.blockSize b).map fun size => ⟨heap, ⟨b, size⟩ :: live⟩ := rfl

/-- The caller keeps what `malloc` returned. -/
theorem keep_gets {h heap : Heap} {live : List Span} {b n : Nat}
    (gets : h.Gets live size b n heap) :
    keep live (some b, heap) = .ok ⟨heap, ⟨b, n⟩ :: live⟩ ∧ Ok ⟨heap, ⟨b, n⟩ :: live⟩ := by
  refine ⟨?_, gets.layout, gets.retained⟩
  rw [keep_some, gets.blockSize]
  rfl

theorem Ok.malloc (ok : s.Ok) {page : Option Nat} (answers : s.Answers size page) :
    ∃ after, (s.heap.malloc size page >>= keep s.live) = .ok after ∧ after.Ok := by
  rcases ok.layout.malloc_spec ok.retained answers with
    failed | ⟨b, n, heap, executed, gets⟩
  · exact ⟨s, by rw [failed]; rfl, ok⟩
  · obtain ⟨kept, after⟩ := keep_gets gets
    exact ⟨_, by rw [executed]; exact kept, after⟩

theorem Ok.free (ok : s.Ok) {block : Option Nat} (owned : s.Owned block) :
    ∃ heap, s.heap.free block = .ok heap ∧ Ok ⟨heap, drop s.live block⟩ := by
  cases block with
  | none =>
    have all : drop s.live none = s.live := by simp [drop]
    exact ⟨s.heap, rfl, by rw [all]; exact ok.layout, ok.retained⟩
  | some b =>
    obtain ⟨r, member, rfl⟩ := owned b rfl
    obtain ⟨heap, executed, frees⟩ := ok.layout.free_spec ok.retained member
    exact ⟨heap, executed, frees.layout, frees.retained⟩

/-- Moving the contents of a live block to a new one. -/
theorem move_ok {old b n : Nat} {heap : Heap} (gets : s.heap.Gets s.live size b n heap)
    (owned : s.Owned (some old)) :
    ∃ heap', (heap.blockSize old >>= fun _ => heap.free (some old)) = .ok heap' ∧
      keep (drop s.live (some old)) (some b, heap') =
        .ok ⟨heap', ⟨b, n⟩ :: drop s.live (some old)⟩ ∧
      Ok ⟨heap', ⟨b, n⟩ :: drop s.live (some old)⟩ := by
  obtain ⟨r, member, rfl⟩ := owned old rfl
  have between : Ok ⟨heap, ⟨b, n⟩ :: s.live⟩ := ⟨gets.layout, gets.retained⟩
  obtain ⟨heap', executed, after⟩ :=
    between.free (show Owned ⟨heap, ⟨b, n⟩ :: s.live⟩ (some r.start) from
      fun c same => ⟨r, .tail _ member, by simpa using same⟩)
  have different : b ≠ r.start := by
    rintro rfl
    exact (nodup_cons.mp gets.layout.live_nodup).1 (mem_map.mpr ⟨r, member, rfl⟩)
  have live : drop (⟨b, n⟩ :: s.live) (some r.start) = ⟨b, n⟩ :: drop s.live (some r.start) := by
    simp [drop, different]
  rw [live] at after
  refine ⟨heap', ?_, ?_, after⟩
  · rw [gets.layout.blockSize_live (.tail _ member)]
    exact executed
  · have sized : heap'.blockSize b = .ok n := after.layout.blockSize_live mem_cons_self
    rw [keep_some, sized]
    rfl

theorem Ok.step (ok : s.Ok) {e : BlockEvent} (callable : s.Callable e) :
    ∃ after, s.step e = .ok after ∧ after.Ok := by
  cases e with
  | malloc size page => exact ok.malloc callable.2
  | calloc a b page =>
    unfold Blocks.step Heap.calloc
    dsimp only
    split
    · exact ⟨s, rfl, ok⟩
    · exact ok.malloc callable.2
  | realloc oldBlock newSize page =>
    obtain ⟨-, answers, owned⟩ := callable
    unfold Blocks.step Heap.realloc
    by_cases zero : newSize = 0
    · obtain ⟨heap, executed, after⟩ := ok.free owned
      refine ⟨_, ?_, after⟩
      simp only [if_pos zero, executed]
      simp [bind, Except.bind, Except.map, keep, zero]
    · simp only [if_neg zero]
      rcases ok.layout.malloc_spec ok.retained answers with
        failed | ⟨b, n, heap, executed, gets⟩
      · refine ⟨s, ?_, ok⟩
        rw [failed]
        cases oldBlock <;> simp [bind, Except.bind, zero]
      · cases oldBlock with
        | none =>
          have all : drop s.live none = s.live := by simp [drop]
          obtain ⟨kept, after⟩ := keep_gets gets
          refine ⟨_, ?_, after⟩
          rw [executed]
          simpa [bind, Except.bind, all] using kept
        | some old =>
          obtain ⟨heap', freed, kept, after⟩ := move_ok gets owned
          refine ⟨_, ?_, after⟩
          rw [executed]
          obtain ⟨size, sized, freed⟩ := bind_eq_ok.mp freed
          simpa [bind, Except.bind, Except.map, sized, freed] using kept
  | free block =>
    obtain ⟨heap, executed, after⟩ := ok.free callable
    refine ⟨_, ?_, after⟩
    change (s.heap.free block).map _ = _
    rw [executed]
    rfl

/-- A request of at most two gigabytes is for at least one page. -/
theorem answers_of_fresh {page : Option Nat} (small : size ≤ 2147483648)
    (fresh : s.Fresh size page) : s.Answers size page := by
  refine ⟨fun a _ => ?_, fresh⟩
  unfold Heap.pagesFor
  split
  · exact Nat.one_pos
  · exact Heap.bigPages_pos small

theorem callable_of_permitted (s : Blocks) (e : BlockEvent) (permitted : s.Permitted e) :
    s.Callable e := by
  cases e with
  | malloc size page =>
    obtain ⟨small, fresh⟩ := permitted
    exact ⟨by omega, answers_of_fresh small fresh⟩
  | calloc a b page =>
    obtain ⟨small, fresh⟩ := permitted
    exact ⟨by omega, answers_of_fresh small fresh⟩
  | realloc oldBlock newSize page =>
    obtain ⟨small, fresh, owned⟩ := permitted
    exact ⟨by omega, answers_of_fresh small fresh, owned⟩
  | free block => exact permitted

theorem reachable_ok (h : ReachableWhile mallocSystem Callable s) : s.Ok := by
  refine h.invariant ?_ fun s e after ok callable taken => ?_
  · rintro ⟨heap, live⟩ ⟨⟨h, none_, free, made⟩, empty⟩
    cases empty
    obtain ⟨layout, retained⟩ := Heap.mallocInit_layout none_ free made
    exact ⟨layout, retained⟩
  · obtain ⟨expected, executed, result⟩ := ok.step callable
    have same : Except.ok expected = Except.ok after := executed.symm.trans taken
    cases same
    exact result

end Blocks
end Calendarizador.Source
