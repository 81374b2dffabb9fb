import Calendarizador.Invariant.Malloc

/-!
# The heap invariant of malloc

Whatever blocks are obtained and freed, and whenever the page allocator fails: live blocks
are disjoint and clear of the arena headers, the free lists hold exactly the blocks that are
not live, the counters count them, an arena goes back to the page allocator with its last
live block, and no assertion fails.
-/
namespace Calendarizador.Guarantees
open Foundation Source

/-- What holds between two calls. -/
structure HeapSafe (s : Blocks) : Prop where
  live_apart : s.live.Pairwise Span.Apart
  headers_apart : ∀ block ∈ s.live, ∀ run ∈ s.heap.held,
    Span.Apart block ⟨pgSize * run.start, arenaSize⟩
  free_lists : ∀ d < s.heap.descCnt, (s.heap.descs d).freeList.Nodup ∧
    ∀ b, b ∈ (s.heap.descs d).freeList ↔
      (∃ run ∈ s.heap.held, (s.heap.header run.start).desc = some d ∧
        b ∈ s.heap.blocksOf d run.start) ∧ b ∉ s.live.map Span.start
  free_cnt : ∀ run ∈ s.heap.held, ∀ d, (s.heap.header run.start).desc = some d →
    (s.heap.header run.start).freeCnt = s.heap.freeIn d run.start ∧
      (s.heap.header run.start).freeCnt < (s.heap.descs d).blocksPerArena
  /-- Pages without a descriptor are one block, and it is in use. -/
  big : ∀ run ∈ s.heap.held, (s.heap.header run.start).desc = none → Heap.bigBlock run ∈ s.live
  returned : ∀ block ∈ s.live, ∃ run ∈ s.heap.held, s.heap.IsBlock run block ∧
    ∃ after, s.heap.free (some block.start) = .ok after ∧
      ((∃ other ∈ s.live, other ≠ block ∧ s.heap.IsBlock run other) →
        after.held = s.heap.held) ∧
      ((¬ ∃ other ∈ s.live, other ≠ block ∧ s.heap.IsBlock run other) →
        after.held = s.heap.held.erase run ∧
        ∀ d < after.descCnt, ∀ b ∈ (after.descs d).freeList, pgNo b ≠ run.start)
  kept : ∀ size page result after, s.Permitted (.malloc size page) →
    s.heap.malloc size page = .ok (result, after) → s.heap.held <:+ after.held
  failed : ∀ size page after, s.Permitted (.malloc size page) →
    s.heap.malloc size page = .ok (none, after) → after = s.heap
  no_halt : ∀ e, s.Permitted e → ∃ after, s.step e = .ok after

section
variable {s : Blocks} (ok : s.Ok)
include ok

theorem live_apart_of_ok : s.live.Pairwise Span.Apart := by
  have starts := List.pairwise_map.mp ok.layout.live_nodup
  refine starts.imp_of_mem fun {r t} first second different => ?_
  exact ok.layout.live_apart first second different

/-- Live blocks are told apart by their addresses. -/
theorem ne_iff_start_ne {block other : Span} (member : block ∈ s.live) (second : other ∈ s.live) :
    other ≠ block ↔ other.start ≠ block.start := by
  refine not_congr ⟨fun equal => congrArg Span.start equal, fun equal => ?_⟩
  exact List.inj_on_of_nodup_map ok.layout.live_nodup second member equal

theorem returned_of_ok {block : Span} (member : block ∈ s.live) :
    ∃ run ∈ s.heap.held, s.heap.IsBlock run block ∧
    ∃ after, s.heap.free (some block.start) = .ok after ∧
      ((∃ other ∈ s.live, other ≠ block ∧ s.heap.IsBlock run other) →
        after.held = s.heap.held) ∧
      ((¬ ∃ other ∈ s.live, other ≠ block ∧ s.heap.IsBlock run other) →
        after.held = s.heap.held.erase run ∧
        ∀ d < after.descCnt, ∀ b ∈ (after.descs d).freeList, pgNo b ≠ run.start) := by
  obtain ⟨after, freed, frees⟩ := ok.layout.free_spec ok.retained member
  obtain ⟨run, held, isBlock, kept, erased⟩ := frees.returned
  have others : (∃ other ∈ s.live, other ≠ block ∧ s.heap.IsBlock run other) ↔
      ∃ r ∈ Blocks.drop s.live (some block.start), s.heap.IsBlock run r := by
    refine exists_congr fun r => ?_
    rw [Blocks.mem_drop, and_assoc]
    refine and_congr_right fun live => ?_
    rw [ne_iff_start_ne ok member live]
  rw [← others] at kept erased
  refine ⟨run, held, isBlock, after, freed, kept, fun none_ => ⟨erased none_, ?_⟩⟩
  intro d below b free here
  obtain ⟨run', held', -, address, -⟩ := frees.layout.free_block below free
  have start : run'.start = run.start := by
    rw [← here, Heap.pgNo_block (frees.layout.descs d below) address]
  rw [erased none_] at held'
  exact ok.layout.start_ne_of_mem_erase held held' start

end

/-- Every state that calls of `malloc`, `calloc`, `realloc` and `free` reach is safe, whatever
the page allocator answers. -/
theorem malloc_heap {s : Blocks} (h : ReachableWhile mallocSystem Blocks.Permitted s) :
    HeapSafe s := by
  have ok := Blocks.reachable_ok (h.imp fun s e _ => Blocks.callable_of_permitted s e)
  refine ⟨live_apart_of_ok ok, fun block member run held => ok.layout.header_apart member held,
    fun d below => ⟨ok.layout.nodup d below, ok.layout.free_iff d below⟩,
    fun run held d owner => ⟨(ok.layout.small run held d owner).2.2, ok.retained run held d owner⟩,
    fun run held none_ => (ok.layout.big run held none_).2,
    fun block member => returned_of_ok ok member, ?_, ?_, fun e permitted => ?_⟩
  · rintro size page result after ⟨small, fresh⟩ executed
    rcases ok.layout.malloc_spec ok.retained (Blocks.answers_of_fresh small fresh) with
      failed | ⟨b, n, expected, done, gets⟩
    · rw [failed, Except.ok.injEq, Prod.mk.injEq] at executed
      obtain ⟨-, rfl⟩ := executed
      exact List.suffix_rfl
    · rw [done, Except.ok.injEq, Prod.mk.injEq] at executed
      rw [← executed.2]
      exact gets.held
  · rintro size page after ⟨small, fresh⟩ executed
    rcases ok.layout.malloc_spec ok.retained (Blocks.answers_of_fresh small fresh) with
      failed | ⟨b, n, expected, done, gets⟩
    · rw [failed, Except.ok.injEq, Prod.mk.injEq] at executed
      exact executed.2.symm
    · rw [done, Except.ok.injEq, Prod.mk.injEq] at executed
      cases executed.1
  · obtain ⟨after, taken, -⟩ := ok.step (Blocks.callable_of_permitted s e permitted)
    exact ⟨after, taken⟩

/-- A block of 1024 bytes from the page 5, then a big block on the pages 8 and 9. -/
theorem malloc_heap_two : ∃ s, ReachableWhile mallocSystem Blocks.Permitted s ∧
    s.live = [⟨32780, 8180⟩, ⟨20492, 1024⟩] ∧ s.heap.held = [⟨8, 2⟩, ⟨5, 1⟩] ∧ HeapSafe s := by
  have made : ∃ s, mallocSystem.initial s ∧ s.heap.held = [] ∧ s.heap.pagesFor 600 = 1 ∧
      ∃ t, mallocSystem.step s (.malloc 600 (some 5)) = .ok t ∧ t.heap.held = [⟨5, 1⟩] ∧
        t.heap.pagesFor 5000 = 2 ∧
        ∃ u, mallocSystem.step t (.malloc 5000 (some 8)) = .ok u ∧
          u.live = [⟨32780, 8180⟩, ⟨20492, 1024⟩] ∧ u.heap.held = [⟨8, 2⟩, ⟨5, 1⟩] := by
    refine ⟨⟨_, []⟩,
      ⟨⟨⟨fun _ => ⟨0, 0, []⟩, 0, fun _ => ⟨0, none, 0⟩, []⟩, rfl, rfl, rfl⟩, rfl⟩, ?_⟩
    refine ⟨rfl, rfl, ?_⟩
    refine ⟨_, rfl, rfl, rfl, ?_⟩
    exact ⟨_, rfl, rfl, rfl⟩
  obtain ⟨s, start, none_, one, t, first, held, two, u, second, live, runs⟩ := made
  have small : s.Permitted (.malloc 600 (some 5)) := by
    refine ⟨by decide, fun a page => ?_⟩
    obtain rfl := Option.some.inj page
    rw [one, none_]
    exact ⟨by decide, by decide, by simp⟩
  have big : t.Permitted (.malloc 5000 (some 8)) := by
    refine ⟨by decide, fun a page => ?_⟩
    obtain rfl := Option.some.inj page
    rw [two, held]
    refine ⟨by decide, by decide, fun run member => ?_⟩
    obtain rfl := List.mem_singleton.mp member
    exact (Span.apart_of_le (by decide)).symm
  have reachable : ReachableWhile mallocSystem Blocks.Permitted u :=
    .step (.step (.initial start) _ small first) _ big second
  exact ⟨u, reachable, live, runs, malloc_heap reachable⟩

end Calendarizador.Guarantees
