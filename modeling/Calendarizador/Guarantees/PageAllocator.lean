import Calendarizador.Invariant.PageAllocator

/-!
# Page allocator safety and completeness

In every state a sequence of calls can reach, the pools, their bitmaps and the live runs
do not overlap, a request gets the lowest run of free pages if there is one, and freeing
part of a live run succeeds and frees exactly those pages in the pool they came from. A
request that cannot be met returns `NULL` only without `PAL_ASSERT`; with it the kernel
panics, as the comment on `palloc_get_multiple` says.
-/
namespace Calendarizador.Guarantees
open Foundation Source

/-- What holds between two calls. -/
structure PageAllocatorSafe (s : PageHeap) : Prop where
  areas_apart : s.palloc.areas.Pairwise Span.Apart
  areas_inside : ∀ area ∈ s.palloc.areas, area ⊆ s.palloc.freeMemory
  runs_apart : (s.live .kernel ++ s.live .user).Pairwise Span.Apart
  runs_inside : ∀ name, ∀ run ∈ s.live name, run ⊆ (s.palloc.pool name).pages
  free_iff : ∀ name page, (s.palloc.pool name).FreeAt page ↔
    page ∈ (s.palloc.pool name).pages ∧ ¬ Span.Covers (s.live name) page
  get_lowest : ∀ flags pageCnt, 0 < pageCnt →
    (∃ first, (s.palloc.pool flags.pool).FreeRun ⟨first, pageCnt⟩) →
    ∃ first after, s.palloc.getMultiple flags pageCnt = .ok (some (pgSize * first), after) ∧
      (s.palloc.pool flags.pool).FreeRun ⟨first, pageCnt⟩ ∧
      (∀ lower, lower < first → ¬ (s.palloc.pool flags.pool).FreeRun ⟨lower, pageCnt⟩) ∧
      (∀ page, (after.pool flags.pool).FreeAt page ↔
        (s.palloc.pool flags.pool).FreeAt page ∧ page ∉ (⟨first, pageCnt⟩ : Span)) ∧
      ∀ other, other ≠ flags.pool → after.pool other = s.palloc.pool other
  get_null : ∀ flags pageCnt, 0 < pageCnt →
    (¬ ∃ first, (s.palloc.pool flags.pool).FreeRun ⟨first, pageCnt⟩) →
    s.palloc.getMultiple flags pageCnt =
      if flags.assert then .error (.panic "palloc_get: out of pages") else .ok (none, s.palloc)
  free_exactly : ∀ name run part, s.Permitted (.free name run part) →
    ∃ after, s.palloc.freeMultiple (some (pgSize * part.start)) part.count = .ok after ∧
      (∀ page, (after.pool name).FreeAt page ↔
        (s.palloc.pool name).FreeAt page ∨ page ∈ part) ∧
      ∀ other, other ≠ name → after.pool other = s.palloc.pool other

/-- Runs of one pool are apart, and so are the two pools. -/
theorem runs_apart_of_ok {s : PageHeap} (ok : s.Ok) :
    (s.live .kernel ++ s.live .user).Pairwise Span.Apart := by
  have pools : Span.Apart s.palloc.kernelPool.pages s.palloc.userPool.pages := by
    have areas := ok.apart
    simp only [Palloc.areas, List.pairwise_cons, List.mem_cons] at areas
    exact areas.2.1 _ (.inr (.inl rfl))
  refine List.pairwise_append.mpr ⟨(ok.pool .kernel).apart, (ok.pool .user).apart, ?_⟩
  intro first kernel second user
  exact pools.mono ((ok.pool .kernel).inside first kernel) ((ok.pool .user).inside second user)

/-- Every state that calls of `palloc_get_multiple` and `palloc_free_multiple` reach from an
accepted `palloc_init` is safe. -/
theorem page_allocator {s : PageHeap}
    (h : ReachableWhile pageSystem PageHeap.Permitted s) : PageAllocatorSafe s := by
  have ok := PageHeap.reachable_ok h
  refine ⟨ok.apart, ok.inside, runs_apart_of_ok ok, fun name => (ok.pool name).inside,
    fun name => (ok.pool name).free_iff, ?_, ?_, ?_⟩
  · intro flags pageCnt some_ exists_
    rcases Palloc.getMultiple_cases (ok.pool flags.pool) some_ with
      ⟨first, after, got, free, lowest, updates⟩ | ⟨none_, -⟩
    · exact ⟨first, after, got, free, lowest, updates.free_iff, updates.others⟩
    · obtain ⟨first, free⟩ := exists_
      exact absurd free (none_ first)
  · intro flags pageCnt some_ none_
    rcases Palloc.getMultiple_cases (ok.pool flags.pool) some_ with
      ⟨first, after, -, free, -, -⟩ | ⟨-, failed⟩
    · exact absurd ⟨first, free⟩ none_
    · exact failed
  · rintro name run part ⟨member, low, high⟩
    obtain ⟨inside, used⟩ := ok.part member low high
    obtain ⟨after, freed, updates⟩ :=
      Palloc.freeMultiple_spec ok.apart (ok.pool name) inside used
    exact ⟨after, freed, updates.free_iff, updates.others⟩

/-- With eight pages above the first megabyte, two kernel pages are obtained and the second of
them is freed. -/
theorem page_allocator_part : ∃ s, ReachableWhile pageSystem PageHeap.Permitted s ∧
    s.live .kernel = [⟨786689, 1⟩, ⟨786691, 0⟩] ∧ PageAllocatorSafe s := by
  have made : ∃ s, pageSystem.initial s ∧
      ∃ t, pageSystem.step s (.get ⟨false, false, false⟩ 2) = .ok t ∧
        t.live .kernel = [⟨786689, 2⟩] ∧
        ∃ u, pageSystem.step t (.free .kernel ⟨786689, 2⟩ ⟨786690, 1⟩) = .ok u ∧
          u.live .kernel = [⟨786689, 1⟩, ⟨786691, 0⟩] := by
    refine ⟨⟨_, fun _ => []⟩, ⟨⟨fun _ => 0, 32, 4294967295, rfl⟩, rfl⟩, ?_⟩
    refine ⟨_, rfl, rfl, ?_⟩
    exact ⟨_, rfl, rfl⟩
  obtain ⟨s, start, t, got, live, u, freed, rest⟩ := made
  have permitted : t.Permitted (.free .kernel ⟨786689, 2⟩ ⟨786690, 1⟩) :=
    ⟨by rw [live]; exact List.mem_singleton.mpr rfl, by decide, by decide⟩
  have reachable : ReachableWhile pageSystem PageHeap.Permitted u :=
    .step (.step (.initial start) (.get ⟨false, false, false⟩ 2) trivial got) _ permitted freed
  exact ⟨u, reachable, rest, page_allocator reachable⟩

/-- With `PAL_ASSERT` a request for more pages than the pool has panics. -/
theorem page_allocator_panics : ∃ s, ReachableWhile pageSystem PageHeap.Permitted s ∧
    (∀ first, ¬ (s.palloc.pool .kernel).FreeRun ⟨first, 4⟩) ∧
    s.palloc.getMultiple ⟨true, false, false⟩ 4 =
      .error (.panic "palloc_get: out of pages") := by
  have made : ∃ s, pageSystem.initial s ∧ (s.palloc.pool .kernel).pages = ⟨786689, 3⟩ ∧
      s.palloc.getMultiple ⟨true, false, false⟩ 4 =
        .error (.panic "palloc_get: out of pages") := by
    refine ⟨⟨_, fun _ => []⟩, ⟨⟨fun _ => 0, 32, 4294967295, rfl⟩, rfl⟩, ?_⟩
    exact ⟨rfl, rfl⟩
  obtain ⟨s, start, pages, panics⟩ := made
  refine ⟨s, .initial start, fun first free => ?_, panics⟩
  have low := (free first (by simp [Span.mem_iff, Span.stop])).1
  have high := (free (first + 3) (by simp [Span.mem_iff, Span.stop])).1
  rw [pages] at low high
  simp only [Span.mem_iff, Span.stop] at low high
  omega

end Calendarizador.Guarantees
