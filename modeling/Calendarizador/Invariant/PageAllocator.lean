import Calendarizador.Source.PageAllocator

/-!
# Invariant of the page allocator

The bitmap of a pool marks as free exactly the pages of the pool that are in no live run.
`Updates` says what a call may change: the free pages of one pool. Where the pools and
their bitmaps lie is settled by `palloc_init` and never changes.
-/
namespace Calendarizador.Source
open Foundation Function List

theorem pgNo_pgSize_mul (page : Nat) : pgNo (pgSize * page) = page :=
  Nat.mul_div_cancel_left page (by decide)

theorem pgOfs_pgSize_mul (page : Nat) : pgOfs (pgSize * page) = 0 := Nat.mul_mod_right pgSize page

namespace Pool

structure Ok (pool : Pool) (live : List Span) : Prop where
  small : pool.usedMap.bitCnt < 4294967296
  aligned : pgOfs pool.base = 0
  apart : live.Pairwise Span.Apart
  inside : ∀ run ∈ live, run ⊆ pool.pages
  free_iff : ∀ page, pool.FreeAt page ↔ page ∈ pool.pages ∧ ¬ Span.Covers live page

variable {pool : Pool}

theorem address_eq (aligned : pgOfs pool.base = 0) (idx : Nat) :
    pool.base + pgSize * idx = pgSize * (pgNo pool.base + idx) := by
  simp only [pgOfs, pgNo, pgSize] at aligned ⊢
  omega

/-- A group of clear bits is a run of free pages. -/
theorem group_iff {pageCnt : Nat} (some_ : 0 < pageCnt) (idx : Nat) :
    pool.usedMap.Group false pageCnt idx ↔ pool.FreeRun ⟨pgNo pool.base + idx, pageCnt⟩ := by
  constructor
  · rintro ⟨inside, clear⟩ page member
    simp only [Span.mem_iff, Span.stop] at member
    refine ⟨?_, clear _ ?_⟩
    all_goals
      simp only [pages, Span.mem_iff, Span.stop]
      omega
  · intro free
    constructor
    · have last := (free (pgNo pool.base + idx + (pageCnt - 1)) ?_).1
      · simp only [pages, Span.mem_iff, Span.stop] at last
        omega
      · simp only [Span.mem_iff, Span.stop]
        omega
    · intro j member
      have clear := (free (pgNo pool.base + j) ?_).2
      · rwa [Nat.add_sub_cancel_left] at clear
      · simp only [Span.mem_iff, Span.stop] at member ⊢
        omega

/-- A run of free pages starts in the pool. -/
theorem FreeRun.low {pageCnt first : Nat} (some_ : 0 < pageCnt)
    (free : pool.FreeRun ⟨first, pageCnt⟩) : pgNo pool.base ≤ first := by
  have start : first ∈ (⟨first, pageCnt⟩ : Span) := by
    simp only [Span.mem_iff, Span.stop]
    omega
  exact (free first start).1.1

end Pool

namespace Palloc

@[simp]
theorem pool_fill (p : Palloc) (dst : Nat) (value : BitVec 8) (size : Nat) :
    (p.fill dst value size).pool = p.pool := by
  funext name
  cases name <;> rfl

theorem pool_setMap (p : Palloc) (name : PoolName) (usedMap : Bitmap) :
    (p.setMap name usedMap).pool =
      update p.pool name { p.pool name with usedMap } := by
  funext other
  cases name <;> cases other <;> rfl

theorem setMap_self (p : Palloc) (name : PoolName) : p.setMap name (p.pool name).usedMap = p := by
  cases name <;> rfl

@[simp]
theorem setMap_initRamPages (p : Palloc) (name : PoolName) (usedMap : Bitmap) :
    (p.setMap name usedMap).initRamPages = p.initRamPages := by
  cases name <;> rfl

/-- The call changes the pool `name` only, and there only which pages are free. -/
structure Updates (p : Palloc) (name : PoolName) (free : Nat → Prop) (after : Palloc) : Prop where
  ram : after.initRamPages = p.initRamPages
  others : ∀ other, other ≠ name → after.pool other = p.pool other
  usedMapAt : (after.pool name).usedMapAt = (p.pool name).usedMapAt
  base : (after.pool name).base = (p.pool name).base
  size : (after.pool name).usedMap.bitCnt = (p.pool name).usedMap.bitCnt
  free_iff : ∀ page, (after.pool name).FreeAt page ↔ free page

section
variable {p after : Palloc} {name : PoolName} {free : Nat → Prop}

theorem Updates.pages (h : p.Updates name free after) (other : PoolName) :
    (after.pool other).pages = (p.pool other).pages := by
  by_cases same : other = name
  · subst same
    simp only [Pool.pages, h.base, h.size]
  · rw [h.others other same]

theorem Updates.mapPages (h : p.Updates name free after) (other : PoolName) :
    (after.pool other).mapPages = (p.pool other).mapPages := by
  by_cases same : other = name
  · subst same
    simp only [Pool.mapPages, h.usedMapAt, h.size]
  · rw [h.others other same]

theorem Updates.areas (h : p.Updates name free after) : after.areas = p.areas := by
  have kernel := h.pages .kernel
  have user := h.pages .user
  have kernelMap := h.mapPages .kernel
  have userMap := h.mapPages .user
  simp only [pool] at kernel user kernelMap userMap
  simp only [Palloc.areas, kernel, user, kernelMap, userMap]

theorem Updates.freeMemory (h : p.Updates name free after) : after.freeMemory = p.freeMemory := by
  simp only [Palloc.freeMemory, h.ram]

/-- Storing a bitmap of the same size. -/
theorem updates_setMap (usedMap : Bitmap) (ram : after.initRamPages = p.initRamPages)
    (size : usedMap.bitCnt = (p.pool name).usedMap.bitCnt)
    (stored : after.pool = update p.pool name { p.pool name with usedMap })
    (free_iff : ∀ page, page ∈ (p.pool name).pages →
      (usedMap.bit (page - pgNo (p.pool name).base) = false ↔ free page))
    (inside : ∀ page, free page → page ∈ (p.pool name).pages) : p.Updates name free after := by
  have own : after.pool name = { p.pool name with usedMap } := by
    rw [stored, update_self]
  refine ⟨ram, fun other different => ?_, by rw [own], by rw [own], by rw [own, size], ?_⟩
  · rw [stored, update_of_ne different]
  · intro page
    have pages : (after.pool name).pages = (p.pool name).pages := by
      simp only [own, Pool.pages, size]
    rw [Pool.FreeAt, pages, own]
    constructor
    · rintro ⟨member, clear⟩
      exact (free_iff page member).mp clear
    · intro becomes
      exact ⟨inside page becomes, (free_iff page (inside page becomes)).mpr becomes⟩

end

variable {p : Palloc}

/-- `palloc_get_multiple` takes the lowest run of free pages, and changes nothing if there
is none. -/
theorem getMultiple_cases {flags : PallocFlags} {pageCnt : Nat} {live : List Span}
    (ok : (p.pool flags.pool).Ok live) (some_ : 0 < pageCnt) :
    (∃ first after, p.getMultiple flags pageCnt = .ok (some (pgSize * first), after) ∧
      (p.pool flags.pool).FreeRun ⟨first, pageCnt⟩ ∧
      (∀ lower, lower < first → ¬ (p.pool flags.pool).FreeRun ⟨lower, pageCnt⟩) ∧
      p.Updates flags.pool
        (fun page => (p.pool flags.pool).FreeAt page ∧ page ∉ (⟨first, pageCnt⟩ : Span)) after) ∨
    ((∀ first, ¬ (p.pool flags.pool).FreeRun ⟨first, pageCnt⟩) ∧
      p.getMultiple flags pageCnt =
        if flags.assert then .error (.panic "palloc_get: out of pages") else .ok (none, p)) := by
  have request : ¬ pageCnt = 0 := by omega
  rcases Bitmap.scanAndFlip_spec ok.small pageCnt (Nat.zero_le _) false with
    ⟨idx, usedMap, scanned, -, group, first, size, bits⟩ | ⟨scanned, none_⟩
  · refine .inl ⟨pgNo (p.pool flags.pool).base + idx, ?_, ?_⟩
    · exact if flags.zero then (p.setMap flags.pool usedMap).fill
        ((p.pool flags.pool).base + pgSize * idx) 0 (pgSize * pageCnt)
        else p.setMap flags.pool usedMap
    · refine ⟨?_, (Pool.group_iff some_ idx).mp group, fun lower below free => ?_, ?_⟩
      · rw [getMultiple, if_neg request, scanned, ← Pool.address_eq ok.aligned]
        rfl
      · have low := free.low some_
        have earlier : lower = pgNo (p.pool flags.pool).base +
          (lower - pgNo (p.pool flags.pool).base) := by omega
        rw [earlier] at free
        exact first _ (Nat.zero_le _) (by omega) ((Pool.group_iff some_ _).mpr free)
      · refine updates_setMap usedMap ?_ size ?_ (fun page member => ?_) fun page free => free.1.1
        · split <;> simp
        · split <;> simp [pool_setMap]
        · rw [bits, Pool.FreeAt]
          simp only [Pool.pages, Span.mem_iff, Span.stop] at member ⊢
          grind
  · refine .inr ⟨fun first free => ?_, ?_⟩
    · have low := free.low some_
      have start : first = pgNo (p.pool flags.pool).base +
        (first - pgNo (p.pool flags.pool).base) := by omega
      rw [start] at free
      exact none_ _ (Nat.zero_le _) ((Pool.group_iff some_ _).mpr free)
    · rw [getMultiple, if_neg request, scanned]
      simp only [bind, Except.bind, setMap_self]

theorem pageFromPool_iff (pool : Pool) (page : Nat) :
    pageFromPool pool (pgSize * page) = true ↔ page ∈ pool.pages := by
  simp only [pageFromPool, pgNo_pgSize_mul, decide_eq_true_eq]
  rfl

/-- A page of a pool is traced back to that pool. -/
theorem owner_eq (apart : p.areas.Pairwise Span.Apart) {name : PoolName} {page : Nat}
    (member : page ∈ (p.pool name).pages) : p.owner (pgSize * page) = .ok name := by
  unfold owner
  cases name with
  | kernel => rw [if_pos ((pageFromPool_iff p.kernelPool _).mpr member)]
  | user =>
    have pools : Span.Apart p.kernelPool.pages p.userPool.pages := by
      simp only [areas, pairwise_cons, mem_cons] at apart
      exact apart.2.1 _ (.inr (.inl rfl))
    rw [if_neg fun found => pools page ((pageFromPool_iff _ _).mp found) member,
      if_pos ((pageFromPool_iff p.userPool _).mpr member)]

/-- Pages that are in use are freed in the pool they belong to. -/
theorem freeMultiple_spec (apart : p.areas.Pairwise Span.Apart) {name : PoolName} {live : List Span}
    (ok : (p.pool name).Ok live) {part : Span} (inside : part ⊆ (p.pool name).pages)
    (used : ∀ page ∈ part, Span.Covers live page) :
    ∃ after, p.freeMultiple (some (pgSize * part.start)) part.count = .ok after ∧
      p.Updates name (fun page => (p.pool name).FreeAt page ∨ page ∈ part) after := by
  have multiple : pgOfs ((some (pgSize * part.start)).getD 0) = 0 := pgOfs_pgSize_mul part.start
  unfold freeMultiple
  rw [ensure_bind multiple]
  dsimp only
  by_cases none_ : part.count = 0
  · refine ⟨p, by rw [if_pos none_], rfl, fun _ _ => rfl, rfl, rfl, rfl, fun page => ?_⟩
    simp only [Span.mem_iff, Span.stop, none_]
    constructor
    · exact .inl
    · rintro (free | member)
      · exact free
      · omega
  · obtain ⟨low, high⟩ := Span.bounds_of_subset inside (Nat.pos_of_ne_zero none_)
    simp only [Pool.pages, Span.stop] at low high
    have member : part.start ∈ (p.pool name).pages := by
      simp only [Pool.pages, Span.mem_iff, Span.stop]
      omega
    have bound : part.start - pgNo (p.pool name).base + part.count ≤
        (p.pool name).usedMap.bitCnt := by omega
    obtain ⟨answer, asked, meaning⟩ := Bitmap.all_spec ok.small bound
    obtain ⟨usedMap, cleared, size, bits⟩ := Bitmap.setMultiple_spec ok.small bound false
    have marked : answer = true := by
      refine meaning.mpr ⟨bound, fun j index => ?_⟩
      simp only [Span.mem_iff, Span.stop] at index
      by_contra clear
      have page : pgNo (p.pool name).base + j ∈ part := by
        simp only [Span.mem_iff, Span.stop]
        omega
      have free : (p.pool name).FreeAt (pgNo (p.pool name).base + j) :=
        ⟨inside _ page, by rw [Nat.add_sub_cancel_left]; simpa using clear⟩
      exact ((ok.free_iff _).mp free).2 (used _ page)
    refine ⟨(p.fill (pgSize * part.start) 0xcc (pgSize * part.count)).setMap name usedMap, ?_, ?_⟩
    · rw [if_neg none_, owner_eq apart member]
      simp only [bind, Except.bind, pgNo_pgSize_mul, asked, cleared]
      rw [ensure_pos marked]
    · refine updates_setMap usedMap (by simp) size (by simp [pool_setMap])
        (fun page own => ?_) fun page free => ?_
      · rw [bits, Pool.FreeAt]
        simp only [Pool.pages, Span.mem_iff, Span.stop] at own ⊢
        grind
      · rcases free with free | freed
        · exact free.1
        · exact inside page freed

end Palloc

namespace PageHeap

structure Ok (s : PageHeap) : Prop where
  apart : s.palloc.areas.Pairwise Span.Apart
  inside : ∀ area ∈ s.palloc.areas, area ⊆ s.palloc.freeMemory
  pool : ∀ name, (s.palloc.pool name).Ok (s.live name)

variable {s : PageHeap}

/-- A call that changes the free pages of one pool and its live runs accordingly. -/
theorem Ok.update (ok : s.Ok) {name : PoolName} {free : Nat → Prop} {palloc : Palloc}
    (updates : s.palloc.Updates name free palloc) {live : List Span}
    (apart : live.Pairwise Span.Apart) (inside : ∀ run ∈ live, run ⊆ (s.palloc.pool name).pages)
    (free_iff : ∀ page, free page ↔ page ∈ (s.palloc.pool name).pages ∧ ¬ Span.Covers live page) :
    Ok ⟨palloc, update s.live name live⟩ := by
  refine ⟨?_, ?_, fun other => ?_⟩
  · rw [updates.areas]
    exact ok.apart
  · rw [updates.areas, updates.freeMemory]
    exact ok.inside
  · by_cases same : other = name
    · subst same
      simp only [update_self]
      have old := ok.pool other
      refine ⟨by rw [updates.size]; exact old.small, by rw [updates.base]; exact old.aligned,
        apart, ?_, fun page => ?_⟩
      · rw [updates.pages]
        exact inside
      · rw [updates.free_iff, updates.pages]
        exact free_iff page
    · simp only [update_of_ne same, updates.others other same]
      exact ok.pool other

/-- The pages of part of a live run are in use, and lie in the pool of the run. -/
theorem Ok.part (ok : s.Ok) {name : PoolName} {run part : Span} (member : run ∈ s.live name)
    (low : run.start ≤ part.start) (high : part.stop ≤ run.stop) :
    part ⊆ (s.palloc.pool name).pages ∧ ∀ page ∈ part, Span.Covers (s.live name) page := by
  have within : part ⊆ run := Span.subset_of_le low high
  exact ⟨Span.subset_trans within ((ok.pool name).inside run member),
    fun page inside => ⟨run, member, within page inside⟩⟩

theorem Ok.step (ok : s.Ok) {e : PageEvent} {after : PageHeap} (permitted : s.Permitted e)
    (taken : s.step e = .ok after) : after.Ok := by
  cases e with
  | get flags pageCnt =>
    obtain ⟨result, got, rfl⟩ := map_eq_ok.mp taken
    by_cases none_ : pageCnt = 0
    · rw [Palloc.getMultiple, if_pos none_, Except.ok.injEq] at got
      subst got
      exact ok
    rcases Palloc.getMultiple_cases (ok.pool flags.pool) (Nat.pos_of_ne_zero none_) with
      ⟨first, palloc, obtained, free, -, updates⟩ | ⟨-, failed⟩
    · rw [obtained, Except.ok.injEq] at got
      subst got
      have own := ok.pool flags.pool
      simp only [keep, pgNo_pgSize_mul]
      refine ok.update updates (Span.pairwise_cons_apart own.apart ?_) ?_ fun page => ?_
      · exact fun page member => ((own.free_iff page).mp (free page member)).2
      · intro run member
        rcases mem_cons.mp member with rfl | old
        · exact fun page inside => (free page inside).1
        · exact own.inside run old
      · rw [own.free_iff, Span.covers_cons]
        tauto
    · rw [failed] at got
      split at got
      · cases got
      · rw [Except.ok.injEq] at got
        subst got
        exact ok
  | free name run part =>
    obtain ⟨member, low, high⟩ := permitted
    obtain ⟨inside, used⟩ := ok.part member low high
    have own := ok.pool name
    obtain ⟨palloc, freed, updates⟩ := Palloc.freeMultiple_spec ok.apart own inside used
    obtain ⟨result, got, rfl⟩ := map_eq_ok.mp taken
    rw [freed, Except.ok.injEq] at got
    subst got
    refine ok.update updates (Span.pairwise_without own.apart member low high) ?_ fun page => ?_
    · intro rest kept
      rcases mem_append.mp kept with left | old
      · exact Span.subset_trans (Span.without_subset low high left) (own.inside run member)
      · exact own.inside rest (mem_of_mem_erase old)
    · rw [own.free_iff, Span.covers_erase_without own.apart member low high]
      have pool := inside page
      tauto

end PageHeap

variable {pool : Pool}

/-! ## The pools `palloc_init` makes -/

theorem initPool_spec {memory : Nat → BitVec 8} {base pageCnt : Nat} {name : String}
    (small : pageCnt < 4294967296) (made : initPool memory base pageCnt name = .ok pool) :
    ∃ bmPages, bmPages = divRoundUp (Bitmap.bufSize pageCnt) pgSize ∧ bmPages ≤ pageCnt ∧
      pool.usedMapAt = base ∧ pool.base = base + bmPages * pgSize ∧
      pool.usedMap.bitCnt = pageCnt - bmPages ∧
      ∀ j < pageCnt - bmPages, pool.usedMap.bit j = false := by
  unfold initPool at made
  dsimp only at made
  refine ⟨_, rfl, ?_⟩
  split at made
  · cases made
  · rename_i enough
    obtain ⟨usedMap, created, rfl⟩ := map_eq_ok.mp made
    have room : Bitmap.bufSize (pageCnt - divRoundUp (Bitmap.bufSize pageCnt) pgSize) ≤
        divRoundUp (Bitmap.bufSize pageCnt) pgSize * pgSize := by
      simp only [divRoundUp, Bitmap.bufSize, Bitmap.byteCnt, Bitmap.elemCnt, pgSize]
      omega
    obtain ⟨b, expected, size, clear⟩ := Bitmap.createInBuf_spec (by omega) room
      fun idx => loadWord memory (base + 8 + 4 * idx)
    rw [expected, Except.ok.injEq] at created
    subst created
    exact ⟨by omega, rfl, rfl, size, clear⟩

/-- A new pool hands out no page yet. -/
theorem Pool.Ok.new (small : pool.usedMap.bitCnt < 4294967296) (aligned : pgOfs pool.base = 0)
    (clear : ∀ j < pool.usedMap.bitCnt, pool.usedMap.bit j = false) : pool.Ok [] := by
  refine ⟨small, aligned, .nil, by simp, fun page => ?_⟩
  constructor
  · exact fun free => ⟨free.1, Span.covers_nil⟩
  · rintro ⟨member, -⟩
    refine ⟨member, clear _ ?_⟩
    simp only [Pool.pages, Span.mem_iff, Span.stop] at member
    omega

theorem ramPages_bounds (extendedKb : Nat) :
    256 ≤ ramPages extendedKb ∧ ramPages extendedKb ≤ 16384 := by
  unfold ramPages
  omega

theorem ptov_ok {paddr : Nat} (small : paddr < 1073741824) :
    ptov paddr = .ok (paddr + 3221225472) := by
  unfold ptov
  rw [ensure_bind (by unfold physBase; omega), sizeT_of_lt (by unfold physBase; omega)]
  rfl

/-- Where a new pool lies when its first page has the number `page`. -/
theorem initPool_pages {memory : Nat → BitVec 8} {base pageCnt : Nat} (page : Nat) {name : String}
    (small : pageCnt < 4294967296) (start : base = pgSize * page)
    (made : initPool memory base pageCnt name = .ok pool) :
    pool.Ok [] ∧ pool.mapPages.start = page ∧ pool.mapPages.stop ≤ pool.pages.start ∧
      pool.pages.stop = page + pageCnt := by
  obtain ⟨bmPages, map, room, mapAt, baseAt, size, clear⟩ := initPool_spec small made
  have first : pgNo pool.base = page + bmPages := by
    rw [baseAt, start, Nat.mul_comm bmPages, ← Nat.mul_add, pgNo_pgSize_mul]
  have aligned : pgOfs pool.base = 0 := by
    rw [baseAt, start, Nat.mul_comm bmPages, ← Nat.mul_add, pgOfs_pgSize_mul]
  have mapFirst : pgNo pool.usedMapAt = page := by rw [mapAt, start, pgNo_pgSize_mul]
  refine ⟨.new (by omega) aligned (by rwa [size]), mapFirst, ?_, ?_⟩
  · simp only [Pool.mapPages, Pool.pages, Span.stop, mapFirst, first, size, map]
    simp only [divRoundUp, Bitmap.bufSize, Bitmap.byteCnt, Bitmap.elemCnt, pgSize]
    omega
  · simp only [Pool.pages, Span.stop, first, size]
    omega

/-- The pages from 1 MB to the end of RAM. -/
theorem freePages_eq (ram : Nat) :
    (ram * pgSize + 3221225472 - (1024 * 1024 + 3221225472)) / pgSize = ram - 256 := by
  rw [Nat.add_sub_add_right]
  simp only [pgSize]
  omega

theorem Palloc.init_ok {memory : Nat → BitVec 8} {extendedKb userPageLimit : Nat} {p : Palloc}
    (made : Palloc.init memory (ramPages extendedKb) userPageLimit = .ok p) :
    PageHeap.Ok ⟨p, fun _ => []⟩ := by
  obtain ⟨low, high⟩ := ramPages_bounds extendedKb
  unfold Palloc.init at made
  rw [ptov_ok (by omega), ptov_ok (by unfold pgSize; omega)] at made
  simp only [bind_eq_ok, Except.ok.injEq, exists_eq_left'] at made
  obtain ⟨kernelPool, kernel, userPool, user, rfl⟩ := made
  rw [freePages_eq] at kernel user
  generalize total : ramPages extendedKb - 256 = freePages at kernel user
  generalize limited : (if freePages / 2 > userPageLimit then userPageLimit else freePages / 2) =
    userPages at kernel user
  have part : userPages ≤ freePages := by
    rw [← limited]
    split <;> omega
  obtain ⟨kernelOk, kernelStart, kernelMap, kernelStop⟩ :=
    initPool_pages 786688 (by omega) (by decide) kernel
  obtain ⟨userOk, userStart, userMap, userStop⟩ :=
    initPool_pages (786688 + (freePages - userPages)) (by omega) (by unfold pgSize; omega) user
  have kernelLength : kernelPool.pages.start ≤ kernelPool.pages.stop := Nat.le_add_right _ _
  have userLength : userPool.pages.start ≤ userPool.pages.stop := Nat.le_add_right _ _
  have kernelMapLength : kernelPool.mapPages.start ≤ kernelPool.mapPages.stop :=
    Nat.le_add_right _ _
  have userMapLength : userPool.mapPages.start ≤ userPool.mapPages.stop := Nat.le_add_right _ _
  refine ⟨?_, ?_, fun name => ?_⟩
  · simp only [areas, pairwise_cons, mem_cons, not_mem_nil, or_false,
      forall_eq_or_imp, forall_eq, List.Pairwise.nil, and_true]
    refine ⟨⟨?_, ?_, ?_⟩, ⟨?_, ?_⟩, ?_, by simp⟩
    all_goals
      refine Span.apart_of_le ?_
      omega
  · intro area member
    have bounds : 786688 ≤ area.start ∧ area.stop ≤ 786688 + freePages := by
      simp only [areas, mem_cons, not_mem_nil, or_false] at member
      rcases member with rfl | rfl | rfl | rfl
      all_goals omega
    refine Span.subset_of_le bounds.1 (bounds.2.trans ?_)
    simp only [freeMemory, Span.stop, ← total]
    exact le_of_eq rfl
  · cases name with
    | kernel => exact kernelOk
    | user => exact userOk

theorem PageHeap.reachable_ok {s : PageHeap}
    (h : ReachableWhile pageSystem PageHeap.Permitted s) : s.Ok := by
  refine h.invariant ?_ fun s e after ok permitted taken => ok.step permitted taken
  rintro ⟨palloc, live⟩ ⟨⟨memory, extendedKb, userPageLimit, made⟩, none_⟩
  cases none_
  exact Palloc.init_ok made

end Calendarizador.Source
