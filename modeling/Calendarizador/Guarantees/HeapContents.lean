import Calendarizador.Invariant.HeapMemory

/-!
# Sizes and contents of blocks

How large a block `malloc` returns for every size of 32 bits, which products `calloc` lets
pass, and what `realloc` keeps of the blocks.
-/
namespace Calendarizador.Guarantees
open Foundation Source List

/-! ## malloc -/

section
variable {s : Blocks} (ok : s.Ok)
include ok

/-- No descriptor has blocks of more than 4084 bytes. -/
theorem findDesc_large {size : Nat} (large : 4084 < size) : s.heap.findDesc size = none := by
  cases found : s.heap.findDesc size with
  | none => rfl
  | some d =>
    have enough : size ≤ (s.heap.descs d).blockSize := by simpa using List.find?_some found
    have below : d < s.heap.descCnt := mem_range.mp (mem_of_find?_eq_some found)
    have most := (ok.layout.descs d below).small
    omega

/-- A size of which the header alone makes it wrap. -/
theorem malloc_wraps {size a : Nat} (wraps : 4294967284 < size) :
    ∃ after, s.heap.malloc size (some a) = .ok (some (pgSize * a + arenaSize), after) := by
  unfold Heap.malloc
  rw [if_neg (by omega), findDesc_large ok (by omega)]
  exact ⟨_, rfl⟩

end

/-- A block lies within the four gigabytes, behind the first page. -/
theorem gets_le {h after : Heap} {live : List Span} {size b n : Nat}
    (gets : h.Gets live size b n after) : n ≤ 4294963188 := by
  obtain ⟨run, held, block⟩ := gets.layout.live_block ⟨b, n⟩ mem_cons_self
  obtain ⟨low, high, -, -⟩ := gets.layout.block_bounds held block
  obtain ⟨first, -, last⟩ := gets.layout.bounds run held
  simp only [Span.stop, pgSize, arenaSize] at low high last
  omega

/-- `malloc` returns `NULL` or a block that is large enough exactly if adding the header to the
size does not wrap to a small number, or there are no pages. -/
theorem malloc_enough (s : Blocks) (h : ReachableWhile mallocSystem Blocks.Callable s)
    (size : Nat) (small : size < 4294967296) (page : Option Nat)
    (answers : s.Answers size page) :
    ∃ result after, s.heap.malloc size page = .ok (result, after) ∧
      ((∀ b ∈ result, ∃ n, after.blockSize b = .ok n ∧ size ≤ n) ↔
        size ≤ 4294967284 ∨ page = none) := by
  have ok := Blocks.reachable_ok h
  rcases ok.layout.malloc_spec ok.retained answers with failed | ⟨b, n, after, executed, gets⟩
  · refine ⟨none, s.heap, failed, iff_of_true nofun ?_⟩
    by_contra wraps
    obtain ⟨fits, asked⟩ := not_or.mp wraps
    obtain ⟨a, rfl⟩ := Option.ne_none_iff_exists'.mp asked
    obtain ⟨after, executed⟩ := malloc_wraps (a := a) ok (Nat.lt_of_not_le fits)
    cases failed.symm.trans executed
  · refine ⟨some b, after, executed, ⟨fun all => ?_, ?_⟩⟩
    · obtain ⟨n', measured, enough⟩ := all b rfl
      cases gets.blockSize.symm.trans measured
      have most := gets_le gets
      exact .inl (by omega)
    · rintro (fits | rfl) c ⟨⟩
      · exact ⟨n, gets.blockSize, gets.enough fits⟩
      · exact ⟨n, gets.blockSize, gets.enough (by
          by_contra wraps
          unfold Heap.malloc at executed
          rw [if_neg (by omega), findDesc_large ok (by omega)] at executed
          cases executed)⟩

/-- The heap that `malloc_init` makes. -/
def initialHeap : Except Halt Heap :=
  Heap.mallocInit ⟨fun _ => ⟨0, 0, []⟩, 0, fun _ => ⟨0, none, 0⟩, []⟩

theorem reachable_initialHeap {heap : Heap} (made : initialHeap = .ok heap) :
    ReachableWhile mallocSystem Blocks.Callable ⟨heap, []⟩ ∧ heap.held = [] := by
  refine ⟨.initial ⟨⟨_, rfl, rfl, made⟩, rfl⟩, ?_⟩
  cases made
  rfl

/-- Nothing has been given away yet. -/
theorem answers_initialHeap {heap : Heap} (free : heap.held = []) {size a : Nat} (pos : 0 < a)
    (some_ : 0 < heap.pagesFor size) (high : a + heap.pagesFor size ≤ 1048576) :
    Blocks.Answers ⟨heap, []⟩ size (some a) := by
  refine ⟨fun b _ => some_, fun b answer => ?_⟩
  obtain rfl := Option.some.inj answer
  refine ⟨pos, high, fun run held => ?_⟩
  rw [free] at held
  exact absurd held not_mem_nil

/-- A block of 1024 bytes for 600. -/
theorem malloc_enough_small : ∃ heap b after n, initialHeap = .ok heap ∧
    heap.malloc 600 (some 5) = .ok (some b, after) ∧ after.blockSize b = .ok n ∧ 600 ≤ n := by
  obtain ⟨heap, b, after, made, one, executed⟩ : ∃ heap b after, initialHeap = .ok heap ∧
      heap.pagesFor 600 = 1 ∧ heap.malloc 600 (some 5) = .ok (some b, after) :=
    ⟨_, _, _, rfl, rfl, rfl⟩
  obtain ⟨reached, free⟩ := reachable_initialHeap made
  have answers : Blocks.Answers ⟨heap, []⟩ 600 (some 5) :=
    answers_initialHeap free (by decide) (by rw [one]; decide) (by rw [one]; decide)
  obtain ⟨result, after', executed', enough⟩ :=
    malloc_enough ⟨heap, []⟩ reached 600 (by decide) (some 5) answers
  cases executed.symm.trans executed'
  obtain ⟨n, measured, fits⟩ := enough.mpr (.inl (by decide)) b rfl
  exact ⟨heap, b, after, n, made, executed, measured, fits⟩

/-- For `SIZE_MAX` bytes, with the header added, one page is enough. -/
theorem malloc_enough_wraps : ∃ (s : Blocks) (b : Nat) (after : Heap),
    ReachableWhile mallocSystem Blocks.Callable s ∧ s.Answers 4294967295 (some 5) ∧
    s.heap.malloc 4294967295 (some 5) = .ok (some b, after) ∧
    after.blockSize b = .ok 4084 := by
  obtain ⟨heap, b, after, made, one, executed, measured⟩ : ∃ heap b after,
      initialHeap = .ok heap ∧ heap.pagesFor 4294967295 = 1 ∧
      heap.malloc 4294967295 (some 5) = .ok (some b, after) ∧ after.blockSize b = .ok 4084 :=
    ⟨_, _, _, rfl, rfl, rfl, rfl⟩
  obtain ⟨reached, free⟩ := reachable_initialHeap made
  exact ⟨⟨heap, []⟩, b, after, reached,
    answers_initialHeap free (by decide) (by rw [one]; decide) (by rw [one]; decide), executed,
    measured⟩

/-! ## calloc -/

/-- What `calloc` is for: an overflow gives `NULL`, and a block that is returned holds as many
zeros as were asked for. -/
structure CallocRight (a b : Nat) (result : Option Nat) (after : Heap) (memory : Memory) :
    Prop where
  overflow : 4294967296 ≤ a * b → result = none
  zeros : a * b < 4294967296 → ∀ p ∈ result, ∃ n, after.blockSize p = .ok n ∧ a * b ≤ n ∧
    ∀ i < a * b, memory (p + i) = 0

/-- `calloc` is right exactly if the product and the header fit, or the wrapped product is
smaller than a factor, or `malloc` of the wrapped product fails. -/
theorem calloc_overflow (s : Blocks) (h : ReachableWhile mallocSystem Blocks.Callable s)
    (a b : Nat) (page : Option Nat) (answers : s.Answers (sizeT (a * b)) page)
    (junk memory : Memory) :
    ∃ result after memory', s.heap.callocOn a b page junk memory = .ok (result, after, memory') ∧
      (CallocRight a b result after memory' ↔
        a * b ≤ 4294967284 ∨ sizeT (a * b) < a ∨ sizeT (a * b) < b ∨
          ∃ after, s.heap.malloc (sizeT (a * b)) page = .ok (none, after)) := by
  have ok := Blocks.reachable_ok h
  unfold Heap.callocOn
  by_cases caught : sizeT (a * b) < a ∨ sizeT (a * b) < b
  · rw [if_pos caught]
    refine ⟨none, s.heap, memory, rfl, iff_of_true ⟨fun _ => rfl, nofun⟩ ?_⟩
    rcases caught with first | second
    · exact .inr (.inl first)
    · exact .inr (.inr (.inl second))
  rw [if_neg caught]
  rcases ok.layout.malloc_spec ok.retained answers with failed | ⟨p, n, after, executed, gets⟩
  · rw [failed]
    exact ⟨none, _, _, rfl, iff_of_true ⟨fun _ => rfl, nofun⟩ (.inr (.inr (.inr ⟨_, rfl⟩)))⟩
  · rw [executed]
    refine ⟨some p, after, _, rfl, ⟨fun right => .inl ?_, fun fine => ?_⟩⟩
    · by_contra large
      rcases Nat.lt_or_ge (a * b) 4294967296 with fits | overflows
      · obtain ⟨n', measured, enough, -⟩ := right.zeros fits p rfl
        cases gets.blockSize.symm.trans measured
        have most := gets_le gets
        omega
      · cases right.overflow overflows
    · have fits : a * b ≤ 4294967284 := by
        rcases fine with fits | first | second | ⟨_, failed⟩
        · exact fits
        · exact absurd (.inl first) caught
        · exact absurd (.inr second) caught
        · cases failed
      have size : sizeT (a * b) = a * b := sizeT_of_lt (by omega)
      refine ⟨fun overflows => by omega, fun _ c same => ?_⟩
      obtain rfl := Option.some.inj same
      have enough := gets.enough (size.le.trans fits)
      refine ⟨n, gets.blockSize, size.ge.trans enough, fun i inside => ?_⟩
      exact memset_inside (inside.trans_eq size.symm) 0

/-- Twice three hundred zeros. -/
theorem calloc_overflow_zeros : ∃ heap b after memory, initialHeap = .ok heap ∧
    heap.callocOn 300 2 (some 5) (fun _ => 3) (fun _ => 4) = .ok (some b, after, memory) ∧
    ∀ i < 600, memory (b + i) = 0 := by
  obtain ⟨heap, b, after, memory, made, one, executed⟩ : ∃ heap b after memory,
      initialHeap = .ok heap ∧ heap.pagesFor (sizeT (300 * 2)) = 1 ∧
      heap.callocOn 300 2 (some 5) (fun _ => 3) (fun _ => 4) = .ok (some b, after, memory) :=
    ⟨_, _, _, _, rfl, rfl, rfl⟩
  obtain ⟨reached, free⟩ := reachable_initialHeap made
  have answers : Blocks.Answers ⟨heap, []⟩ (sizeT (300 * 2)) (some 5) :=
    answers_initialHeap free (by decide) (by rw [one]; decide) (by rw [one]; decide)
  obtain ⟨result, after', memory', executed', right⟩ :=
    calloc_overflow ⟨heap, []⟩ reached 300 2 (some 5) answers (fun _ => 3) (fun _ => 4)
  cases executed.symm.trans executed'
  obtain ⟨n, -, -, zeros⟩ := (right.mpr (.inl (by decide))).zeros (by decide) b rfl
  exact ⟨heap, b, after, memory, made, executed, zeros⟩

/-- 65537 times 65537 bytes do not fit in a `size_t`, but the wrapped product is larger than
both factors, and a block of 33 pages is returned. -/
theorem calloc_overflow_square : ∃ (s : Blocks) (b : Nat) (after : Heap) (memory : Memory),
    ReachableWhile mallocSystem Blocks.Callable s ∧
    s.Answers (sizeT (65537 * 65537)) (some 5) ∧ 4294967296 ≤ 65537 * 65537 ∧
    s.heap.callocOn 65537 65537 (some 5) (fun _ => 3) (fun _ => 4) =
      .ok (some b, after, memory) ∧ after.blockSize b = .ok 135156 := by
  obtain ⟨heap, b, after, memory, made, pages, executed, measured⟩ : ∃ heap b after memory,
      initialHeap = .ok heap ∧ heap.pagesFor (sizeT (65537 * 65537)) = 33 ∧
      heap.callocOn 65537 65537 (some 5) (fun _ => 3) (fun _ => 4) =
        .ok (some b, after, memory) ∧ after.blockSize b = .ok 135156 :=
    ⟨_, _, _, _, rfl, rfl, rfl, rfl⟩
  obtain ⟨reached, free⟩ := reachable_initialHeap made
  have answers : Blocks.Answers ⟨heap, []⟩ (sizeT (65537 * 65537)) (some 5) :=
    answers_initialHeap free (by decide) (by rw [pages]; decide) (by rw [pages]; decide)
  exact ⟨⟨heap, []⟩, b, after, memory, reached, answers, by decide, executed, measured⟩

/-! ## realloc -/

/-- What `realloc` is for, in terms of the live blocks and of what they hold. -/
structure Reallocated (s : Blocks) (old : Option Nat) (newSize : Nat) (page : Option Nat)
    (memory : Memory) (result : Option Nat) (after : Heap) (memory' : Memory) : Prop where
  /-- The contents have moved; only the old block is given up. -/
  moved : ∀ b, result = some b → ∃ n, newSize ≤ n ∧
    s.step (.realloc old newSize page) = .ok ⟨after, ⟨b, n⟩ :: Blocks.drop s.live old⟩ ∧
    (∀ o, old = some o → o ≠ b ∧ ∃ oldSize, s.heap.blockSize o = .ok oldSize ∧
      ∀ i < min newSize oldSize, memory' (b + i) = memory (o + i)) ∧
    ∀ r ∈ Blocks.drop s.live old, ∀ x ∈ r, memory' x = memory x
  /-- Nothing has changed. -/
  failed : result = none → 0 < newSize → after = s.heap ∧
    s.step (.realloc old newSize page) = .ok s ∧ ∀ r ∈ s.live, ∀ x ∈ r, memory' x = memory x
  /-- The old block is freed. -/
  freed : newSize = 0 → result = none ∧
    s.step (.realloc old newSize page) = .ok ⟨after, Blocks.drop s.live old⟩ ∧
    ∀ r ∈ Blocks.drop s.live old, ∀ x ∈ r, memory' x = memory x

section
variable {s : Blocks} (ok : s.Ok) {page : Option Nat} (junk junk' memory : Memory)
include ok

/-- `free (old)`. -/
theorem reallocated_free {old : Option Nat} (owned : s.Owned old) :
    ∃ after, s.heap.reallocOn old 0 page junk junk' memory =
        .ok (none, after, s.heap.freeMemory junk' memory old) ∧
      Reallocated s old 0 page memory none after (s.heap.freeMemory junk' memory old) := by
  obtain ⟨after, executed, -⟩ := ok.free owned
  refine ⟨after, ?_, ⟨nofun, fun _ pos => absurd pos (Nat.lt_irrefl 0), fun _ => ⟨rfl, ?_, ?_⟩⟩⟩
  · unfold Heap.reallocOn
    rw [if_pos rfl, executed]
    rfl
  · change (s.heap.realloc old 0 page >>= _) = _
    unfold Heap.realloc
    rw [if_pos rfl, executed]
    rfl
  · intro r kept x inside
    cases old with
    | none => rfl
    | some o =>
      obtain ⟨block, member, rfl⟩ := owned o rfl
      obtain ⟨live, other⟩ := Blocks.mem_drop.mp kept
      exact ok.layout.freeMemory_live ok.retained member live other inside junk' memory

variable {newSize : Nat} (pos : newSize ≠ 0)
include pos

/-- `malloc` found nothing. -/
theorem reallocated_failed {old : Option Nat} (answers : s.Answers newSize page)
    (failed : s.heap.malloc newSize page = .ok (none, s.heap)) :
    s.heap.reallocOn old newSize page junk junk' memory =
        .ok (none, s.heap, s.heap.mallocMemory newSize page junk memory) ∧
      Reallocated s old newSize page memory none s.heap
        (s.heap.mallocMemory newSize page junk memory) := by
  refine ⟨?_, nofun, fun _ _ => ⟨rfl, ?_, ?_⟩, fun zero => absurd zero pos⟩
  · unfold Heap.reallocOn
    rw [if_neg pos, failed]
    cases old <;> rfl
  · change (s.heap.realloc old newSize page >>= _) = _
    unfold Heap.realloc
    rw [if_neg pos, failed]
    cases old <;> simp [bind, Except.bind, pos]
  · intro r live x inside
    exact ok.layout.mallocMemory_live answers live inside junk memory

/-- A new block for no old one. -/
theorem reallocated_new {b n : Nat} {after : Heap} (answers : s.Answers newSize page)
    (executed : s.heap.malloc newSize page = .ok (some b, after))
    (gets : s.heap.Gets s.live newSize b n after) (enough : newSize ≤ n) :
    s.heap.reallocOn none newSize page junk junk' memory =
        .ok (some b, after, s.heap.mallocMemory newSize page junk memory) ∧
      Reallocated s none newSize page memory (some b) after
        (s.heap.mallocMemory newSize page junk memory) := by
  have all : Blocks.drop s.live none = s.live := by simp [Source.Blocks.drop]
  refine ⟨?_, fun c same => ?_, by simp, fun zero => absurd zero pos⟩
  · unfold Heap.reallocOn
    rw [if_neg pos, executed]
    rfl
  · obtain rfl := Option.some.inj same
    refine ⟨n, enough, ?_, by simp, ?_⟩
    · change (s.heap.realloc none newSize page >>= _) = _
      unfold Heap.realloc
      rw [if_neg pos, executed, all]
      simpa [bind, Except.bind, all] using (Blocks.keep_gets gets).1
    · intro r live x inside
      rw [all] at live
      exact ok.layout.mallocMemory_live answers live inside junk memory

/-- The contents are moved. -/
theorem reallocated_moved {o b n : Nat} {middle : Heap} (owned : s.Owned (some o))
    (answers : s.Answers newSize page)
    (executed : s.heap.malloc newSize page = .ok (some b, middle))
    (gets : s.heap.Gets s.live newSize b n middle) (enough : newSize ≤ n) :
    ∃ after memory', s.heap.reallocOn (some o) newSize page junk junk' memory =
        .ok (some b, after, memory') ∧
      Reallocated s (some o) newSize page memory (some b) after memory' := by
  obtain ⟨old, member, rfl⟩ := owned o rfl
  obtain ⟨after, freed, kept, -⟩ := Blocks.move_ok gets owned
  obtain ⟨oldSize, measured, freed⟩ := bind_eq_ok.mp freed
  have size : oldSize = old.count := by
    have live := gets.layout.blockSize_live (.tail _ member)
    cases measured.symm.trans live
    rfl
  subst size
  have layout := gets.layout
  have different : old.start ≠ b := by
    rintro rfl
    exact (nodup_cons.mp layout.live_nodup).1 (mem_map.mpr ⟨old, member, rfl⟩)
  have least : (if newSize < old.count then newSize else old.count) = min newSize old.count := by
    split <;> omega
  obtain ⟨copied, result⟩ : ∃ copied, copied = memcpy
      (s.heap.mallocMemory newSize page junk memory) b old.start (min newSize old.count) :=
    ⟨_, rfl⟩
  -- a live block apart from the old one is not touched by `free`
  have freeing {r : Span} (live : r ∈ ⟨b, n⟩ :: s.live) (other : r.start ≠ old.start) {x : Nat}
      (inside : x ∈ r) : middle.freeMemory junk' copied (some old.start) x = copied x :=
    layout.freeMemory_live gets.retained (.tail _ member) live other inside junk' copied
  have mallocing {r : Span} (live : r ∈ s.live) {x : Nat} (inside : x ∈ r) :
      s.heap.mallocMemory newSize page junk memory x = memory x :=
    ok.layout.mallocMemory_live answers live inside junk memory
  have apart {r : Span} (live : r ∈ s.live) : Span.Apart ⟨b, n⟩ r :=
    layout.live_apart mem_cons_self (.tail _ live) fun same =>
      (nodup_cons.mp layout.live_nodup).1 (same ▸ mem_map_of_mem live)
  have within : min newSize old.count ≤ n := (min_le_left _ _).trans enough
  have part : Span.Apart ⟨b, min newSize old.count⟩ ⟨old.start, min newSize old.count⟩ :=
    (apart member).mono (Span.subset_of_le (le_refl _) (Nat.add_le_add_left within _))
      (Span.subset_of_le (le_refl _) (Nat.add_le_add_left (min_le_right _ _) _))
  have bytes := result.trans (memcpy_eq part)
  refine ⟨after, middle.freeMemory junk' copied (some old.start), ?_,
    ⟨fun c same => ?_, nofun, fun zero => absurd zero pos⟩⟩
  · unfold Heap.reallocOn
    rw [if_neg pos, executed, ok_bind]
    dsimp only
    rw [measured, ok_bind, least, ← result, freed]
    rfl
  · obtain rfl := Option.some.inj same
    refine ⟨n, enough, ?_, fun c same => ?_, fun r kept x inside => ?_⟩
    · change (s.heap.realloc (some old.start) newSize page >>= _) = _
      unfold Heap.realloc
      rw [if_neg pos, executed]
      simpa [bind, Except.bind, Except.map, measured, freed] using kept
    · obtain rfl := Option.some.inj same
      refine ⟨different, old.count, ok.layout.blockSize_live member, fun i below => ?_⟩
      have inside : b + i ∈ (⟨b, n⟩ : Span) := by
        simp only [Span.mem_iff, Span.stop]
        omega
      rw [freeing mem_cons_self different.symm inside, bytes, splice_inside below]
      refine mallocing member ⟨Nat.le_add_right _ _, ?_⟩
      simp only [Span.stop]
      omega
    · obtain ⟨live, other⟩ := Blocks.mem_drop.mp kept
      have outside : x ∉ (⟨b, n⟩ : Span) := fun copying => apart live x copying inside
      simp only [Span.mem_iff, Span.stop] at outside
      rw [freeing (.tail _ live) other inside, bytes, splice_outside (by omega),
        mallocing live inside]

end

/-- What `realloc` returns, for every live block or `NULL` and whether or not there are pages. -/
theorem realloc_contents (s : Blocks) (h : ReachableWhile mallocSystem Blocks.Callable s)
    (old : Option Nat) (newSize : Nat) (page : Option Nat)
    (permitted : s.Permitted (.realloc old newSize page)) (junk junk' memory : Memory) :
    ∃ result after memory', s.heap.reallocOn old newSize page junk junk' memory =
        .ok (result, after, memory') ∧
      Reallocated s old newSize page memory result after memory' := by
  have ok := Blocks.reachable_ok h
  obtain ⟨small, fresh, owned⟩ := permitted
  have answers := Blocks.answers_of_fresh small fresh
  by_cases zero : newSize = 0
  · subst zero
    obtain ⟨after, done⟩ := reallocated_free ok junk junk' memory owned
    exact ⟨_, after, _, done⟩
  rcases ok.layout.malloc_spec ok.retained answers with failed | ⟨b, n, middle, executed, gets⟩
  · exact ⟨_, _, _, reallocated_failed ok junk junk' memory zero answers failed⟩
  · have enough := gets.enough (by omega)
    cases old with
    | none =>
      exact ⟨_, _, _, reallocated_new ok junk junk' memory zero answers executed gets enough⟩
    | some o =>
      obtain ⟨after, memory', done⟩ :=
        reallocated_moved ok junk junk' memory zero owned answers executed gets enough
      exact ⟨_, after, memory', done⟩

/-- A block of 1024 bytes on the page 5 grows to 5000 bytes on the pages 8 and 9. -/
theorem realloc_contents_grow : ∃ (s : Blocks) (b : Nat) (after : Heap) (memory' : Memory),
    s.live = [⟨20492, 1024⟩] ∧
    s.heap.reallocOn (some 20492) 5000 (some 8) (fun _ => 1) (fun _ => 2)
      (fun x => BitVec.ofNat 8 x) = .ok (some b, after, memory') ∧
    ∀ i < 1024, memory' (b + i) = BitVec.ofNat 8 (20492 + i) := by
  obtain ⟨heap, s, made, one, taken, live, held, size, two, b, after, memory', executed⟩ :
      ∃ heap s, initialHeap = .ok heap ∧ heap.pagesFor 600 = 1 ∧
        Blocks.step ⟨heap, []⟩ (.malloc 600 (some 5)) = .ok s ∧ s.live = [⟨20492, 1024⟩] ∧
        s.heap.held = [⟨5, 1⟩] ∧ s.heap.blockSize 20492 = .ok 1024 ∧
        s.heap.pagesFor 5000 = 2 ∧ ∃ b after memory',
          s.heap.reallocOn (some 20492) 5000 (some 8) (fun _ => 1) (fun _ => 2)
            (fun x => BitVec.ofNat 8 x) = .ok (some b, after, memory') :=
    ⟨_, _, rfl, rfl, rfl, rfl, rfl, rfl, rfl, _, _, _, rfl⟩
  obtain ⟨reached, free⟩ := reachable_initialHeap made
  have first : Blocks.Callable ⟨heap, []⟩ (.malloc 600 (some 5)) := ⟨by decide,
    answers_initialHeap free (by decide) (by rw [one]; decide) (by rw [one]; decide)⟩
  have permitted : s.Permitted (.realloc (some 20492) 5000 (some 8)) := by
    refine ⟨by decide, fun a answer => ?_, fun c same => ?_⟩
    · obtain rfl := Option.some.inj answer
      rw [two, held]
      refine ⟨by decide, by decide, fun run member => ?_⟩
      obtain rfl := mem_singleton.mp member
      exact (Span.apart_of_le (by decide)).symm
    · obtain rfl := Option.some.inj same
      exact ⟨⟨20492, 1024⟩, by rw [live]; exact mem_singleton_self _, rfl⟩
  obtain ⟨result, after', memory'', executed', right⟩ := realloc_contents s
    (reached.step _ first taken) (some 20492) 5000 (some 8) permitted (fun _ => 1) (fun _ => 2)
    fun x => BitVec.ofNat 8 x
  cases executed.symm.trans executed'
  obtain ⟨n, -, -, contents, -⟩ := right.moved b rfl
  obtain ⟨-, oldSize, measured, copied⟩ := contents 20492 rfl
  cases size.symm.trans measured
  exact ⟨s, b, after, memory', live, executed, copied⟩

end Calendarizador.Guarantees
