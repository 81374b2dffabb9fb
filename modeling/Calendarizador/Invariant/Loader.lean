import Calendarizador.Source.Loader

/-!
# Invariant of the ELF loader

A frame is mapped at most once, so a page that is being filled is not yet visible to the
user program: each step of the loader extends what the program sees (`Extends`) and changes
nothing of it.
-/
namespace Calendarizador.Source
open Foundation Function

namespace Loader

structure Ok (env : LoadEnv) (s : Loader) : Prop where
  dir : ∃ pd, s.pagedir = some pd ∧ pd ≠ env.initPageDir
  frame : ∀ u k w, s.pages u = some (k, w) → ∃ i < s.asked, env.answers i = some k
  once : ∀ u u' k w w', s.pages u = some (k, w) → s.pages u' = some (k, w') → u = u'
  table : ∀ u, s.pages u ≠ none → s.tables (u / 1024) = true
  range : ∀ u, s.pages u ≠ none → 1 ≤ u ∧ u < 786432
  unwrapped : s.wrapped = false

/-- What the user program saw, it still sees. -/
def Extends (s after : Loader) : Prop :=
  ∀ va seen, s.userByte va = some seen → after.userByte va = some seen

theorem Extends.refl (s : Loader) : Extends s s := fun _ _ seen => seen

theorem Extends.trans {s middle after : Loader} (first : Extends s middle)
    (second : Extends middle after) : Extends s after :=
  fun va seen before => second va seen (first va seen before)

theorem extends_of_eq {s after : Loader} (pages : after.pages = s.pages)
    (memory : after.memory = s.memory) : Extends s after := by
  intro va seen before
  rwa [userByte, pages, memory]

/-- No user page maps the frame. -/
def Unmapped (s : Loader) (k : Nat) : Prop := ∀ u w, s.pages u ≠ some (k, w)

section
variable {env : LoadEnv} {s : Loader} {k a upage n fuel : Nat} {file : Executable} {p : Phdr}

/-- The allocator has handed out the frame, and it is mapped nowhere. -/
def Reserved (env : LoadEnv) (s : Loader) (k : Nat) : Prop :=
  (∃ i < s.asked, env.answers i = some k) ∧ s.Unmapped k

/-- A frame the allocator has not handed out before is mapped nowhere. -/
theorem Ok.reserved (ok : s.Ok env) (fresh : env.Fresh) (answer : env.answers s.asked = some k) :
    s.ask.Reserved env k := by
  refine ⟨⟨s.asked, Nat.lt_succ_self _, answer⟩, fun u w mapped => ?_⟩
  obtain ⟨i, before, same⟩ := ok.frame u k w mapped
  have equal := fresh.distinct i s.asked k same answer
  omega

/-- Writing to a frame that is not mapped. -/
theorem Ok.extends_setMemory (ok : s.Ok env) (fresh : env.Fresh) (reserved : s.Reserved env k)
    {memory : Nat → BitVec 8} (same : ∀ a, ¬ (k ≤ a ∧ a < k + pgSize) → memory a = s.memory a) :
    Extends s (s.setMemory memory) := by
  intro va seen before
  obtain ⟨⟨frame, w⟩, mapped, rfl⟩ := Option.map_eq_some_iff.mp before
  refine Option.map_eq_some_iff.mpr ⟨(frame, w), mapped, ?_⟩
  obtain ⟨⟨j, -, own⟩, unmapped⟩ := reserved
  obtain ⟨i, -, answer⟩ := ok.frame _ _ _ mapped
  have aligned := (fresh.frame j k own).1
  have aligned' := (fresh.frame i frame answer).1
  have different : frame ≠ k := by
    rintro rfl
    exact unmapped _ w mapped
  have outside : ¬ (k ≤ frame + pgOfs va ∧ frame + pgOfs va < k + pgSize) := by
    simp only [pgOfs, pgSize] at aligned aligned' ⊢
    omega
  rw [setMemory_memory, same _ outside]

theorem Ok.setMemory (ok : s.Ok env) (memory : Nat → BitVec 8) : (s.setMemory memory).Ok env :=
  ⟨ok.dir, ok.frame, ok.once, ok.table, ok.range, ok.unwrapped⟩

theorem Ok.ask (ok : s.Ok env) : s.ask.Ok env := by
  refine ⟨ok.dir, fun u k w mapped => ?_, ok.once, ok.table, ok.range, ok.unwrapped⟩
  obtain ⟨i, before, answer⟩ := ok.frame u k w mapped
  exact ⟨i, Nat.lt_succ_of_lt before, answer⟩

theorem Ok.seek (ok : s.Ok env) (pos : Int) : (s.seek pos).Ok env :=
  ⟨ok.dir, ok.frame, ok.once, ok.table, ok.range, ok.unwrapped⟩

theorem Ok.advance (ok : s.Ok env) (n : Nat) : (s.advance n).Ok env :=
  ⟨ok.dir, ok.frame, ok.once, ok.table, ok.range, ok.unwrapped⟩

theorem Ok.noteWrap (ok : s.Ok env) {b : Nat} (enough : b ≤ a) : (s.noteWrap a b).Ok env := by
  refine ⟨ok.dir, ok.frame, ok.once, ok.table, ok.range, ?_⟩
  rw [noteWrap_wrapped, ok.unwrapped, Bool.false_or]
  exact decide_eq_false (by omega)

theorem Ok.setTable (ok : s.Ok env) (n : Nat) : (s.setTable n).Ok env := by
  refine ⟨ok.dir, ok.frame, ok.once, fun u mapped => ?_, ok.range, ok.unwrapped⟩
  by_cases same : u / 1024 = n
  · simp [same]
  · simpa [same] using ok.table u mapped

theorem pdNo_eq (va : Nat) : pdNo va = pgNo va / 1024 := by
  simp only [pdNo, pgNo, pgSize]
  omega

/-- Mapping a frame that is mapped nowhere at a user page that is not mapped. -/
theorem Ok.setPage (ok : s.Ok env) {u : Nat} {w : Bool} (reserved : s.Reserved env k)
    (table : s.tables (u / 1024) = true) (low : 1 ≤ u) (high : u < 786432) :
    (s.setPage u (k, w)).Ok env := by
  refine ⟨ok.dir, ?_, ?_, ?_, ?_, ok.unwrapped⟩
  · intro u' k' w' mapped
    simp only [setPage_pages, update_apply] at mapped
    split at mapped
    · cases mapped
      exact reserved.1
    · exact ok.frame u' k' w' mapped
  · intro u₁ u₂ k' w₁ w₂ first second
    simp only [setPage_pages, update_apply] at first second
    split at first <;> split at second
    · rename_i same₁ same₂
      rw [same₁, same₂]
    · cases first
      exact absurd second (reserved.2 u₂ w₂)
    · cases second
      exact absurd first (reserved.2 u₁ w₁)
    · exact ok.once u₁ u₂ k' w₁ w₂ first second
  · intro u' mapped
    simp only [setPage_pages, update_apply] at mapped
    split at mapped
    · rename_i same
      rw [same]
      exact table
    · exact ok.table u' mapped
  · intro u' mapped
    simp only [setPage_pages, update_apply] at mapped
    split at mapped
    · rename_i same
      rw [same]
      exact ⟨low, high⟩
    · exact ok.range u' mapped

theorem extends_setPage {u : Nat} (free : s.pages u = none) (pte : Nat × Bool) :
    Extends s (s.setPage u pte) := by
  intro va seen before
  obtain ⟨old, mapped, rfl⟩ := Option.map_eq_some_iff.mp before
  refine Option.map_eq_some_iff.mpr ⟨old, ?_, rfl⟩
  have other : pgNo va ≠ u := by
    rintro rfl
    rw [free] at mapped
    cases mapped
  rw [setPage_pages, update_of_ne other]
  exact mapped

/-- The call returns, keeps the invariant and hides nothing; `post` says more of its result. -/
def Returns {β : Type} (env : LoadEnv) (s : Loader) (call : Except Halt (β × Loader))
    (post : β → Loader → Prop) : Prop :=
  ∃ result after, call = .ok (result, after) ∧ after.Ok env ∧ Extends s after ∧ post result after

section
variable {β γ : Type} {call : Except Halt (β × Loader)} {post post' : β → Loader → Prop}
variable {m : Loader} {result : β}

theorem Returns.stop (ok : s.Ok env) (held : post result s) :
    Returns env s (.ok (result, s)) post :=
  ⟨result, s, rfl, ok, .refl s, held⟩

theorem Returns.before (seen : Extends s m) (h : Returns env m call post) :
    Returns env s call post := by
  obtain ⟨result, after, returned, ok, seen', held⟩ := h
  exact ⟨result, after, returned, ok, seen.trans seen', held⟩

theorem Returns.imp (h : Returns env s call post)
    (weaker : ∀ result after, Extends s after → post result after → post' result after) :
    Returns env s call post' := by
  obtain ⟨result, after, returned, ok, seen, held⟩ := h
  exact ⟨result, after, returned, ok, seen, weaker result after seen held⟩

theorem Returns.bind {f : β × Loader → Except Halt (γ × Loader)} {last : γ → Loader → Prop}
    (h : Returns env s call post) (next : ∀ result middle, middle.Ok env → post result middle →
      Returns env middle (f (result, middle)) last) : Returns env s (call >>= f) last := by
  obtain ⟨result, middle, rfl, ok, seen, held⟩ := h
  exact .before seen (next result middle ok held)

end

/-! ## Mapping a page -/

theorem createTable_spec (ok : s.Ok env) {vaddr : Nat} (user : vaddr < physBase) :
    ∃ made after, s.createTable env vaddr = .ok (made, after) ∧ after.Ok env ∧
      after.pages = s.pages ∧ after.memory = s.memory ∧ after.pos = s.pos ∧
      after.pagedir = s.pagedir ∧ s.asked ≤ after.asked ∧
      (made = true → after.tables (pdNo vaddr) = true) := by
  obtain ⟨pd, dir, -⟩ := ok.dir
  unfold createTable
  rw [ensure_bind (by rw [dir]; simp), ensure_bind user]
  by_cases present : s.tables (pdNo vaddr) = true
  · exact ⟨true, s, by rw [if_pos present], ok, rfl, rfl, rfl, rfl, le_rfl, fun _ => present⟩
  · rw [if_neg present]
    unfold getPage
    cases env.answers s.asked with
    | none =>
      exact ⟨false, s.ask, rfl, ok.ask, rfl, rfl, rfl, rfl, Nat.le_succ _, nofun⟩
    | some pt =>
      exact ⟨true, s.ask.setTable (pdNo vaddr), rfl, ok.ask.setTable _, rfl, rfl, rfl, rfl,
        Nat.le_succ _, fun _ => by simp⟩

/-- The assertions of `pagedir_set_page` hold, and a new mapping hides nothing. -/
theorem installPage_spec (ok : s.Ok env) (fresh : env.Fresh) (reserved : s.Reserved env k)
    (writable : Bool) (aligned : pgOfs upage = 0) (low : pgSize ≤ upage)
    (user : upage < physBase) :
    Returns env s (s.installPage env upage k writable) fun installed after =>
      after.memory = s.memory ∧ after.pos = s.pos ∧ (installed = false → after.Reserved env k) ∧
      (installed = true → after.pages (pgNo upage) = some (k, writable)) := by
  obtain ⟨pd, dir, other⟩ := ok.dir
  obtain ⟨⟨i, asked, answer⟩, unmapped⟩ := id reserved
  obtain ⟨frameAligned, kernel, ram, -⟩ := fresh.frame i k answer
  unfold installPage pagedirGetPage
  rw [ensure_bind user, ensure_bind (by rw [dir]; simp)]
  by_cases mapped : s.tables (pdNo upage) = true ∧ s.pages (pgNo upage) ≠ none
  · obtain ⟨pte, found⟩ := Option.ne_none_iff_exists'.mp mapped.2
    rw [if_pos mapped.1, found]
    exact .stop ok ⟨rfl, rfl, fun _ => reserved, nofun⟩
  · have free : s.pages (pgNo upage) = none := by
      by_contra used
      have table := ok.table _ used
      rw [← pdNo_eq] at table
      exact mapped ⟨table, used⟩
    have absent : (if s.tables (pdNo upage) = true then
        Except.ok ((s.pages (pgNo upage)).map fun pte => pte.1 + pgOfs upage)
        else Except.ok none : Except Halt (Option Nat)) = .ok none := by
      rw [free]
      split <;> rfl
    rw [absent]
    unfold pagedirSetPage
    have notInit : s.pagedir ≠ some env.initPageDir := by
      rw [dir]
      exact fun same => other (Option.some.inj same)
    rw [ensure_bind aligned, ensure_bind frameAligned, ensure_bind user, ensure_bind kernel,
      ensure_bind ram, ensure_bind notInit]
    obtain ⟨made, middle, created, ok', pages, memory, pos, -, asked', table⟩ :=
      createTable_spec ok user
    have reserved' : middle.Reserved env k :=
      ⟨⟨i, asked.trans_le asked', answer⟩, fun u w => pages ▸ unmapped u w⟩
    rw [created]
    refine .before (extends_of_eq pages memory) ?_
    cases made with
    | false => exact .stop ok' ⟨memory, pos, fun _ => reserved', nofun⟩
    | true =>
      have free' : middle.pages (pgNo upage) = none := by rw [pages, free]
      have page : 1 ≤ pgNo upage ∧ pgNo upage < 786432 := by
        simp only [pgNo, pgSize, physBase] at low user ⊢
        omega
      have table' : middle.tables (pgNo upage / 1024) = true := by
        rw [← pdNo_eq]
        exact table rfl
      exact ⟨true, middle.setPage (pgNo upage) (k, writable), ensure_bind free' _,
        ok'.setPage reserved' table' page.1 page.2, extends_setPage free' _, memory, pos, nofun,
        fun _ => by simp⟩

/-! ## Loading a segment -/

theorem copyIn_outside {memory : Nat → BitVec 8} {src dst : Nat}
    (outside : ¬ (dst ≤ a ∧ a < dst + n)) : copyIn memory file src dst n a = memory a :=
  if_neg outside

/-- Clearing a page that is mapped nowhere before it is given back. -/
theorem Returns.free {β : Type} {post : β → Loader → Prop} {result : β} (ok : s.Ok env)
    (fresh : env.Fresh) (reserved : s.Reserved env k) (held : post result (s.freePage k)) :
    Returns env s (.ok (result, s.freePage k)) post :=
  ⟨_, _, rfl, ok.setMemory _, ok.extends_setMemory fresh reserved fun _ => memset_outside, held⟩

/-- A page is mapped, or it is given back. -/
theorem Returns.install {β : Type} {f : Bool × Loader → Except Halt (β × Loader)}
    {post : β → Loader → Prop} {refused : β} (ok : s.Ok env) (fresh : env.Fresh)
    (reserved : s.Reserved env k) (writable : Bool) (aligned : pgOfs upage = 0)
    (low : pgSize ≤ upage) (user : upage < physBase)
    (fails : ∀ after, f (false, after) = .ok (refused, after.freePage k))
    (held : ∀ after, post refused after)
    (next : ∀ after, after.Ok env → after.memory = s.memory → after.pos = s.pos →
      after.pages (pgNo upage) = some (k, writable) → Returns env after (f (true, after)) post) :
    Returns env s (s.installPage env upage k writable >>= f) post := by
  refine (installPage_spec ok fresh reserved writable aligned low user).bind ?_
  rintro (_ | _) after ok' ⟨memory, pos, kept, mapped⟩
  · rw [fails]
    exact .free ok' fresh (kept rfl) (held _)
  · exact next after ok' memory pos (mapped rfl)

/-- One page: what was read from the file, and zeros behind it. -/
theorem loadPage_spec (ok : s.Ok env) (fresh : env.Fresh) (file : Executable) (writable : Bool)
    (aligned : pgOfs upage = 0) (low : pgSize ≤ upage) (user : upage < physBase)
    (most : n ≤ pgSize) :
    Returns env s (s.loadPage env file upage n writable) fun loaded after => loaded = true →
      after.pos = s.pos + n ∧ (0 < n → s.pos.toNat + n ≤ file.length) ∧
        ∀ j < pgSize, after.userByte (upage + j) =
          some (if j < n then file.data (s.pos.toNat + j) else 0, writable) := by
  unfold loadPage getPage
  refine .before (m := s.ask) (extends_of_eq rfl rfl) ?_
  cases answer : env.answers s.asked with
  | none => exact .stop ok.ask nofun
  | some k =>
    have reserved := ok.reserved fresh answer
    generalize count : s.ask.readCount env file n = m
    have read : m ≤ n := by
      rw [← count]
      exact (min_le_left _ _).trans (min_le_left _ _)
    -- what the page holds after the read, and the state then
    have okRead : ((s.ask.advance m).setMemory
        (copyIn s.memory file s.pos.toNat k m)).Ok env := (ok.ask.advance m).setMemory _
    have extendsRead : Extends s.ask ((s.ask.advance m).setMemory
        (copyIn s.memory file s.pos.toNat k m)) :=
      ok.ask.extends_setMemory fresh reserved fun a outside => copyIn_outside (by omega)
    have step : s.ask.fileReadInto env file k n =
        (m, (s.ask.advance m).setMemory (copyIn s.memory file s.pos.toNat k m)) := by
      unfold fileReadInto
      rw [count]
      rfl
    simp only [step]
    refine .before extendsRead ?_
    by_cases short : m ≠ n
    · rw [if_pos short]
      exact .free okRead fresh reserved nofun
    rw [if_neg short]
    obtain rfl : m = n := not_not.mp short
    refine .before ?_ (.install (okRead.setMemory _) fresh reserved writable aligned low user
      (fun _ => rfl) (fun _ => nofun) fun after ok' memory pos' mapped => .stop ok' fun _ => ?_)
    · exact okRead.extends_setMemory fresh reserved fun a outside => memset_outside (by omega)
    have inFile : 0 < m → s.pos.toNat + m ≤ file.length := by
      simp only [readCount, ask_pos] at count
      omega
    refine ⟨pos', inFile, fun j below => ?_⟩
    have page : pgNo (upage + j) = pgNo upage ∧ pgOfs (upage + j) = j := by
      simp only [pgNo, pgOfs, pgSize] at aligned below ⊢
      omega
    rw [userByte, page.1, page.2, mapped, memory]
    simp only [Option.map_some, setMemory_memory, Option.some.injEq, Prod.mk.injEq, and_true]
    by_cases inside : j < m
    · rw [if_pos inside, memset_outside (by omega), setMemory_memory, copyIn, if_pos (by omega),
        Nat.add_sub_cancel_left]
    · rw [if_neg inside, memset, if_pos (by omega)]

/-- The arithmetic of one round: what is left to read and to clear. -/
theorem round_left {readBytes zeroBytes pages : Nat}
    (total : readBytes + zeroBytes = pgSize * (pages + 1)) (small : readBytes < 4294967296)
    (small' : zeroBytes < 4294967296)
    (here : n = if readBytes < pgSize then readBytes else pgSize) :
    n ≤ pgSize ∧ n ≤ readBytes ∧ pgSize - n ≤ zeroBytes ∧ sub32 readBytes n = readBytes - n ∧
      sub32 zeroBytes (pgSize - n) = zeroBytes - (pgSize - n) ∧
      readBytes - n + (zeroBytes - (pgSize - n)) = pgSize * pages ∧
      (readBytes - n = 0 ∨ n = pgSize) := by
  by_cases part : readBytes < pgSize
  · rw [if_pos part] at here
    simp only [sub32, sizeT, pgSize] at *
    omega
  · rw [if_neg part] at here
    simp only [sub32, sizeT, pgSize] at *
    omega

/-- The loop of `load_segment`, by induction on the rounds it is given. -/
theorem loadPages_spec (fresh : env.Fresh) (file : Executable) (writable : Bool) :
    ∀ {s : Loader} {upage readBytes zeroBytes pages : Nat}, s.Ok env → pgOfs upage = 0 →
      pgSize ≤ upage → upage + (readBytes + zeroBytes) ≤ physBase →
      readBytes + zeroBytes = pgSize * pages → pages ≤ fuel → 0 ≤ s.pos →
      Returns env s (loadPages env file writable fuel s upage readBytes zeroBytes)
        fun loaded after => loaded = true →
          (0 < readBytes → s.pos.toNat + readBytes ≤ file.length) ∧
          ∀ j < readBytes + zeroBytes, after.userByte (upage + j) =
            some (if j < readBytes then file.data (s.pos.toNat + j) else 0, writable) := by
  induction fuel with
  | zero =>
    intro s upage readBytes zeroBytes pages ok aligned low high total enough pos
    have none_ : ¬ (readBytes > 0 ∨ zeroBytes > 0) := by
      simp only [pgSize] at total
      omega
    rw [loadPages, if_neg none_]
    exact .stop ok fun _ => ⟨by omega, fun j below => by omega⟩
  | succ fuel ih =>
    intro s upage readBytes zeroBytes pages ok aligned low high total enough pos
    cases pages with
    | zero =>
      have none_ : ¬ (readBytes > 0 ∨ zeroBytes > 0) := by omega
      rw [loadPages, if_neg none_]
      exact .stop ok fun _ => ⟨by omega, fun j below => by omega⟩
    | succ pages =>
      have some_ : readBytes > 0 ∨ zeroBytes > 0 := by
        simp only [pgSize] at total
        omega
      have bounds : readBytes < 4294967296 ∧ zeroBytes < 4294967296 ∧ upage < physBase ∧
          upage + pgSize < 4294967296 := by
        simp only [physBase, pgSize] at *
        omega
      obtain ⟨n, here⟩ : ∃ n, n = if readBytes < pgSize then readBytes else pgSize := ⟨_, rfl⟩
      obtain ⟨most, enoughRead, enoughZero, readEq, zeroEq, rest, last⟩ :=
        round_left total bounds.1 bounds.2.1 here
      have next : sizeT (upage + pgSize) = upage + pgSize := sizeT_of_lt bounds.2.2.2
      have aligned' : pgOfs (upage + pgSize) = 0 := by
        simp only [pgOfs, pgSize] at aligned ⊢
        omega
      rw [loadPages, if_pos some_]
      simp only [← here, next, readEq, zeroEq]
      refine (loadPage_spec ok fresh file writable aligned low bounds.2.2.1 most).bind ?_
      rintro (_ | _) middle ok' page
      · exact .stop ok' nofun
      obtain ⟨pos', inFile, bytes⟩ := page rfl
      have loop := ih ((ok'.noteWrap enoughRead).noteWrap enoughZero) aligned' (by omega)
        (by rw [rest]; simp only [pgSize] at total ⊢; omega) rest (by omega)
        (by simp only [noteWrap_pos, pos']; omega)
      refine (loop.before (extends_of_eq rfl rfl)).imp fun loaded after extends' more done =>
        ⟨fun some_ => ?_, fun j below => ?_⟩
      · have left := (more done).1
        simp only [noteWrap_pos, pos'] at left
        simp only [pgSize] at here
        omega
      · by_cases first : j < pgSize
        · -- a byte of the page just loaded is still there
          have same : j < n ↔ j < readBytes := by omega
          have byte := bytes j first
          simp only [same] at byte
          exact extends' _ _ byte
        · have byte := (more done).2 (j - pgSize) (by omega)
          have address : upage + pgSize + (j - pgSize) = upage + j := by omega
          have same : j - pgSize < readBytes - n ↔ j < readBytes := by omega
          rw [address] at byte
          simp only [same, noteWrap_pos, pos'] at byte
          rw [byte]
          by_cases inside : j < readBytes
          · have source : (s.pos + n).toNat + (j - pgSize) = s.pos.toNat + j := by omega
            rw [if_pos inside, if_pos inside, source]
          · rw [if_neg inside, if_neg inside]

theorem Extends.hasSegment {after : Loader} (extends_ : Extends s after)
    (found : s.HasSegment file p) : after.HasSegment file p :=
  ⟨found.source, fun i below => extends_ _ _ (found.bytes i below)⟩

/-- What `validate_segment` has checked; the sum of address and size does not wrap. -/
theorem validateSegment_spec (small : p.memsz < 4294967296)
    (valid : validateSegment p file = true) :
    p.offset % pgSize = p.vaddr % pgSize ∧ p.offset ≤ file.length ∧ p.filesz ≤ p.memsz ∧
      0 < p.memsz ∧ p.vaddr + p.memsz < physBase ∧ pgSize ≤ p.vaddr := by
  unfold validateSegment at valid
  simp only [Bool.if_false_left, Bool.and_true, Bool.and_eq_true, Bool.not_eq_true',
    decide_eq_false_iff_not, ne_eq, not_not] at valid
  simp only [sizeT, physBase, pgSize] at valid ⊢
  omega

theorem loadSegment_spec (ok : s.Ok env) (fresh : env.Fresh) (file : Executable)
    {ofs readBytes zeroBytes pages : Nat} (writable : Bool) (small : ofs < 2147483648)
    (page : ofs % pgSize = 0) (aligned : pgOfs upage = 0) (low : pgSize ≤ upage)
    (high : upage + (readBytes + zeroBytes) ≤ physBase)
    (total : readBytes + zeroBytes = pgSize * pages) (enough : 786432 ≤ fuel) :
    Returns env s (loadSegment env fuel file s (i32 ofs) upage readBytes zeroBytes writable)
      fun loaded after => loaded = true → (0 < readBytes → ofs + readBytes ≤ file.length) ∧
        ∀ j < readBytes + zeroBytes, after.userByte (upage + j) =
          some (if j < readBytes then file.data (ofs + j) else 0, writable) := by
  have exact_ : i32 ofs = ofs := i32_of_bounds _ (by omega) (by omega)
  have whole : sizeT (readBytes + zeroBytes) % pgSize = 0 := by
    rw [sizeT_of_lt (by simp only [physBase] at high; omega), total, Nat.mul_mod_right]
  have multiple : (ofs : Int).tmod 4096 = 0 := by
    rw [Int.tmod_eq_emod_of_nonneg (Int.natCast_nonneg ofs)]
    simp only [pgSize] at page
    omega
  have rounds : pages ≤ fuel := by
    simp only [physBase, pgSize] at high total
    omega
  unfold loadSegment fileSeek
  rw [exact_, ensure_bind whole, ensure_bind aligned, ensure_bind multiple,
    ensure_bind (Int.natCast_nonneg ofs)]
  exact loadPages_spec fresh file writable (ok.seek ofs) aligned low high total rounds
    (Int.natCast_nonneg ofs)

theorem pgRoundUp_spec {x : Nat} (small : x ≤ 4294963200) :
    x ≤ pgRoundUp x ∧ pgRoundUp x < x + pgSize ∧ ∃ pages, pgRoundUp x = pgSize * pages := by
  refine ⟨?_, ?_, sizeT (x + pgSize - 1) / pgSize, Nat.mul_comm _ _⟩
  all_goals
    simp only [pgRoundUp, pgRoundDown, sizeT, pgSize]
    omega

example : pgRoundUp 4097 = 8192 := by decide +kernel

/-- The `PT_LOAD` case of `load`. -/
theorem loadPhdr_spec (ok : s.Ok env) (fresh : env.Fresh) (file : Executable)
    (small : p.memsz < 4294967296) (enough : 786432 ≤ fuel) :
    Returns env s (loadPhdr env fuel file s p)
      fun loaded after => loaded = true → after.HasSegment file p := by
  unfold loadPhdr
  by_cases valid : validateSegment p file = true
  · rw [if_pos valid]
    obtain ⟨same, inFile, more, some_, high, low⟩ := validateSegment_spec small valid
    have length := file.small
    simp only [physBase, pgSize] at high low same
    have total : sizeT (p.vaddr % pgSize + p.memsz) = p.vaddr % pgSize + p.memsz :=
      sizeT_of_lt (by simp only [pgSize]; omega)
    obtain ⟨reach, tight, pages, whole⟩ :=
      pgRoundUp_spec (x := p.vaddr % pgSize + p.memsz) (by simp only [pgSize]; omega)
    have source : pgRoundDown p.offset < 2147483648 ∧ pgRoundDown p.offset % pgSize = 0 ∧
        pgRoundDown p.offset + p.vaddr % pgSize = p.offset := by
      simp only [pgRoundDown, pgSize]
      omega
    have target : pgOfs (pgRoundDown p.vaddr) = 0 ∧ pgSize ≤ pgRoundDown p.vaddr ∧
        pgRoundDown p.vaddr + p.vaddr % pgSize = p.vaddr ∧
        pgRoundDown p.vaddr + pgRoundUp (p.vaddr % pgSize + p.memsz) ≤ physBase := by
      simp only [pgRoundDown, pgOfs, pgSize, physBase] at whole tight ⊢
      omega
    -- the bytes of the segment are those behind its offset in the first page
    have segment : ∀ {after : Loader} {readBytes : Nat},
        (readBytes = 0 ∧ p.filesz = 0 ∨ readBytes = p.vaddr % pgSize + p.filesz) →
        (0 < readBytes → pgRoundDown p.offset + readBytes ≤ file.length) →
        (∀ j < pgRoundUp (p.vaddr % pgSize + p.memsz), after.userByte (pgRoundDown p.vaddr + j) =
          some (if j < readBytes then file.data (pgRoundDown p.offset + j) else 0, p.writable)) →
        after.HasSegment file p := by
      intro after readBytes reads inside bytes
      refine ⟨by omega, fun i below => ?_⟩
      have byte := bytes (p.vaddr % pgSize + i) (by omega)
      have first : pgRoundDown p.vaddr + (p.vaddr % pgSize + i) = p.vaddr + i := by omega
      have second : pgRoundDown p.offset + (p.vaddr % pgSize + i) = p.offset + i := by omega
      have inside : p.vaddr % pgSize + i < readBytes ↔ i < p.filesz := by omega
      rw [first, second] at byte
      simpa only [inside] using byte
    by_cases filled : p.filesz > 0
    · have readEq : sizeT (p.vaddr % pgSize + p.filesz) = p.vaddr % pgSize + p.filesz :=
        sizeT_of_lt (by simp only [pgSize]; omega)
      have left : p.vaddr % pgSize + p.filesz ≤ pgRoundUp (p.vaddr % pgSize + p.memsz) := by omega
      have zeroEq : sub32 (pgRoundUp (p.vaddr % pgSize + p.memsz)) (p.vaddr % pgSize + p.filesz) =
          pgRoundUp (p.vaddr % pgSize + p.memsz) - (p.vaddr % pgSize + p.filesz) := by
        simp only [sub32, sizeT, physBase, pgSize] at target left ⊢
        omega
      have sum : p.vaddr % pgSize + p.filesz + (pgRoundUp (p.vaddr % pgSize + p.memsz) -
          (p.vaddr % pgSize + p.filesz)) = pgRoundUp (p.vaddr % pgSize + p.memsz) := by omega
      have loads := loadSegment_spec (ok.noteWrap left) fresh file p.writable source.1 source.2.1
        target.1 target.2.1 (by rw [sum]; exact target.2.2.2) (sum.trans whole) enough
      simp only [if_pos filled, total, readEq, zeroEq]
      refine (loads.before (extends_of_eq rfl rfl)).imp fun loaded after _ bytes done => ?_
      exact segment (.inr rfl) (bytes done).1 (sum ▸ (bytes done).2)
    · simp only [if_neg filled, total]
      refine (loadSegment_spec ok fresh file p.writable source.1 source.2.1 target.1 target.2.1
        (by rw [Nat.zero_add]; exact target.2.2.2) ((Nat.zero_add _).trans whole) enough).imp
        fun loaded after _ bytes done => ?_
      exact segment (.inl ⟨rfl, by omega⟩) (bytes done).1
        (by simpa only [Nat.zero_add] using (bytes done).2)
  · rw [if_neg valid]
    exact .stop ok nofun

/-! ## Loading an executable -/

theorem word_lt (file : Executable) (ofs : Nat) : file.word ofs < 4294967296 := by
  have half : ∀ o, file.half o < 65536 := fun o => by
    have first := (file.data o).isLt
    have second := (file.data (o + 1)).isLt
    simp only [Executable.half]
    omega
  have first := half ofs
  have second := half (ofs + 2)
  simp only [Executable.word]
  omega

/-- The loop over the program headers, by induction on their number. -/
theorem loadPhdrs_spec (fresh : env.Fresh) (file : Executable) (enough : 786432 ≤ fuel)
    {more : Nat} : ∀ {s : Loader} (fileOfs : Int), s.Ok env →
      Returns env s (loadPhdrs env fuel file more s fileOfs) fun loaded after =>
        loaded = true → ∀ i < more, 0 ≤ fileOfs ∧
          ((file.phdr (fileOfs.toNat + 32 * i)).type = ptLoad →
            after.HasSegment file (file.phdr (fileOfs.toNat + 32 * i))) := by
  induction more with
  | zero =>
    intro s fileOfs ok
    exact .stop ok fun _ i below => absurd below (Nat.not_lt_zero i)
  | succ more ih =>
    intro s fileOfs ok
    rw [loadPhdrs]
    by_cases outside : fileOfs < 0 ∨ fileOfs > file.length
    · rw [if_pos outside]
      exact .stop ok nofun
    have length := file.small
    rw [if_neg outside]
    unfold fileSeek
    rw [ensure_bind (show 0 ≤ fileOfs by omega), ok_bind]
    unfold fileRead
    dsimp only
    generalize count : (s.seek fileOfs).readCount env file 32 = n
    refine .before (m := (s.seek fileOfs).advance n) (extends_of_eq rfl rfl) ?_
    have ok' : ((s.seek fileOfs).advance n).Ok env := (ok.seek fileOfs).advance n
    generalize (s.seek fileOfs).advance n = s' at ok' ⊢
    by_cases short : n ≠ 32
    · rw [if_pos short]
      exact .stop ok' nofun
    rw [if_neg short]
    have inFile : fileOfs + 32 ≤ file.length := by
      simp only [readCount, seek_pos] at count
      omega
    have next : i32 (fileOfs + 32) = fileOfs + 32 := i32_of_bounds _ (by omega) (by omega)
    -- the rest of the headers, once this one is dealt with
    have rest : ∀ {s'' : Loader}, s''.Ok env →
        ((file.phdr fileOfs.toNat).type = ptLoad → s''.HasSegment file (file.phdr fileOfs.toNat)) →
        Returns env s'' (loadPhdrs env fuel file more s'' (i32 (fileOfs + 32)))
          fun loaded after => loaded = true → ∀ i < more + 1, 0 ≤ fileOfs ∧
            ((file.phdr (fileOfs.toNat + 32 * i)).type = ptLoad →
              after.HasSegment file (file.phdr (fileOfs.toNat + 32 * i))) := by
      intro s'' ok'' this
      refine (ih (i32 (fileOfs + 32)) ok'').imp fun loaded after extends' headers done i below =>
        ⟨by omega, fun type => ?_⟩
      cases i with
      | zero => exact extends'.hasSegment (this type)
      | succ i =>
        have position : (i32 (fileOfs + 32)).toNat + 32 * i = fileOfs.toNat + 32 * (i + 1) := by
          rw [next]
          omega
        rw [← position] at type ⊢
        exact (headers done i (by omega)).2 type
    by_cases refused : (file.phdr fileOfs.toNat).type = ptDynamic ∨
        (file.phdr fileOfs.toNat).type = ptInterp ∨ (file.phdr fileOfs.toNat).type = ptShlib
    · rw [if_pos refused]
      exact .stop ok' nofun
    rw [if_neg refused]
    by_cases load : (file.phdr fileOfs.toNat).type = ptLoad
    · rw [if_pos load]
      refine (loadPhdr_spec ok' fresh file (word_lt file _) enough).bind ?_
      rintro (_ | _) s'' ok'' segment
      · exact .stop ok'' nofun
      · exact rest ok'' fun _ => segment rfl
    · rw [if_neg load]
      exact rest ok' fun type => absurd type load

theorem setupStack_spec (ok : s.Ok env) (fresh : env.Fresh) :
    Returns env s (s.setupStack env) fun _ _ => True := by
  unfold setupStack getPage
  refine .before (m := s.ask) (extends_of_eq rfl rfl) ?_
  cases answer : env.answers s.asked with
  | none => exact .stop ok.ask trivial
  | some k =>
    have reserved := ok.reserved fresh answer
    refine .before ?_ (.install (ok.ask.setMemory (memset s.memory k 0 pgSize)) fresh reserved true
      (show pgOfs (physBase - pgSize) = 0 by decide) (by decide) (by decide) (fun _ => rfl)
      (fun _ => trivial) fun after ok' _ _ _ => .stop ok' trivial)
    exact ok.ask.extends_setMemory fresh reserved fun _ => memset_outside

/-- A new page directory maps nothing. -/
theorem setPagedir_ok (unwrapped : s.wrapped = false) {pd : Nat} (other : pd ≠ env.initPageDir) :
    (s.setPagedir (some pd)).Ok env := by
  refine ⟨⟨pd, rfl, other⟩, ?_, ?_, ?_, ?_, unwrapped⟩
  all_goals simp [setPagedir]

theorem load_spec (fresh : env.Fresh) (enough : 786432 ≤ fuel) (unwrapped : s.wrapped = false) :
    ∃ result after, load env fuel s = .ok (result, after) ∧ after.wrapped = false ∧
      (∀ u, after.pages u ≠ none → 1 ≤ u ∧ u < 786432) ∧
      (result ≠ none → ∃ file, env.file = some file ∧ ∀ i < file.ehdr.phnum,
        (file.phdr (file.ehdr.phoff + 32 * i)).type = ptLoad →
          after.HasSegment file (file.phdr (file.ehdr.phoff + 32 * i))) := by
  unfold load getPage
  cases answer : env.answers s.asked with
  | none => exact ⟨none, _, rfl, unwrapped, fun u mapped => absurd rfl mapped, absurd rfl⟩
  | some pd =>
    have start : s.ask.wrapped = false := unwrapped
    have ok : (s.ask.setPagedir (some pd)).Ok env :=
      setPagedir_ok start (fresh.frame _ _ answer).2.2.2
    cases env.file with
    | none => exact ⟨none, _, rfl, ok.unwrapped, ok.range, absurd rfl⟩
    | some file =>
      unfold fileRead
      dsimp only
      generalize ((s.ask.setPagedir (some pd)).seek 0).readCount env file 52 = n
      have ok' := (ok.seek 0).advance n
      by_cases bad : n ≠ 52 ∨ ¬ headerOk file.ehdr
      · exact ⟨none, _, if_pos bad, ok'.unwrapped, ok'.range, absurd rfl⟩
      rw [if_neg bad]
      have offset : 0 ≤ i32 file.ehdr.phoff → (i32 file.ehdr.phoff).toNat = file.ehdr.phoff := by
        have small : file.ehdr.phoff < 4294967296 := word_lt file 28
        simp only [i32]
        omega
      obtain ⟨loaded, after, executed, okAfter, -, headers⟩ :=
        loadPhdrs_spec fresh file enough (i32 file.ehdr.phoff) ok'
      rw [executed]
      cases loaded with
      | false => exact ⟨none, after, rfl, okAfter.unwrapped, okAfter.range, absurd rfl⟩
      | true =>
        obtain ⟨esp, final, stack, okFinal, extends_, -⟩ := setupStack_spec okAfter fresh
        have segments : ∀ i < file.ehdr.phnum,
            (file.phdr (file.ehdr.phoff + 32 * i)).type = ptLoad →
              final.HasSegment file (file.phdr (file.ehdr.phoff + 32 * i)) := by
          intro i below type
          obtain ⟨positive, segment⟩ := headers rfl i below
          rw [offset positive] at segment
          exact extends_.hasSegment (segment type)
        dsimp only [ok_bind]
        rw [stack]
        cases esp with
        | none => exact ⟨none, final, rfl, okFinal.unwrapped, okFinal.range, absurd rfl⟩
        | some esp =>
          exact ⟨some (file.ehdr.entry, esp), final, rfl, okFinal.unwrapped, okFinal.range,
            fun _ => ⟨file, rfl, segments⟩⟩

end
end Loader
end Calendarizador.Source
