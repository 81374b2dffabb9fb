import Calendarizador.Invariant.InodeIo
import Calendarizador.Source.Directory
import Mathlib.Data.List.GetD

/-!
# The entries of a directory

The loops of `directory.c` over the entries of an open directory, and what writing one entry
does to the others.
-/
namespace Calendarizador.Source
open Foundation List

/-! ## Entries -/

/-- The entries have the same bytes. -/
def SameEntry (e e' : DirEntry) : Prop := ∀ i < dirEntrySize, e i = e' i

namespace DirEntry
variable {e e' : DirEntry}

/-- The name ends within the entry. -/
def Terminated (e : DirEntry) : Prop := ∃ i ≤ nameMax, e (4 + i) = 0

theorem inUse_congr (same : SameEntry e e') : e.inUse = e'.inUse := by
  unfold inUse
  rw [same 19 (by decide)]

theorem inodeSector_congr (same : SameEntry e e') : e.inodeSector = e'.inodeSector :=
  wordAt_congr fun i below => same _ (by simp only [dirEntrySize]; omega)

theorem terminated_congr (same : SameEntry e e') (ends : e.Terminated) : e'.Terminated := by
  obtain ⟨i, within, null⟩ := ends
  refine ⟨i, within, ?_⟩
  rw [← same _ (by simp only [dirEntrySize, nameMax] at within ⊢; omega), null]

theorem hasName_iff (e : DirEntry) (name : CString) :
    e.hasName name = true ↔ ∀ i ≤ name.bytes.length, e (4 + i) = name.bytes.getD i 0 := by
  simp only [hasName, all_eq_true, mem_range, Nat.lt_add_one_iff, beq_iff_eq]

/-- A name that is longer than the one of the entry is compared no further than its end. -/
theorem hasName_congr (same : SameEntry e e') (ends : e.Terminated) (name : CString) :
    e.hasName name = e'.hasName name := by
  rw [Bool.eq_iff_iff, hasName_iff, hasName_iff]
  by_cases short : name.bytes.length ≤ nameMax
  · refine forall₂_congr fun i within => ?_
    rw [same _ (by simp only [dirEntrySize, nameMax] at short ⊢; omega)]
  · obtain ⟨i, within, null⟩ := ends
    have inside : i < name.bytes.length := by omega
    have letter : name.bytes.getD i 0 ≠ 0 := by
      rw [getD_eq_getElem _ _ inside]
      exact name.noNull _ (getElem_mem inside)
    have null' : e' (4 + i) = 0 := by
      rw [← same _ (by simp only [dirEntrySize, nameMax] at within ⊢; omega), null]
    constructor
    · intro all
      exact absurd ((all i inside.le).symm.trans null) letter
    · intro all
      exact absurd ((all i inside.le).symm.trans null') letter

section
variable {name : CString} {sector : Nat}

theorem fill_inUse (e : DirEntry) : (e.fill name sector).inUse = true := rfl

theorem fill_inodeSector (e : DirEntry) (small : sector < 4294967296) :
    (e.fill name sector).inodeSector = sector := by
  refine wordAt_of_bytes small fun i below => ?_
  rw [Nat.zero_add, fill, if_pos below]

theorem fill_terminated (e : DirEntry) (short : name.bytes.length ≤ nameMax) :
    (e.fill name sector).Terminated := by
  refine ⟨name.bytes.length, short, ?_⟩
  simp only [nameMax] at short
  rw [fill, if_neg (by omega), if_neg (by omega), if_pos (by omega), Nat.add_sub_cancel_left,
    getD_eq_default _ _ (Nat.le_refl _)]

/-- The entry has no other name. -/
theorem fill_hasName {e : DirEntry} {name' : CString} (short : name.bytes.length ≤ nameMax)
    (has : (e.fill name sector).hasName name' = true) : name' = name := by
  rw [hasName_iff] at has
  simp only [nameMax] at short
  have letter : ∀ i ≤ name.bytes.length, (e.fill name sector) (4 + i) = name.bytes.getD i 0 := by
    intro i within
    rw [fill, if_neg (by omega), if_neg (by omega), if_pos (by omega), Nat.add_sub_cancel_left]
  have ends (n : CString) : n.bytes.getD n.bytes.length 0 = 0 :=
    getD_eq_default _ _ (Nat.le_refl _)
  have inner (n : CString) {i : Nat} (inside : i < n.bytes.length) : n.bytes.getD i 0 ≠ 0 := by
    rw [getD_eq_getElem _ _ inside]
    exact n.noNull _ (getElem_mem inside)
  have length : name'.bytes.length = name.bytes.length := by
    rcases Nat.lt_trichotomy name'.bytes.length name.bytes.length with less | same | more
    · have here := has _ (Nat.le_refl _)
      rw [letter _ less.le, ends] at here
      exact absurd here (inner name less)
    · exact same
    · have here := has _ more.le
      rw [letter _ (Nat.le_refl _), ends] at here
      exact absurd here.symm (inner name' more)
  refine CString.ext (ext_getElem length fun i inside inside' => ?_)
  have here := has i inside.le
  rw [letter i inside'.le, getD_eq_getElem _ _ inside,
    getD_eq_getElem _ _ inside'] at here
  exact here.symm

end

theorem erase_inUse (e : DirEntry) : e.erase.inUse = false := by
  unfold inUse erase
  rw [Function.update_self]
  rfl

/-! ### Names -/

section
variable {name : CString} {sector : Nat}

theorem name_congr (same : SameEntry e e') : e.name = e'.name := by
  refine CString.ext (congrArg (List.takeWhile (· != 0)) (map_congr_left fun i member => ?_))
  rw [mem_range, nameMax] at member
  exact same _ (by rw [dirEntrySize]; omega)

theorem slot_congr (same : SameEntry e e') : e.slot = e'.slot := by
  unfold slot
  rw [inUse_congr same, name_congr same, inodeSector_congr same]

/-- What comes before the first null byte is a name of the entry. -/
theorem exists_hasName (ends : e.Terminated) : ∃ name, e.hasName name = true := by
  have null : ∃ i, e (4 + i) = 0 := ends.imp fun i h => h.2
  refine ⟨⟨(List.range (Nat.find null)).map fun i => e (4 + i), fun b member => ?_⟩, ?_⟩
  · obtain ⟨i, inside, rfl⟩ := mem_map.mp member
    exact Nat.find_min null (mem_range.mp inside)
  · rw [hasName_iff]
    intro i within
    simp only [length_map, length_range] at within
    rcases Nat.eq_or_lt_of_le within with rfl | before
    · rw [getD_eq_default _ _ (by simp)]
      exact Nat.find_spec null
    · rw [getD_eq_getElem _ _ (by simpa using before)]
      simp

theorem length_of_hasName (ends : e.Terminated) (has : e.hasName name = true) :
    name.bytes.length ≤ nameMax := by
  obtain ⟨i, within, null⟩ := ends
  rw [hasName_iff] at has
  by_contra long
  have inside : i < name.bytes.length := by omega
  have letter := has i inside.le
  rw [null, getD_eq_getElem _ _ inside] at letter
  exact name.noNull _ (getElem_mem inside) letter.symm

theorem name_of_hasName (ends : e.Terminated) (has : e.hasName name = true) : e.name = name := by
  have short := length_of_hasName ends has
  rw [hasName_iff] at has
  set letters := (List.range nameMax).map fun i => e (4 + i) with defined
  have length : letters.length = nameMax := by simp [defined]
  have first : letters.take name.bytes.length = name.bytes := by
    refine ext_getElem (by simp [length, short]) fun i inside inside' => ?_
    rw [getElem_take]
    simp only [defined, getElem_map, getElem_range]
    rw [has i inside'.le, getD_eq_getElem _ _ inside']
  have rest : (letters.drop name.bytes.length).takeWhile (· != 0) = [] := by
    rcases Nat.eq_or_lt_of_le short with equal | less
    · rw [drop_eq_nil_of_le (by omega)]
      rfl
    · rw [drop_eq_getElem_cons (by omega)]
      refine takeWhile_cons_of_neg ?_
      simp only [defined, getElem_map, getElem_range]
      rw [has _ (le_refl _), getD_eq_default _ _ (le_refl _)]
      simp
  have letter : ∀ b ∈ name.bytes, (b != 0) = true := by
    intro b member
    simpa using name.noNull b member
  refine CString.ext ?_
  change letters.takeWhile (· != 0) = name.bytes
  rw [← take_append_drop name.bytes.length letters, first,
    takeWhile_append_of_pos letter, rest, append_nil]

theorem hasName_iff_name (ends : e.Terminated) (name : CString) :
    e.hasName name = true ↔ e.name = name := by
  refine ⟨name_of_hasName ends, fun same => ?_⟩
  obtain ⟨name', has⟩ := exists_hasName ends
  rwa [← same, name_of_hasName ends has]

theorem fill_slot (e : DirEntry) (short : name.bytes.length ≤ nameMax)
    (small : sector < 4294967296) : (e.fill name sector).slot = some (name, sector) := by
  have ends : (e.fill name sector).Terminated := fill_terminated e short
  obtain ⟨name', has⟩ := exists_hasName ends
  have same := name_of_hasName ends has
  rw [fill_hasName short has] at same
  rw [slot, fill_inUse, if_pos rfl, same, fill_inodeSector e small]

theorem erase_slot (e : DirEntry) : e.erase.slot = none := by
  rw [slot, erase_inUse]
  rfl

theorem slot_eq_none : e.slot = none ↔ e.inUse = false := by
  unfold slot
  split
  · next used => simp [used]
  · next free => simpa using free

theorem slot_eq_some {x : CString × Nat} :
    e.slot = some x ↔ e.inUse = true ∧ e.name = x.1 ∧ e.inodeSector = x.2 := by
  unfold slot
  split
  · next used =>
    simp only [Option.some.injEq, used, true_and]
    exact Prod.ext_iff
  · next free =>
    simp [free]

end

end DirEntry

namespace FileSys

/-- A directory of `n` entries is open. -/
structure DirOpen (s : FileSys) (sector : Nat) (d : InodeDisk) (n : Nat) : Prop where
  node : ∃ node, s.openInodes sector = some node ∧ node.data = d ∧ node.denyWriteCnt = 0
  fits : d.Fits s.device.size
  length : d.length = (dirEntrySize * n : Nat)
  terminated : ∀ k < n, (s.entryAt d k).inUse = true → (s.entryAt d k).Terminated

/-- `dir_add` does not take the name: it is not valid or in use, or all entries are. -/
def Refuses (s : FileSys) (d : InodeDisk) (n : Nat) (name : CString) : Prop :=
  name.bytes = [] ∨ nameMax < name.bytes.length ∨
    (∃ k < n, (s.entryAt d k).inUse = true ∧ (s.entryAt d k).hasName name = true) ∨
    ∀ k < n, (s.entryAt d k).inUse = true

theorem not_refuses {s : FileSys} {d : InodeDisk} {n k : Nat} {name : CString}
    (some_ : name.bytes ≠ []) (short : name.bytes.length ≤ nameMax) (below : k < n)
    (free : (s.entryAt d k).inUse = false)
    (absent : ∀ j < n, (s.entryAt d j).inUse = true → (s.entryAt d j).hasName name = false) :
    ¬ s.Refuses d n name := by
  rintro (empty | long | ⟨j, below', used, named⟩ | full)
  · exact some_ empty
  · omega
  · rw [absent j below' used] at named
    cases named
  · rw [full k below] at free
    cases free

theorem put_zero (s : FileSys) (a : Nat) (buffer : Nat → BitVec 8) : s.put a 0 buffer = s := by
  unfold put
  rw [splice_zero]
  rfl

section
variable {s : FileSys} {d : InodeDisk} {n : Nat} {dir : Dir} (opened : s.DirOpen dir.inode d n)
include opened

theorem DirOpen.reach {k : Nat} (below : k < n) :
    d.reach dirEntrySize (dirEntrySize * k) = dirEntrySize := by
  rw [InodeDisk.reach, opened.length]
  simp only [dirEntrySize]
  omega

theorem DirOpen.reach_end : d.reach dirEntrySize (dirEntrySize * n) = 0 := by
  rw [InodeDisk.reach, opened.length, Int.toNat_natCast, Nat.sub_self, Nat.min_zero]

theorem DirOpen.read (e : DirEntry) (k : Nat) :
    s.inodeReadAt dir.inode e dirEntrySize (dirEntrySize * k) =
      .ok (d.reach dirEntrySize (dirEntrySize * k),
        splice e 0 (d.reach dirEntrySize (dirEntrySize * k)) fun i =>
          s.device.data (sectorSize * d.start + dirEntrySize * k + i)) := by
  obtain ⟨node, open_, rfl, -⟩ := opened.node
  exact inodeReadAt_eq open_ opened.fits e dirEntrySize (dirEntrySize * k)

theorem DirOpen.write (e : DirEntry) (k : Nat) :
    s.inodeWriteAt dir.inode e dirEntrySize (dirEntrySize * k) =
      .ok (d.reach dirEntrySize (dirEntrySize * k),
        s.put (sectorSize * d.start + dirEntrySize * k) (d.reach dirEntrySize (dirEntrySize * k))
          e) := by
  obtain ⟨node, open_, rfl, allowed⟩ := opened.node
  exact inodeWriteAt_eq open_ allowed opened.fits e dirEntrySize (dirEntrySize * k)

theorem DirOpen.readEntry {k : Nat} (below : k < n) (e : DirEntry) :
    ∃ e', s.inodeReadAt dir.inode e dirEntrySize (dirEntrySize * k) = .ok (dirEntrySize, e') ∧
      SameEntry e' (s.entryAt d k) := by
  have read := opened.read e k
  rw [opened.reach below] at read
  refine ⟨_, read, fun i inside => ?_⟩
  have byte : splice e 0 dirEntrySize (fun i => s.device.data
      (sectorSize * d.start + dirEntrySize * k + i)) (0 + i) = _ := splice_inside inside
  rw [Nat.zero_add] at byte
  rw [byte, Nat.add_assoc]
  rfl

/-- The loop from entry `k` on finds the first entry with the property. -/
theorem DirOpen.searchLoop {p : DirEntry → Bool}
    (stable : ∀ k < n, ∀ e, SameEntry e (s.entryAt d k) → p e = p (s.entryAt d k)) {fuel : Nat} :
    ∀ {k : Nat} (e : DirEntry), k ≤ n → n - k < fuel →
      (∃ j e', s.searchLoop dir p fuel e (dirEntrySize * k) = .ok (e', dirEntrySize * j, true) ∧
          k ≤ j ∧ j < n ∧ SameEntry e' (s.entryAt d j) ∧ p (s.entryAt d j) = true ∧
          ∀ i, k ≤ i → i < j → p (s.entryAt d i) = false) ∨
      ∃ e', s.searchLoop dir p fuel e (dirEntrySize * k) = .ok (e', dirEntrySize * n, false) ∧
        ∀ j, k ≤ j → j < n → p (s.entryAt d j) = false := by
  induction fuel with
  | zero => exact fun _ _ enough => absurd enough (Nat.not_lt_zero _)
  | succ fuel ih =>
    intro k e within enough
    rcases Nat.eq_or_lt_of_le within with rfl | below
    · refine .inr ⟨e, ?_, fun j low high => by omega⟩
      rw [FileSys.searchLoop, opened.read, opened.reach_end, splice_zero]
      rfl
    obtain ⟨e', read, same⟩ := opened.readEntry below e
    rw [FileSys.searchLoop, read, ok_bind]
    dsimp only
    rw [if_pos rfl, stable k below e' same]
    by_cases found : p (s.entryAt d k) = true
    · exact .inl ⟨k, e', by rw [if_pos found], le_refl k, below, same, found,
        fun i low high => by omega⟩
    have not : p (s.entryAt d k) = false := Bool.eq_false_iff.mpr found
    rw [if_neg found]
    refine (ih e' below (by omega)).imp ?_ ?_
    · rintro ⟨j, e'', loop, low, high, same', holds, none_⟩
      refine ⟨j, e'', loop, by omega, high, same', holds, fun i above under => ?_⟩
      rcases Nat.eq_or_lt_of_le above with rfl | later
      · exact not
      · exact none_ i later under
    · rintro ⟨e'', loop, none_⟩
      refine ⟨e'', loop, fun j low high => ?_⟩
      rcases Nat.eq_or_lt_of_le low with rfl | later
      · exact not
      · exact none_ j later high

theorem DirOpen.inodeLength : s.inodeLength dir.inode = .ok d.length := by
  obtain ⟨node, open_, rfl, -⟩ := opened.node
  unfold FileSys.inodeLength
  rw [inode_eq open_]
  rfl

/-- The rounds that the loops are given are enough. -/
theorem DirOpen.rounds : d.length.toNat / dirEntrySize + 1 = n + 1 := by
  rw [opened.length, Int.toNat_natCast, Nat.mul_div_cancel_left _ (by decide)]

theorem DirOpen.search {p : DirEntry → Bool}
    (stable : ∀ k < n, ∀ e, SameEntry e (s.entryAt d k) → p e = p (s.entryAt d k)) :
    (∃ j e, s.search dir p = .ok (e, dirEntrySize * j, true) ∧ j < n ∧
      SameEntry e (s.entryAt d j) ∧ p (s.entryAt d j) = true) ∨
    ∃ e, s.search dir p = .ok (e, dirEntrySize * n, false) ∧
      ∀ j < n, p (s.entryAt d j) = false := by
  have start : s.search dir p = s.searchLoop dir p (n + 1) (fun _ => 0) (dirEntrySize * 0) := by
    unfold FileSys.search
    rw [opened.inodeLength, ok_bind, opened.rounds]
    rfl
  rw [start]
  have enough : n - 0 < n + 1 := by omega
  refine (opened.searchLoop stable (fun _ => 0) (Nat.zero_le n) enough).imp ?_ ?_
  · rintro ⟨j, e, loop, -, below, same, holds, -⟩
    exact ⟨j, e, loop, below, same, holds⟩
  · rintro ⟨e, loop, none_⟩
    exact ⟨e, loop, fun j below => none_ j (Nat.zero_le j) below⟩

/-- `lookup` finds an entry that is in use and has the name, if there is one. -/
theorem DirOpen.lookup (name : CString) :
    (∃ j e, s.lookup dir name = .ok (some (e, dirEntrySize * j)) ∧ j < n ∧
      SameEntry e (s.entryAt d j) ∧ (s.entryAt d j).inUse = true ∧
      (s.entryAt d j).hasName name = true) ∨
    (s.lookup dir name = .ok none ∧
      ∀ j < n, (s.entryAt d j).inUse = true → (s.entryAt d j).hasName name = false) := by
  have stable : ∀ k < n, ∀ e, SameEntry e (s.entryAt d k) →
      (e.inUse && e.hasName name) = ((s.entryAt d k).inUse && (s.entryAt d k).hasName name) := by
    intro k below e same
    rw [DirEntry.inUse_congr same]
    cases used : (s.entryAt d k).inUse with
    | false => rfl
    | true =>
      have back : SameEntry (s.entryAt d k) e := fun i inside => (same i inside).symm
      rw [DirEntry.hasName_congr back (opened.terminated k below used)]
  unfold FileSys.lookup
  rcases opened.search stable with ⟨j, e, found, below, same, both⟩ | ⟨e, none_, all⟩
  · rw [Bool.and_eq_true] at both
    refine .inl ⟨j, e, ?_, below, same, both.1, both.2⟩
    rw [found]
    rfl
  · refine .inr ⟨by rw [none_]; rfl, fun j below used => ?_⟩
    have not := all j below
    rwa [used, Bool.true_and] at not

/-- `dir_add` writes a free entry, or leaves everything as it is. -/
theorem DirOpen.dirAdd (name : CString) (sector : Nat) :
    (∃ (k : Nat) (e : DirEntry), s.dirAdd dir name sector = .ok (true,
        s.put (sectorSize * d.start + dirEntrySize * k) dirEntrySize (e.fill name sector)) ∧
      k < n ∧ (s.entryAt d k).inUse = false ∧ name.bytes ≠ [] ∧ name.bytes.length ≤ nameMax ∧
      ∀ j < n, (s.entryAt d j).inUse = true → (s.entryAt d j).hasName name = false) ∨
    (s.dirAdd dir name sector = .ok (false, s) ∧ s.Refuses d n name) := by
  unfold FileSys.dirAdd
  by_cases bad : name.bytes = [] ∨ name.bytes.length > nameMax
  · refine .inr ⟨if_pos bad, bad.imp_right .inl⟩
  rw [if_neg bad]
  rcases opened.lookup name with ⟨j, e, found, below, -, used, named⟩ | ⟨absent, others⟩
  · refine .inr ⟨?_, .inr (.inr (.inl ⟨j, below, used, named⟩))⟩
    rw [found]
    rfl
  rw [absent, ok_bind]
  dsimp only
  have stable : ∀ k < n, ∀ e, SameEntry e (s.entryAt d k) →
      (!e.inUse) = !(s.entryAt d k).inUse := by
    intro k _ e same
    rw [DirEntry.inUse_congr same]
  rcases opened.search stable with ⟨k, e, found, below, -, free⟩ | ⟨e, full, all⟩
  · refine .inl ⟨k, e, ?_, below, by simpa using free, fun none_ => bad (.inl none_), by omega,
      others⟩
    rw [found, ok_bind]
    rw [opened.write, opened.reach below]
    rfl
  · refine .inr ⟨?_, .inr (.inr (.inr fun j below => by simpa using all j below))⟩
    rw [full, ok_bind]
    rw [opened.write, opened.reach_end, put_zero]
    rfl

end

/-- The entry that was written, and the others. -/
theorem entryAt_put (s : FileSys) (d : InodeDisk) (k : Nat) (e : DirEntry) (j : Nat) :
    SameEntry ((s.put (sectorSize * d.start + dirEntrySize * k) dirEntrySize e).entryAt d j)
      (if j = k then e else s.entryAt d j) := by
  intro i inside
  unfold FileSys.entryAt
  rw [put_data]
  split
  · next same =>
    rw [same, ← Nat.add_assoc, splice_inside inside]
  · next other =>
    refine splice_outside ?_
    simp only [dirEntrySize] at inside ⊢
    omega

end FileSys
end Calendarizador.Source
