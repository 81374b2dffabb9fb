import Calendarizador.Foundation.SlotTable
import Calendarizador.Invariant.DirectoryScan
import Calendarizador.Invariant.OpenInodes

/-!
# A directory as a table of names

The entries of an open directory are a table of slots. Each call of `directory.c` is an
operation on that table, whatever sectors the names were given: opening and closing the
inodes they lead to touches neither the data of the directory nor its inode.
-/
namespace Calendarizador.Source
open Foundation Function

namespace FileSys

/-- The table of the directory with the inode `d`. -/
def slotAt (s : FileSys) (d : InodeDisk) (k : Nat) : Option (CString × Nat) := (s.entryAt d k).slot

theorem slotAt_put (s : FileSys) (d : InodeDisk) (k : Nat) (e : DirEntry) :
    (s.put (sectorSize * d.start + dirEntrySize * k) dirEntrySize e).slotAt d =
      update (s.slotAt d) k e.slot := by
  funext j
  rw [slotAt, DirEntry.slot_congr (entryAt_put s d k e j), update_apply]
  exact apply_ite _ _ _ _

/-! ## What the calls leave as it is -/

/-- The inodes that were open still are, with the same data, and so is the free map file. -/
structure StaysOpen (s after : FileSys) : Prop where
  node : ∀ o node, s.openInodes o = some node → ∃ node', after.openInodes o = some node' ∧
    node'.data = node.data ∧ node'.denyWriteCnt = node.denyWriteCnt
  counted : ∀ o node, after.openInodes o = some node → 1 ≤ node.openCnt
  file : after.freeMapFile = s.freeMapFile
  size : after.device.size = s.device.size
  bits : after.freeMap.bitCnt = s.freeMap.bitCnt

/-- The data of the inode has not been written to. -/
def SameData (s after : FileSys) (d : InodeDisk) : Prop :=
  ∀ i < d.length.toNat,
    after.device.data (sectorSize * d.start + i) = s.device.data (sectorSize * d.start + i)

/-- A directory of `n` entries is open, its names differ, and the free map file has its data
somewhere else. -/
structure DirectoryOk (s : FileSys) (sector : Nat) (d fm : InodeDisk) (n : Nat) : Prop where
  opened : s.DirOpen sector d n
  distinct : SlotTable.Distinct n (s.slotAt d)
  counted : ∀ o node, s.openInodes o = some node → 1 ≤ node.openCnt
  map : ∃ file node, s.freeMapFile = some file ∧ s.openInodes file.inode = some node ∧
    node.data = fm ∧ node.denyWriteCnt = 0
  mapFits : fm.Fits s.device.size
  few : s.freeMap.bitCnt < 4294967296
  apart : ∀ i < d.length.toNat, ∀ j < fm.length.toNat,
    sectorSize * d.start + i ≠ sectorSize * fm.start + j

section
variable {s middle after : FileSys} {sector target n : Nat} {d fm : InodeDisk} {name : CString}
variable {k : Nat}

theorem StaysOpen.trans (first : StaysOpen s middle) (second : StaysOpen middle after) :
    StaysOpen s after := by
  refine ⟨fun o node open_ => ?_, second.counted, second.file.trans first.file,
    second.size.trans first.size, second.bits.trans first.bits⟩
  obtain ⟨node', open', data, deny⟩ := first.node o node open_
  obtain ⟨node'', open'', data', deny'⟩ := second.node o node' open'
  exact ⟨node'', open'', data'.trans data, deny'.trans deny⟩

theorem StaysOpen.of_table (counted : ∀ o node, s.openInodes o = some node → 1 ≤ node.openCnt)
    (table : after.openInodes = s.openInodes) (file : after.freeMapFile = s.freeMapFile)
    (size : after.device.size = s.device.size)
    (bits : after.freeMap.bitCnt = s.freeMap.bitCnt) : StaysOpen s after := by
  refine ⟨fun o node open_ => ⟨node, table ▸ open_, rfl, rfl⟩, ?_, file, size, bits⟩
  rw [table]
  exact counted

theorem StaysOpen.setInode {node : Option Inode}
    (counted : ∀ o node, s.openInodes o = some node → 1 ≤ node.openCnt)
    (kept : ∀ old, s.openInodes target = some old → ∃ new, node = some new ∧
      new.data = old.data ∧ new.denyWriteCnt = old.denyWriteCnt)
    (positive : ∀ new, node = some new → 1 ≤ new.openCnt) :
    StaysOpen s (s.setInode target node) := by
  refine ⟨fun o old open_ => ?_, fun o new open_ => ?_, rfl, rfl, rfl⟩
  · rw [setInode_openInodes, update_apply]
    split
    · next same => exact kept old (same ▸ open_)
    · exact ⟨old, open_, rfl, rfl⟩
  · rw [setInode_openInodes, update_apply] at open_
    split at open_
    · exact positive new open_
    · exact counted o new open_

theorem setInode_setInode (s : FileSys) (target : Nat) (node node' : Option Inode) :
    (s.setInode target node).setInode target node' = s.setInode target node' := by
  unfold FileSys.setInode
  rw [update_idem]

theorem SameData.entryAt (same : SameData s after d) (opened : s.DirOpen sector d n)
    (below : k < n) : SameEntry (after.entryAt d k) (s.entryAt d k) := by
  refine fun i inside => same _ ?_
  rw [opened.length, Int.toNat_natCast]
  simp only [dirEntrySize] at inside ⊢
  omega

theorem SameData.slotAt (same : SameData s after d) (opened : s.DirOpen sector d n)
    (below : k < n) : after.slotAt d k = s.slotAt d k :=
  DirEntry.slot_congr (same.entryAt opened below)

variable (ok : s.DirectoryOk sector d fm n)
include ok

theorem DirectoryOk.frame (stays : StaysOpen s after) (same : SameData s after d) :
    after.DirectoryOk sector d fm n := by
  obtain ⟨node, open_, data, allowed⟩ := ok.opened.node
  obtain ⟨node', open', data', deny'⟩ := stays.node sector node open_
  obtain ⟨file, mapNode, saved, mapOpen, mapData, mapAllowed⟩ := ok.map
  obtain ⟨mapNode', mapOpen', mapData', mapDeny'⟩ := stays.node _ mapNode mapOpen
  refine ⟨⟨⟨node', open', data'.trans data, deny'.trans allowed⟩, ?_, ok.opened.length,
    fun k below used => ?_⟩, ok.distinct.congr fun k below => same.slotAt ok.opened below,
    stays.counted, ⟨file, mapNode', stays.file.trans saved, mapOpen', mapData'.trans mapData,
      mapDeny'.trans mapAllowed⟩, ?_, ?_, ok.apart⟩
  · rw [stays.size]
    exact ok.opened.fits
  · have entry := same.entryAt ok.opened below
    rw [DirEntry.inUse_congr entry] at used
    exact DirEntry.terminated_congr (fun i inside => (entry i inside).symm)
      (ok.opened.terminated k below used)
  · rw [stays.size]
    exact ok.mapFits
  · rw [stays.bits]
    exact ok.few

/-- An entry is written that goes with the others. -/
theorem DirectoryOk.putEntry {e : DirEntry} (ends : e.inUse = true → e.Terminated)
    (distinct : SlotTable.Distinct n (update (s.slotAt d) k e.slot)) :
    (s.put (sectorSize * d.start + dirEntrySize * k) dirEntrySize e).DirectoryOk sector d fm n := by
  refine ⟨⟨ok.opened.node, ok.opened.fits, ok.opened.length, fun j below used => ?_⟩, ?_,
    ok.counted, ok.map, ok.mapFits, ok.few, ok.apart⟩
  · have same := entryAt_put s d k e j
    have back : SameEntry _ _ := fun i inside => (same i inside).symm
    refine DirEntry.terminated_congr back ?_
    rw [DirEntry.inUse_congr same] at used
    split at used
    · next here =>
      rw [if_pos here]
      exact ends used
    · next other =>
      rw [if_neg other]
      exact ok.opened.terminated j below used
  · rw [slotAt_put]
    exact distinct

/-! ## Names -/

theorem DirectoryOk.absent_iff :
    SlotTable.toMap n (s.slotAt d) name = none ↔
      ∀ k < n, (s.entryAt d k).inUse = true → (s.entryAt d k).hasName name = false := by
  rw [SlotTable.toMap_eq_none]
  refine forall₂_congr fun k below => ?_
  constructor
  · intro none_ used
    rw [Bool.eq_false_iff]
    intro named
    rw [DirEntry.hasName_iff_name (ok.opened.terminated k below used)] at named
    exact none_ _ (DirEntry.slot_eq_some.mpr ⟨used, named, rfl⟩)
  · intro others v filled
    obtain ⟨used, named, -⟩ := DirEntry.slot_eq_some.mp filled
    rw [← DirEntry.hasName_iff_name (ok.opened.terminated k below used), others used] at named
    cases named

end

/-! ## `dir_add` -/

section
variable {s after : FileSys} {dir : Dir} {target n : Nat} {d fm : InodeDisk}
variable (ok : s.DirectoryOk dir.inode d fm n) (name : CString)
include ok
variable {memory : Bool}

/-- Nothing but the data of the directory was written to. -/
structure OnlyData (s after : FileSys) (d : InodeDisk) : Prop where
  table : after.openInodes = s.openInodes
  freeMap : after.freeMap = s.freeMap
  file : after.freeMapFile = s.freeMapFile
  size : after.device.size = s.device.size
  bytes : ∀ a, (∀ i < d.length.toNat, a ≠ sectorSize * d.start + i) →
    after.device.data a = s.device.data a

theorem DirectoryOk.dirAdd (inodeSector : BitVec 32) :
    (¬ s.Refuses d n name → ∃ after, s.dirAdd dir name inodeSector.toNat = .ok (true, after) ∧
      after.DirectoryOk dir.inode d fm n ∧ OnlyData s after d ∧
      SlotTable.toMap n (after.slotAt d) =
        update (SlotTable.toMap n (s.slotAt d)) name (some inodeSector.toNat)) ∧
    (s.Refuses d n name → s.dirAdd dir name inodeSector.toNat = .ok (false, s)) := by
  rcases ok.opened.dirAdd name inodeSector.toNat with
    ⟨k, e, added, below, free, some_, short, new⟩ | ⟨rejected, refuses⟩
  swap
  · exact ⟨fun takes => absurd refuses takes, fun _ => rejected⟩
  refine ⟨fun _ => ⟨_, added, ?_, ?_, ?_⟩,
    fun refuses => absurd refuses (not_refuses some_ short below free new)⟩
  all_goals
    have slot := DirEntry.fill_slot e short inodeSector.isLt
    have absent := ok.absent_iff.mpr new
  · refine ok.putEntry (fun _ => DirEntry.fill_terminated e short) ?_
    rw [slot]
    exact ok.distinct.fill absent
  · refine ⟨rfl, rfl, rfl, rfl, fun a outside => splice_outside ?_⟩
    by_contra inside
    refine outside (a - sectorSize * d.start) ?_ (by omega)
    rw [ok.opened.length, Int.toNat_natCast]
    simp only [dirEntrySize] at inside ⊢
    omega
  · rw [slotAt_put, slot]
    exact SlotTable.toMap_fill ok.distinct below (DirEntry.slot_eq_none.mpr free) absent

/-! ## `dir_lookup` -/

omit ok in
/-- `inode_open` returns an inode: it is open, or there is memory and the sector exists. -/
def Opens (s : FileSys) (sector : Nat) (memory : Bool) : Prop :=
  s.openInodes sector ≠ none ∨ memory = true ∧ sector < s.device.size

omit ok in
theorem opens_cases (s : FileSys) (target : Nat) (memory : Bool) : s.Opens target memory ∨
    (s.openInodes target = none ∧ memory = false) ∨
    (s.openInodes target = none ∧ memory = true ∧ s.device.size ≤ target) := by
  by_cases closed : s.openInodes target = none
  · cases memory with
    | false => exact .inr (.inl ⟨closed, rfl⟩)
    | true =>
      rcases Nat.lt_or_ge target s.device.size with below | off
      · exact .inl (.inr ⟨rfl, below⟩)
      · exact .inr (.inr ⟨closed, rfl, off⟩)
  · exact .inl (.inl closed)

omit ok in
theorem inodeOpen_of_opens (opens : s.Opens target memory) : s.inodeOpen target memory =
      .ok (some target, s.setInode target (some (s.reopened target))) := by
  cases open_ : s.openInodes target with
  | none =>
    obtain ⟨rfl, below⟩ := opens.resolve_left (not_not.mpr open_)
    exact inodeOpen_eq below
  | some node =>
    unfold inodeOpen reopened
    rw [open_]
    unfold inodeReopen
    rw [inode_eq open_]
    rfl

omit ok in
/-- Without memory an inode that is not open is not opened. -/
theorem inodeOpen_no_memory (closed : s.openInodes target = none) :
    s.inodeOpen target false = .ok (none, s) := by
  rw [inodeOpen, closed]
  rfl

omit ok in
/-- `block_read` of a sector that does not exist stops the kernel. -/
theorem inodeOpen_off_device (closed : s.openInodes target = none)
    (off : s.device.size ≤ target) : ∃ halt, s.inodeOpen target true = .error halt := by
  rw [inodeOpen, closed]
  unfold Block.read Block.checkSector
  rw [if_pos rfl, if_pos off]
  exact ⟨_, rfl⟩

/-- An entry of the table that `lookup` finds. -/
theorem DirectoryOk.lookup :
    (∃ k e target, s.lookup dir name = .ok (some (e, dirEntrySize * k)) ∧ k < n ∧
      s.slotAt d k = some (name, target) ∧ e.inodeSector = target ∧
      SlotTable.toMap n (s.slotAt d) name = some target) ∨
    (s.lookup dir name = .ok none ∧ SlotTable.toMap n (s.slotAt d) name = none) := by
  rcases ok.opened.lookup name with ⟨k, e, found, below, same, used, named⟩ | ⟨absent, others⟩
  · rw [DirEntry.hasName_iff_name (ok.opened.terminated k below used)] at named
    have slot : s.slotAt d k = some (name, (s.entryAt d k).inodeSector) :=
      DirEntry.slot_eq_some.mpr ⟨used, named, rfl⟩
    exact .inl ⟨k, e, _, found, below, slot, DirEntry.inodeSector_congr same,
      (SlotTable.toMap_eq_some ok.distinct).mpr ⟨k, below, slot⟩⟩
  · exact .inr ⟨absent, ok.absent_iff.mpr others⟩

theorem DirectoryOk.stays_reopened :
    StaysOpen s (s.setInode target (some (s.reopened target))) := by
  refine .setInode ok.counted (fun old open_ => ⟨_, rfl, ?_⟩) fun new same => ?_
  · rw [reopened, open_]
    exact ⟨rfl, rfl⟩
  · cases same
    unfold reopened
    cases before : s.openInodes target with
    | none => exact le_refl _
    | some node =>
      have positive := ok.counted target node before
      change 1 ≤ node.openCnt + 1
      omega

theorem DirectoryOk.dirLookupIf (memory : Bool) : (SlotTable.toMap n (s.slotAt d) name = none →
      s.dirLookupIf dir name memory = .ok (none, s)) ∧
    ∀ target, SlotTable.toMap n (s.slotAt d) name = some target →
      s.dirLookupIf dir name memory = s.inodeOpen target memory := by
  unfold FileSys.dirLookupIf
  rcases ok.lookup name with ⟨k, e, target, found, -, -, rfl, maps⟩ | ⟨absent, none_⟩
  · rw [maps, found]
    refine ⟨nofun, fun target same => ?_⟩
    cases same
    rfl
  · rw [none_, absent]
    exact ⟨fun _ => rfl, nofun⟩

/-! ## `dir_remove` -/

theorem DirectoryOk.bitmapWrite (b : Bitmap) : (s.setFreeMap b).bitmapWrite =
    .ok (fm.reach (Bitmap.byteCnt b.bitCnt) 0 = Bitmap.byteCnt b.bitCnt,
      (s.setFreeMap b).put (sectorSize * fm.start) (fm.reach (Bitmap.byteCnt b.bitCnt) 0)
        b.bytes) := by
  obtain ⟨file, node, saved, open_, rfl, allowed⟩ := ok.map
  have written := inodeWriteAt_eq (s := s.setFreeMap b) open_ allowed ok.mapFits b.bytes
    (Bitmap.byteCnt b.bitCnt) 0
  unfold FileSys.bitmapWrite
  rw [setFreeMap_freeMapFile, saved]
  dsimp only
  unfold fileWriteAt
  rw [setFreeMap_freeMap, written]
  rfl

/-- Saving the free map leaves the directory as it is. -/
theorem DirectoryOk.save {b : Bitmap} (count : b.bitCnt = s.freeMap.bitCnt) (m : Nat) :
    StaysOpen s ((s.setFreeMap b).put (sectorSize * fm.start) (fm.reach m 0) b.bytes) ∧
      SameData s ((s.setFreeMap b).put (sectorSize * fm.start) (fm.reach m 0) b.bytes) d := by
  refine ⟨.of_table ok.counted rfl rfl rfl count, fun i inside => splice_outside ?_⟩
  have reach : fm.reach m 0 ≤ fm.length.toNat := by
    unfold InodeDisk.reach
    omega
  by_contra within
  exact ok.apart i inside (sectorSize * d.start + i - sectorSize * fm.start) (by omega) (by omega)

/-- Whatever `free_map_release` clears, it leaves the directory as it is. -/
theorem DirectoryOk.release {sector cnt : Nat} (done : s.freeMapRelease sector cnt = .ok after) :
    StaysOpen s after ∧ SameData s after d := by
  obtain ⟨used, -, done⟩ := bind_eq_ok.mp done
  obtain ⟨_, -, done⟩ := bind_eq_ok.mp done
  obtain ⟨b, cleared, done⟩ := bind_eq_ok.mp done
  rw [ok.bitmapWrite b, ok_bind] at done
  cases done
  exact ok.save (Bitmap.setMultiple_bitCnt cleared) _

/-- Sectors that are in use can be released. -/
theorem DirectoryOk.release_used {sector cnt : Nat} (used : s.freeMap.Group true cnt sector) :
    ∃ after, s.freeMapRelease sector cnt = .ok after ∧
      after.freeMap.bitCnt = s.freeMap.bitCnt ∧ ∀ j, after.freeMap.bit j =
        if j ∈ (⟨sector, cnt⟩ : Span) then false else s.freeMap.bit j := by
  obtain ⟨answer, checked, meaning⟩ := Bitmap.all_spec ok.few used.1
  obtain ⟨b, cleared, size, bits⟩ := Bitmap.setMultiple_spec ok.few used.1 false
  refine ⟨(s.setFreeMap b).put (sectorSize * fm.start) (fm.reach (Bitmap.byteCnt b.bitCnt) 0)
    b.bytes, ?_, size, bits⟩
  unfold freeMapRelease
  rw [checked, ok_bind, ensure_bind (meaning.mpr used), cleared, ok_bind, ok.bitmapWrite b]
  rfl

/-- The file can be removed: its inode stays open, or its sectors are in use. -/
def Releases (s : FileSys) (target : Nat) : Prop :=
  s.openInodes target ≠ none ∨
    s.freeMap.Group true 1 target ∧
      s.freeMap.Group true (bytesToSectors (s.inodeAt target).length) (s.inodeAt target).start ∧
      target ∉ s.extent target

/-- Closing the inode of the removed file leaves the directory as it is. -/
theorem DirectoryOk.close_removed {node : Inode} (removed : node.removed = true)
    (fresh : s.openInodes target = none → node.openCnt = 1)
    (again : ∀ old, s.openInodes target = some old → node.openCnt = old.openCnt + 1 ∧
      node.data = old.data ∧ node.denyWriteCnt = old.denyWriteCnt)
    (done : (s.setInode target (some node)).inodeClose (some target) = .ok after) :
    StaysOpen s after ∧ SameData s after d := by
  have open_ : (s.setInode target (some node)).openInodes target = some node :=
    update_self ..
  cases before : s.openInodes target with
  | some old =>
    obtain ⟨count, data, deny⟩ := again old before
    have positive := ok.counted target old before
    cases (inodeClose_more open_ (by omega)).symm.trans done
    rw [setInode_setInode]
    refine ⟨.setInode ok.counted (fun old' open' => ?_) fun new same => ?_, fun _ _ => rfl⟩
    · cases before.symm.trans open'
      exact ⟨_, rfl, data, deny⟩
    · cases same
      change 1 ≤ node.openCnt - 1
      omega
  | none =>
    have last := fresh before
    have off : StaysOpen s (s.setInode target none) :=
      .setInode ok.counted (fun old open' => by cases before.symm.trans open') nofun
    have okOff := ok.frame off fun _ _ => rfl
    unfold inodeClose at done
    dsimp only at done
    rw [inode_eq open_, ok_bind, if_pos (by omega), if_pos removed, setInode_setInode] at done
    obtain ⟨middle, first, second⟩ := bind_eq_ok.mp done
    obtain ⟨stays, same⟩ := okOff.release first
    obtain ⟨stays', same'⟩ := (okOff.frame stays same).release second
    exact ⟨(off.trans stays).trans stays', fun i inside => (same' i inside).trans (same i inside)⟩

/-- An inode whose sectors are in use, or that stays open, can be closed. -/
theorem DirectoryOk.close_removed_ok {node : Inode} (removed : node.removed = true)
    (fresh : s.openInodes target = none → node.openCnt = 1)
    (again : ∀ old, s.openInodes target = some old → node.openCnt = old.openCnt + 1)
    (releases : s.openInodes target ≠ none ∨ s.freeMap.Group true 1 target ∧
      s.freeMap.Group true (bytesToSectors node.data.length) node.data.start ∧
      target ∉ (⟨node.data.start, bytesToSectors node.data.length⟩ : Span)) :
    ∃ after, (s.setInode target (some node)).inodeClose (some target) = .ok after := by
  have open_ : (s.setInode target (some node)).openInodes target = some node :=
    update_self ..
  cases before : s.openInodes target with
  | some old =>
    have count := again old before
    have positive := ok.counted target old before
    exact ⟨_, inodeClose_more open_ (by omega)⟩
  | none =>
    have last := fresh before
    obtain ⟨own, data, outside⟩ := releases.resolve_left (not_not.mpr before)
    have off : StaysOpen s (s.setInode target none) :=
      .setInode ok.counted (fun old open' => by cases before.symm.trans open') nofun
    have okOff := ok.frame off fun _ _ => rfl
    obtain ⟨middle, first, count, bits⟩ := okOff.release_used own
    obtain ⟨stays, same⟩ := okOff.release first
    have used : middle.freeMap.Group true (bytesToSectors node.data.length) node.data.start := by
      refine ⟨by rw [count]; exact data.1, fun j here => ?_⟩
      rw [bits, if_neg]
      · exact data.2 j here
      · intro own
        simp only [Span.mem_iff, Span.stop] at own
        obtain rfl : j = target := by omega
        exact outside here
    obtain ⟨final, second, -⟩ := (okOff.frame stays same).release_used used
    refine ⟨final, ?_⟩
    unfold inodeClose
    dsimp only
    rw [inode_eq open_, ok_bind, if_pos (by omega), if_pos removed, setInode_setInode, first,
      ok_bind, second]

/-- The call once the inode is open: the entry is erased and the inode closed again. -/
theorem DirectoryOk.dirRemoveIf_eq {k : Nat} {e : DirEntry}
    (found : s.lookup dir name = .ok (some (e, dirEntrySize * k))) (below : k < n)
    (leads : e.inodeSector = target) (opens : s.Opens target memory) :
    s.dirRemoveIf dir name memory =
      (((s.put (sectorSize * d.start + dirEntrySize * k) dirEntrySize e.erase).setInode target
        (some { s.reopened target with removed := true })).inodeClose (some target)).map
          fun s => (true, s) := by
  have stays : StaysOpen s (s.setInode target (some (s.reopened target))) := ok.stays_reopened
  have reopened := ok.frame stays fun _ _ => rfl
  unfold FileSys.dirRemoveIf
  rw [found, ok_bind]
  dsimp only
  rw [leads, inodeOpen_of_opens opens, ok_bind]
  dsimp only
  rw [reopened.opened.write, reopened.opened.reach below, ok_bind]
  rw [if_neg (not_not.mpr rfl)]
  have open_ : ((s.setInode target (some (s.reopened target))).put (sectorSize * d.start +
      dirEntrySize * k) dirEntrySize e.erase).openInodes target = some (s.reopened target) :=
    update_self ..
  unfold inodeRemove
  rw [inode_eq open_, ok_bind, ok_bind]
  change (((((s.put _ _ _).setInode target _).setInode target _).inodeClose _) >>= _) = _
  rw [setInode_setInode]
  cases ((s.put (sectorSize * d.start + dirEntrySize * k) dirEntrySize e.erase).setInode target
    (some { s.reopened target with removed := true })).inodeClose (some target) with
  | error halt => rfl
  | ok after => rfl

omit ok in
theorem reopened_again {old : Inode} (open_ : s.openInodes target = some old) :
    (s.reopened target).openCnt = old.openCnt + 1 ∧ (s.reopened target).data = old.data ∧
      (s.reopened target).denyWriteCnt = old.denyWriteCnt := by
  rw [reopened, open_]
  exact ⟨rfl, rfl, rfl⟩

omit ok in
theorem reopened_fresh (closed : s.openInodes target = none) :
    (s.reopened target).openCnt = 1 ∧ (s.reopened target).data = s.inodeAt target := by
  rw [reopened, closed]
  exact ⟨rfl, rfl⟩

/-- A name that leads to an inode that can be opened is removed, and no other. -/
theorem DirectoryOk.dirRemoveIf_opens (maps : SlotTable.toMap n (s.slotAt d) name = some target)
    (opens : s.Opens target memory) :
    (∀ removed after, s.dirRemoveIf dir name memory = .ok (removed, after) → removed = true ∧
      after.DirectoryOk dir.inode d fm n ∧ SlotTable.toMap n (after.slotAt d) =
        update (SlotTable.toMap n (s.slotAt d)) name none) ∧
    (s.Releases target → ∃ after, s.dirRemoveIf dir name memory = .ok (true, after)) := by
  rcases ok.lookup name with ⟨k, e, target', found, below, slot, leads, maps'⟩ | ⟨-, none_⟩
  swap
  · cases maps.symm.trans none_
  cases maps.symm.trans maps'
  have erased : (s.put (sectorSize * d.start + dirEntrySize * k) dirEntrySize
      e.erase).DirectoryOk dir.inode d fm n := by
    refine ok.putEntry (fun used => ?_) ?_
    · rw [DirEntry.erase_inUse] at used
      cases used
    · rw [DirEntry.erase_slot]
      exact ok.distinct.clear
  let node : Inode := { s.reopened target with removed := true }
  have fresh : s.openInodes target = none → node.openCnt = 1 :=
    fun closed => (reopened_fresh closed).1
  have again : ∀ old, s.openInodes target = some old → node.openCnt = old.openCnt + 1 ∧
      node.data = old.data ∧ node.denyWriteCnt = old.denyWriteCnt :=
    fun old open_ => reopened_again open_
  rw [ok.dirRemoveIf_eq name found below leads opens]
  refine ⟨fun removed after done => ?_, fun releases => ?_⟩
  · obtain ⟨after', closed, equal⟩ := map_eq_ok.mp done
    cases equal
    obtain ⟨stays, same⟩ := erased.close_removed rfl fresh again closed
    refine ⟨rfl, erased.frame stays same, ?_⟩
    rw [SlotTable.toMap_congr erased.distinct fun j inside => same.slotAt erased.opened inside,
      slotAt_put, DirEntry.erase_slot]
    exact SlotTable.toMap_clear ok.distinct below slot
  · have released : s.openInodes target ≠ none ∨ s.freeMap.Group true 1 target ∧
        s.freeMap.Group true (bytesToSectors node.data.length) node.data.start ∧
        target ∉ (⟨node.data.start, bytesToSectors node.data.length⟩ : Span) := by
      by_cases closed : s.openInodes target = none
      · have data : node.data = s.inodeAt target := (reopened_fresh closed).2
        rw [data]
        exact releases
      · exact .inl closed
    obtain ⟨after, closed⟩ := erased.close_removed_ok rfl fresh
      (fun old open_ => (again old open_).1) released
    exact ⟨after, by rw [closed]; rfl⟩

/-- The inode is in a sector that does not exist. -/
theorem DirectoryOk.dirRemoveIf_off_device
    (maps : SlotTable.toMap n (s.slotAt d) name = some target) (closed : s.openInodes target = none)
    (off : s.device.size ≤ target) : ∃ halt, s.dirRemoveIf dir name true = .error halt := by
  unfold FileSys.dirRemoveIf
  rcases ok.lookup name with ⟨k, e, target', found, -, -, leads, maps'⟩ | ⟨-, none_⟩
  · cases maps.symm.trans maps'
    obtain ⟨halt, stops⟩ := inodeOpen_off_device closed off
    refine ⟨halt, ?_⟩
    rw [found, ok_bind]
    dsimp only
    rw [leads, stops]
    rfl
  · cases maps.symm.trans none_

/-- A name that the directory does not have, or whose inode is not opened. -/
theorem DirectoryOk.dirRemoveIf_false (memory : Bool)
    (cannot : ∀ target, SlotTable.toMap n (s.slotAt d) name = some target →
      s.openInodes target = none ∧ memory = false) :
    s.dirRemoveIf dir name memory = .ok (false, s) := by
  unfold FileSys.dirRemoveIf
  rcases ok.lookup name with ⟨k, e, target, found, -, -, leads, maps⟩ | ⟨absent, -⟩
  · obtain ⟨closed, rfl⟩ := cannot target maps
    rw [found, ok_bind]
    dsimp only
    rw [leads, inodeOpen_no_memory closed]
    rfl
  · rw [absent]
    rfl

/-! ## `dir_readdir` -/

/-- The next name, from entry `k` on. -/
theorem DirectoryOk.dirReaddir {k : Nat} (within : k ≤ n) :
    (∃ m x, s.dirReaddir ⟨dir.inode, dirEntrySize * k⟩ =
        .ok (some x.1, ⟨dir.inode, dirEntrySize * (k + m + 1)⟩) ∧ k + m < n ∧
      s.slotAt d (k + m) = some x ∧ ∀ i, k ≤ i → i < k + m → s.slotAt d i = none) ∨
    (s.dirReaddir ⟨dir.inode, dirEntrySize * k⟩ = .ok (none, ⟨dir.inode, dirEntrySize * n⟩) ∧
      ∀ i, k ≤ i → i < n → s.slotAt d i = none) := by
  have opened : s.DirOpen (Dir.mk dir.inode (dirEntrySize * k)).inode d n := ok.opened
  have stable : ∀ k < n, ∀ e, SameEntry e (s.entryAt d k) →
      e.inUse = (s.entryAt d k).inUse := fun _ _ _ same => DirEntry.inUse_congr same
  have enough : n - k < n + 1 := by omega
  unfold FileSys.dirReaddir
  dsimp only
  rw [opened.inodeLength, ok_bind, opened.rounds]
  rcases opened.searchLoop stable (fun _ => 0) within enough with
    ⟨j, e, found, low, below, same, used, skipped⟩ | ⟨e, none_, skipped⟩
  · obtain ⟨m, rfl⟩ := Nat.exists_eq_add_of_le low
    refine .inl ⟨m, ((s.entryAt d (k + m)).name, (s.entryAt d (k + m)).inodeSector), ?_, below,
      if_pos used, fun i above under => DirEntry.slot_eq_none.mpr (skipped i above under)⟩
    rw [found, ok_bind]
    rw [if_pos rfl, DirEntry.name_congr same, Nat.mul_succ]
  · refine .inr ⟨?_, fun i above under => DirEntry.slot_eq_none.mpr (skipped i above under)⟩
    rw [none_, ok_bind]
    rfl

/-- Calls from entry `k` on give the names of the entries in use, in their order. -/
theorem DirectoryOk.readdirAll {fuel : Nat} :
    ∀ {k : Nat}, k ≤ n → n - k < fuel → s.readdirAll fuel ⟨dir.inode, dirEntrySize * k⟩ =
      .ok (SlotTable.keysFrom n (s.slotAt d) k) := by
  induction fuel with
  | zero => exact fun _ enough => absurd enough (Nat.not_lt_zero _)
  | succ fuel ih =>
    intro k within enough
    rw [FileSys.readdirAll]
    rcases ok.dirReaddir within with ⟨m, x, read, below, filled, skipped⟩ | ⟨read, skipped⟩
    · rw [read, ok_bind]
      dsimp only
      rw [ih below (by omega), ok_bind, SlotTable.keysFrom_filled below skipped filled]
    · rw [read, ok_bind, SlotTable.keysFrom_empty skipped]

end

end FileSys
end Calendarizador.Source
