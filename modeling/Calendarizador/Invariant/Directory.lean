import Calendarizador.Invariant.DirectoryScan
import Calendarizador.Invariant.OpenInodes

/-!
# The root directory

The root directory as an open directory of sixteen entries, and the files that its entries
lead to.
-/
namespace Calendarizador.Source
open Foundation

namespace FileSys

/-- The root directory is open, as `dir_open_root` leaves it. -/
structure RootOpen (s : FileSys) (live : Nat → Prop) : Prop where
  sound : s.Sound live
  member : live rootDirSector
  length : (s.inodeAt rootDirSector).length = 320
  node : s.openInodes rootDirSector = some ⟨1, false, 0, s.inodeAt rootDirSector⟩
  terminated : ∀ k < 16, (s.rootEntry k).inUse = true → (s.rootEntry k).Terminated

/-- The state after entry `k` of the root directory was written. -/
def putEntry (s : FileSys) (k : Nat) (e : DirEntry) : FileSys :=
  s.put (sectorSize * (s.inodeAt rootDirSector).start + dirEntrySize * k) dirEntrySize e

section
variable {s : FileSys} {live : Nat → Prop} (root : s.RootOpen live)
include root
variable {k : Nat}

theorem RootOpen.inside : (s.inodeAt rootDirSector).Inside s.device.size :=
  (root.sound.inside _ root.member).2

theorem RootOpen.dirOpen : s.DirOpen (Dir.mk rootDirSector 0).inode
    (s.inodeAt rootDirSector) 16 :=
  ⟨⟨_, root.node, rfl, rfl⟩, root.inside.fits, root.length, root.terminated⟩

/-- `lookup` finds an entry that is in use and has the name, if there is one. -/
theorem RootOpen.lookup (name : CString) :
    (∃ j e, s.lookup ⟨rootDirSector, 0⟩ name = .ok (some (e, dirEntrySize * j)) ∧ j < 16 ∧
      SameEntry e (s.rootEntry j) ∧ (s.rootEntry j).inUse = true ∧
      (s.rootEntry j).hasName name = true) ∨
    (s.lookup ⟨rootDirSector, 0⟩ name = .ok none ∧
      ∀ j < 16, (s.rootEntry j).inUse = true → (s.rootEntry j).hasName name = false) :=
  root.dirOpen.lookup name

/-- `dir_add` writes a free entry, or leaves everything as it is. -/
theorem RootOpen.dirAdd (name : CString) (sector : Nat) :
    (∃ (k : Nat) (e : DirEntry), s.dirAdd ⟨rootDirSector, 0⟩ name sector =
        .ok (true, s.putEntry k (e.fill name sector)) ∧ k < 16 ∧
      (s.rootEntry k).inUse = false ∧ name.bytes ≠ [] ∧ name.bytes.length ≤ nameMax ∧
      ∀ j < 16, (s.rootEntry j).inUse = true → (s.rootEntry j).hasName name = false) ∨
    (s.dirAdd ⟨rootDirSector, 0⟩ name sector = .ok (false, s) ∧
      s.Refuses (s.inodeAt rootDirSector) 16 name) :=
  root.dirOpen.dirAdd name sector

/-! ## Writing an entry -/

theorem RootOpen.putEntry_same {n : Nat} (below : k < 16) (e : DirEntry)
    (other : n ∉ s.extent rootDirSector) : SameSector s (s.putEntry k e) n := by
  have same := put_data_same (s := s) (dirEntrySize * k) dirEntrySize e root.inside other
  rwa [root.dirOpen.reach below] at same

theorem RootOpen.keeps_putEntry (below : k < 16) (e : DirEntry) :
    Keeps live (· = rootDirSector) s (s.putEntry k e) := by
  refine ⟨rfl, fun sector n member owns spared => root.putEntry_same below e fun data => ?_⟩
  obtain rfl := root.sound.one sector rootDirSector n member root.member owns (.inr data)
  rcases spared with rfl | other
  · exact root.sound.self _ member data
  · exact other rfl

theorem RootOpen.sound_putEntry (below : k < 16) (e : DirEntry) : (s.putEntry k e).Sound live := by
  have keeps := root.keeps_putEntry below e
  refine root.sound.setDevice rfl (fun sector member => keeps.inode member) fun n data => ?_
  exact keeps.same freeMapSector n root.sound.free_map (.inr data) (.inr (by decide))

/-- The entry that was written, and the others. -/
theorem RootOpen.rootEntry_putEntry (below : k < 16) (e : DirEntry) (j : Nat) :
    SameEntry ((s.putEntry k e).rootEntry j) (if j = k then e else s.rootEntry j) := by
  have start : (s.putEntry k e).inodeAt rootDirSector = s.inodeAt rootDirSector :=
    ((root.keeps_putEntry below e).inode root.member).inodeAt
  have entry : (s.putEntry k e).rootEntry j =
      (s.putEntry k e).entryAt (s.inodeAt rootDirSector) j := by
    unfold FileSys.rootEntry FileSys.content
    rw [start]
    rfl
  rw [entry]
  exact entryAt_put s _ k e j

end

/-- The entries of the root directory are as they were. -/
def SameRoot (s after : FileSys) : Prop :=
  ∀ k < 16, SameEntry (after.rootEntry k) (s.rootEntry k)

/-- The entries of the root directory have different names and lead to different files. -/
structure Entries (s : FileSys) : Prop where
  terminated : ∀ k < 16, (s.rootEntry k).inUse = true → (s.rootEntry k).Terminated
  sector : ∀ k < 16, (s.rootEntry k).inUse = true →
    (s.rootEntry k).inodeSector ≠ freeMapSector ∧ (s.rootEntry k).inodeSector ≠ rootDirSector
  distinct : ∀ j < 16, ∀ k < 16, (s.rootEntry j).inUse = true → (s.rootEntry k).inUse = true →
    (s.rootEntry j).inodeSector = (s.rootEntry k).inodeSector → j = k
  named : ∀ j < 16, ∀ k < 16, (s.rootEntry j).inUse = true → (s.rootEntry k).inUse = true →
    ∀ name, (s.rootEntry j).hasName name = true → (s.rootEntry k).hasName name = true → j = k

section
variable {s after : FileSys} {live written : Nat → Prop}

theorem SameRoot.trans {middle : FileSys} (first : SameRoot s middle)
    (second : SameRoot middle after) : SameRoot s after :=
  fun k below i inside => (second k below i inside).trans (first k below i inside)

theorem SameRoot.of_device_eq (device : after.device = s.device) : SameRoot s after := by
  intro k _ i _
  unfold FileSys.rootEntry FileSys.content FileSys.inodeAt
  rw [device]

theorem Keeps.sameRoot (keeps : Keeps live written s after) (ok : s.Sound live)
    (member : live rootDirSector) (length : (s.inodeAt rootDirSector).length = 320)
    (spared : ¬ written rootDirSector) : SameRoot s after := by
  intro k below i inside
  refine keeps.content ok member spared ?_
  rw [length]
  simp only [dirEntrySize] at inside ⊢
  omega

theorem SameRoot.named (same : SameRoot s after) (sector : Nat) :
    after.Named sector ↔ s.Named sector := by
  refine exists_congr fun k => and_congr_right fun below => ?_
  rw [DirEntry.inUse_congr (same k below), DirEntry.inodeSector_congr (same k below)]

theorem SameRoot.hasName (same : SameRoot s after) {k : Nat} (below : k < 16)
    (ends : (s.rootEntry k).Terminated) (name : CString) :
    (after.rootEntry k).hasName name = (s.rootEntry k).hasName name :=
  (DirEntry.hasName_congr (fun i inside => (same k below i inside).symm) ends name).symm

theorem SameRoot.entries (same : SameRoot s after) (entries : s.Entries) : after.Entries := by
  have used (k : Nat) (below : k < 16) := DirEntry.inUse_congr (same k below)
  have sector (k : Nat) (below : k < 16) := DirEntry.inodeSector_congr (same k below)
  refine ⟨fun k below inUse => ?_, fun k below inUse => ?_, fun j first k second inUse inUse' => ?_,
    fun j first k second inUse inUse' name => ?_⟩
  · rw [used k below] at inUse
    refine DirEntry.terminated_congr (fun i inside => (same k below i inside).symm) ?_
    exact entries.terminated k below inUse
  · rw [used k below] at inUse
    rw [sector k below]
    exact entries.sector k below inUse
  · rw [used j first] at inUse
    rw [used k second] at inUse'
    rw [sector j first, sector k second]
    exact entries.distinct j first k second inUse inUse'
  · rw [used j first] at inUse
    rw [used k second] at inUse'
    rw [same.hasName first (entries.terminated j first inUse),
      same.hasName second (entries.terminated k second inUse')]
    exact entries.named j first k second inUse inUse' name

theorem Entries.of_device_eq (entries : s.Entries) (device : after.device = s.device) :
    after.Entries := (SameRoot.of_device_eq device).entries entries

theorem Entries.length_of_finds (entries : s.Entries) {name : CString} {sector : Nat}
    (found : s.Finds name sector) : name.bytes.length ≤ nameMax := by
  obtain ⟨k, below, used, named, -⟩ := found
  exact DirEntry.length_of_hasName (entries.terminated k below used) named

theorem Entries.finds_unique (entries : s.Entries) {name : CString} {sector sector' : Nat}
    (first : s.Finds name sector) (second : s.Finds name sector') : sector = sector' := by
  obtain ⟨j, below, used, named, rfl⟩ := first
  obtain ⟨k, below', used', named', rfl⟩ := second
  obtain rfl := entries.named j below k below' used used' name named named'
  rfl

end

/-! ## The files that the directory names -/

section
variable {s : FileSys} {live : Nat → Prop} (root : s.RootOpen live) {k : Nat} (below : k < 16)
include root below

theorem RootOpen.inUse_putEntry (e : DirEntry) (j : Nat) :
    ((s.putEntry k e).rootEntry j).inUse = if j = k then e.inUse else (s.rootEntry j).inUse := by
  rw [DirEntry.inUse_congr (root.rootEntry_putEntry below e j)]
  exact apply_ite _ _ _ _

theorem RootOpen.inodeSector_putEntry (e : DirEntry) (j : Nat) :
    ((s.putEntry k e).rootEntry j).inodeSector =
      if j = k then e.inodeSector else (s.rootEntry j).inodeSector := by
  rw [DirEntry.inodeSector_congr (root.rootEntry_putEntry below e j)]
  exact apply_ite _ _ _ _

theorem RootOpen.named_fill {e : DirEntry} {name : CString} {sector : Nat}
    (free : (s.rootEntry k).inUse = false) (small : sector < 4294967296) (o : Nat) :
    (s.putEntry k (e.fill name sector)).Named o ↔ s.Named o ∨ o = sector := by
  unfold FileSys.Named
  simp only [root.inUse_putEntry below, root.inodeSector_putEntry below, DirEntry.fill_inUse,
    DirEntry.fill_inodeSector e small]
  constructor
  · rintro ⟨j, inside, used, leads⟩
    by_cases same : j = k
    · rw [if_pos same] at leads
      exact .inr leads.symm
    · rw [if_neg same] at used leads
      exact .inl ⟨j, inside, used, leads⟩
  · rintro (⟨j, inside, used, leads⟩ | rfl)
    · have other : j ≠ k := by
        rintro rfl
        rw [free] at used
        cases used
      exact ⟨j, inside, by rwa [if_neg other], by rwa [if_neg other]⟩
    · exact ⟨k, below, if_pos rfl, if_pos rfl⟩

theorem RootOpen.named_erase (entries : s.Entries) (used : (s.rootEntry k).inUse = true)
    (e : DirEntry) (o : Nat) :
    (s.putEntry k e.erase).Named o ↔ s.Named o ∧ o ≠ (s.rootEntry k).inodeSector := by
  unfold FileSys.Named
  simp only [root.inUse_putEntry below, root.inodeSector_putEntry below, DirEntry.erase_inUse]
  constructor
  · rintro ⟨j, inside, used', leads⟩
    by_cases same : j = k
    · rw [if_pos same] at used'
      cases used'
    · rw [if_neg same] at used' leads
      refine ⟨⟨j, inside, used', leads⟩, fun equal => same ?_⟩
      exact entries.distinct j inside k below used' used (leads.trans equal)
  · rintro ⟨⟨j, inside, used', leads⟩, different⟩
    have other : j ≠ k := by
      rintro rfl
      exact different leads.symm
    exact ⟨j, inside, by rwa [if_neg other], by rwa [if_neg other]⟩

/-- An entry that goes with the entries other than `k`. -/
structure DirEntry.Fits (e : DirEntry) (s : FileSys) (k : Nat) : Prop where
  terminated : e.Terminated
  sector : e.inodeSector ≠ freeMapSector ∧ e.inodeSector ≠ rootDirSector
  distinct : ∀ j < 16, (s.rootEntry j).inUse = true → j ≠ k →
    (s.rootEntry j).inodeSector ≠ e.inodeSector
  named : ∀ j < 16, (s.rootEntry j).inUse = true → j ≠ k →
    ∀ name, e.hasName name = true → (s.rootEntry j).hasName name ≠ true

/-- The entries stay in order if the new one, when it is in use, goes with the others. -/
theorem RootOpen.entries_putEntry (entries : s.Entries) {e : DirEntry}
    (new : e.inUse = true → DirEntry.Fits e s k) : (s.putEntry k e).Entries := by
  have same := root.rootEntry_putEntry below e
  have terminated : ∀ j < 16, ((s.putEntry k e).rootEntry j).inUse = true →
      DirEntry.Terminated (if j = k then e else s.rootEntry j) := by
    intro j inside used
    rw [root.inUse_putEntry below] at used
    by_cases here : j = k
    · rw [if_pos here] at used ⊢
      exact (new used).terminated
    · rw [if_neg here] at used ⊢
      exact entries.terminated j inside used
  refine ⟨fun j inside used => ?_, fun j inside used => ?_,
    fun i inside j inside' used used' equal => ?_,
    fun i inside j inside' used used' name first second => ?_⟩
  · exact DirEntry.terminated_congr (fun i within => (same j i within).symm)
      (terminated j inside used)
  · rw [root.inUse_putEntry below] at used
    rw [root.inodeSector_putEntry below]
    by_cases here : j = k
    · rw [if_pos here] at used ⊢
      exact (new used).sector
    · rw [if_neg here] at used ⊢
      exact entries.sector j inside used
  · rw [root.inUse_putEntry below] at used used'
    rw [root.inodeSector_putEntry below, root.inodeSector_putEntry below] at equal
    split at used <;> split at used'
    · next first second => exact first.trans second.symm
    · next first second =>
      rw [if_pos first, if_neg second] at equal
      exact absurd equal.symm ((new used).distinct j inside' used' second)
    · next first second =>
      rw [if_neg first, if_pos second] at equal
      exact absurd equal ((new used').distinct i inside used first)
    · next first second =>
      rw [if_neg first, if_neg second] at equal
      exact entries.distinct i inside j inside' used used' equal
  · have name_ (j : Nat) (ends : DirEntry.Terminated (if j = k then e else s.rootEntry j)) :=
      DirEntry.hasName_congr (fun i within => (same j i within).symm) ends name
    rw [← name_ i (terminated i inside used)] at first
    rw [← name_ j (terminated j inside' used')] at second
    rw [root.inUse_putEntry below] at used used'
    by_cases here : i = k <;> by_cases there : j = k
    · exact here.trans there.symm
    · rw [if_pos here] at used first
      rw [if_neg there] at used' second
      exact absurd second ((new used).named j inside' used' there name first)
    · rw [if_neg here] at used first
      rw [if_pos there] at used' second
      exact absurd first ((new used').named i inside used here name second)
    · rw [if_neg here] at used first
      rw [if_neg there] at used' second
      exact entries.named i inside j inside' used used' name first second

end
end FileSys
end Calendarizador.Source
