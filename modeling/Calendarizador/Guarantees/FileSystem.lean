import Calendarizador.Invariant.FileRuns

/-!
# The file system over whole runs

No sector has two owners, a file that is open keeps its data until its last close even if it
is removed, and a reboot finds everything as it was.
-/
namespace Calendarizador.Guarantees
open Foundation Source FileSys

/-- No sector has two owners, and nothing takes the data of an open file away from it. -/
structure VolumeSafe (v : Volume) : Prop where
  /-- A sector belongs to one file only. -/
  one : ∀ sector other n, v.fs.Owner sector → v.fs.Owner other → v.fs.Owns sector n →
    v.fs.Owns other n → sector = other
  /-- An inode is not among its own data. -/
  self : ∀ sector, v.fs.Owner sector → sector ∉ v.fs.extent sector
  used : ∀ sector n, v.fs.Owner sector → v.fs.Owns sector n →
    n < v.fs.device.size ∧ v.fs.freeMap.bit n = true
  /-- The files a caller has open are owners, removed or not. -/
  opened : ∀ file ∈ v.files, v.fs.openInodes file.inode ≠ none
  /-- No assertion fails but the ones that sizes and positions are not negative. -/
  proceeds : ∀ e, v.Permitted e → (∃ after, v.step e = .ok after) ∨ e.Negative
  /-- A file that stays open keeps its inode, on the disk and in memory, and its data if it is
  not written to. -/
  intact : ∀ e after, v.Permitted e → v.step e = .ok after → ∀ sector,
    (∃ file ∈ v.files, file.inode = sector) → (∃ file ∈ after.files, file.inode = sector) →
    ¬ v.Writes sector e → after.fs.inodeAt sector = v.fs.inodeAt sector ∧
      (after.fs.openInodes sector).map (·.data) = (v.fs.openInodes sector).map (·.data) ∧
      ∀ i : Nat, i < (v.fs.inodeAt sector).length →
        after.fs.content sector i = v.fs.content sector i

theorem volumeSafe_of_ok {v : Volume} (ok : v.Ok) : VolumeSafe v := by
  have sound := ok.consistent.sound
  have owner {w : Volume} (ok : w.Ok) {sector : Nat}
      (open_ : ∃ file ∈ w.files, file.inode = sector) : w.fs.Owner sector ∧
        (w.fs.openInodes sector).map (·.data) = some (w.fs.inodeAt sector) := by
    obtain ⟨file, member, rfl⟩ := open_
    obtain ⟨_, open_, _, _, _, data, owner⟩ := ok.consistent.node (Volume.refs_file member)
    exact ⟨owner, by rw [open_, ← data]; rfl⟩
  refine ⟨sound.one, sound.self, fun sector n member owns => ?_, fun file member => ?_,
    fun e permitted => ?_, fun e after permitted taken sector before behind spared => ?_⟩
  · exact ⟨sound.lt_size member owns, sound.used sector n member owns⟩
  · obtain ⟨node, open_, -⟩ := ok.consistent.node (Volume.refs_file member)
    rw [open_]
    exact Option.some_ne_none node
  · rcases ok.step permitted with ⟨after, steps, -⟩ | ⟨negative, -⟩
    · exact .inl ⟨after, steps⟩
    · exact .inr negative
  · rcases ok.step permitted with ⟨after', steps, leaves⟩ | ⟨-, stops⟩
    swap
    · cases taken.symm.trans stops
    cases taken.symm.trans steps
    have both : v.fs.Owner sector ∧ after.fs.Owner sector :=
      ⟨(owner ok before).1, (owner leaves.ok behind).1⟩
    have other : ¬ (Internal sector ∨ v.Writes sector e) := by
      rintro (internal | writes)
      · obtain ⟨file, member, rfl⟩ := before
        obtain ⟨notMap, notRoot, -⟩ := ok.files file member
        exact internal.elim notMap notRoot
      · exact spared writes
    have same := leaves.keeps.inode both
    refine ⟨same.inodeAt, ?_, fun i below => same.content
      (fun n data => leaves.keeps.same sector n both (.inr data) (.inr other))
      (sound.inside sector both.1).2 below⟩
    rw [(owner ok before).2, (owner leaves.ok behind).2, same.inodeAt]

/-- In every state that calls reach from a formatted volume. -/
theorem sectors_owned_once (v : Volume) (h : ReachableWhile volumeSystem Volume.Permitted v) :
    VolumeSafe v :=
  volumeSafe_of_ok (Volume.reachable_ok h)

/-- A device of eight sectors with arbitrary contents. -/
def smallDisk : FileSys := ⟨⟨8, fun _ => 1⟩, fun _ => none, ⟨0, fun _ => 0⟩, none⟩

/-- The name `a`. -/
def nameA : CString := ⟨[97], by decide⟩

/-- The first file `a` is open when it is removed, and `a` is created again. -/
def recreation : List FileEvent :=
  [.create nameA 3, .openFile nameA, .write 0 (fun _ => 7) 3, .remove nameA, .create nameA 5]

/-- The calls on the formatted disk; the result is `value`. -/
def onSmallDisk {β : Type} (events : List FileEvent) (value : Volume → β) : Option β := do
  let fs ← (smallDisk.filesysInit true fun _ => 5).toOption
  let v ← runWhile volumeSystem Volume.Permitted ⟨fs, []⟩ events
  some (value v)

theorem onSmallDisk_reachable {β : Type} {events : List FileEvent} {value : Volume → β}
    {result : β} (ran : onSmallDisk events value = some result) :
    ∃ v, ReachableWhile volumeSystem Volume.Permitted v ∧ value v = result := by
  unfold onSmallDisk at ran
  obtain ⟨fs, formatted, rest⟩ := Option.bind_eq_some_iff.mp ran
  obtain ⟨v, executed, ⟨⟩⟩ := Option.bind_eq_some_iff.mp rest
  have first : ReachableWhile volumeSystem Volume.Permitted ⟨fs, []⟩ :=
    .initial ⟨rfl, smallDisk, _, rfl, by decide, toOption_eq_some formatted⟩
  exact ⟨v, first.run _ executed, rfl⟩

/-- The two files are in sectors 4 and 6, and the open one still has its data. -/
theorem sectors_owned_once_removed : ∃ v, VolumeSafe v ∧ v.files = [⟨4, 3, false⟩] ∧
    (v.fs.rootEntry 0).inodeSector = 6 ∧ v.fs.content 4 2 = 7 := by
  have ran : onSmallDisk recreation (fun v => decide (v.files = [⟨4, 3, false⟩] ∧
      (v.fs.rootEntry 0).inodeSector = 6 ∧ v.fs.content 4 2 = 7)) = some true := by
    decide +kernel
  obtain ⟨v, reached, facts⟩ := onSmallDisk_reachable ran
  exact ⟨v, sectors_owned_once v reached, of_decide_eq_true facts⟩

/-! ## Reboot -/

/-- Both file systems have the same free map, names and files. -/
structure SameFiles (s after : FileSys) : Prop where
  bits : after.freeMap.bitCnt = s.freeMap.bitCnt ∧
    ∀ j < s.freeMap.bitCnt, after.freeMap.bit j = s.freeMap.bit j
  names : ∀ name sector, after.Finds name sector ↔ s.Finds name sector
  lengths : ∀ sector, (after.inodeAt sector).length = (s.inodeAt sector).length
  contents : ∀ sector i, after.content sector i = s.content sector i

theorem SameFiles.of_device {s after : FileSys} (device : after.device = s.device)
    (count : after.freeMap.bitCnt = s.freeMap.bitCnt)
    (bits : ∀ j < s.freeMap.bitCnt, after.freeMap.bit j = s.freeMap.bit j) : SameFiles s after := by
  have inode : after.inodeAt = s.inodeAt := by
    funext sector
    unfold FileSys.inodeAt
    rw [device]
  have content : after.content = s.content := by
    funext sector i
    unfold FileSys.content
    rw [inode, device]
  refine ⟨⟨count, bits⟩, fun name sector => ?_, fun sector => by rw [inode],
    fun sector i => by rw [content]⟩
  unfold Finds rootEntry
  rw [content]

/-- `filesys_done` followed by `filesys_init (false)`, with no file open. -/
theorem remount_eq {v : Volume} (ok : v.Ok) (closed : v.files = []) (bits : Nat → BitVec 32) :
    ∃ after, v.fs.remount bits = .ok after ∧ SameFiles v.fs after ∧
      Volume.Ok ⟨after, []⟩ := by
  have sound := ok.consistent.sound
  have mounted := sound.mounted
  have refs : v.refs = fun o => if o = freeMapSector then 1 else 0 := by
    funext o
    rw [Volume.refs, closed]
    rfl
  have others : ∀ o, o ≠ freeMapSector → v.fs.openInodes o = none := by
    intro o other
    rw [ok.consistent.closed, refs]
    exact if_neg other
  have done : v.fs.filesysDone = .ok (v.fs.setInode freeMapSector none) := by
    unfold filesysDone freeMapClose
    rw [mounted.file]
    exact inodeClose_last mounted.node rfl rfl
  -- after the reboot nothing is open
  let fresh : FileSys := { v.fs.setInode freeMapSector none with openInodes := fun _ => none }
  obtain ⟨b, initialised, count, -, -⟩ := freeMapInit_eq (s := fresh) mounted.some_ mounted.few bits
  obtain ⟨after, opened, device, table, size, same, sound'⟩ :=
    sound.remount (fresh.setFreeMap b) rfl rfl (fun o other => (others o other).symm) count
  refine ⟨after, ?_, .of_device device (size.trans mounted.bits.symm) ?_, ⟨?_, by simp⟩⟩
  · unfold FileSys.remount
    rw [done, ok_bind]
    unfold filesysInit
    rw [initialised, ok_bind]
    exact opened
  · rw [mounted.bits]
    exact same
  · have same : Volume.refs ⟨after, []⟩ = v.refs := by
      unfold Volume.refs
      rw [closed]
    have keeps : Keeps v.fs.Owner (fun _ => False) v.fs after := .of_device_eq _ _ device
    rw [same]
    exact (ok.consistent.of_keeps keeps id table sound').2

/-- Between calls the free map file holds the free map; and if no file is open, shutting down
and mounting again gives the same free map, names and files, and a volume in order. -/
theorem remount_preserves (v : Volume) (h : ReachableWhile volumeSystem Volume.Permitted v) :
    ((v.fs.inodeAt freeMapSector).length = Bitmap.byteCnt v.fs.freeMap.bitCnt ∧
      ∀ j < v.fs.freeMap.bitCnt,
        bitAt (fun i => v.fs.content freeMapSector i) j = v.fs.freeMap.bit j) ∧
    (v.files = [] → ∀ bits, ∃ after, v.fs.remount bits = .ok after ∧ SameFiles v.fs after ∧
      VolumeSafe ⟨after, []⟩) := by
  have ok := Volume.reachable_ok h
  have mounted := ok.consistent.sound.mounted
  refine ⟨⟨by rw [mounted.bits]; exact mounted.length, fun j below => ?_⟩, fun closed bits => ?_⟩
  · exact ok.consistent.sound.synced j (mounted.bits ▸ below)
  · obtain ⟨after, executed, same, ok'⟩ := remount_eq ok closed bits
    exact ⟨after, executed, same, volumeSafe_of_ok ok'⟩

/-- A file that is written and closed is found again. -/
theorem remount_preserves_file : ∃ (v : Volume) (after : FileSys), v.files = [] ∧
    v.fs.remount (fun _ => 9) = .ok after ∧ after.Finds nameA 4 ∧ after.content 4 2 = 7 := by
  have ran : onSmallDisk [.create nameA 3, .openFile nameA, .write 0 (fun _ => 7) 3, .close 0]
      (fun v => decide (v.files = [] ∧ v.fs.Finds nameA 4 ∧ v.fs.content 4 2 = 7)) =
      some true := by
    decide +kernel
  obtain ⟨v, reached, facts⟩ := onSmallDisk_reachable ran
  obtain ⟨closed, found, content⟩ := of_decide_eq_true facts
  obtain ⟨after, executed, same, -⟩ := (remount_preserves v reached).2 closed fun _ => 9
  exact ⟨v, after, closed, executed, (same.names _ _).mpr found,
    (same.contents _ _).trans content⟩

end Calendarizador.Guarantees
