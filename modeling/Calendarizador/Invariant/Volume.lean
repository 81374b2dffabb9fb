import Calendarizador.Invariant.Directory

/-!
# Calls on the file system

`Consistent s refs`: the free map, the root directory and every file that is named or open
own their sectors alone, and `refs` counts the pointers to each inode. Every call keeps this,
with the counts it leaves, and spares the data of the files it does not write.
-/
namespace Calendarizador.Source
open Foundation Function

namespace FileSys

structure Consistent (s : FileSys) (refs : Nat → Nat) : Prop where
  sound : s.Sound s.Owner
  length : (s.inodeAt rootDirSector).length = 320
  entries : s.Entries
  closed : ∀ sector, s.openInodes sector = none ↔ refs sector = 0
  opened : ∀ sector node, s.openInodes sector = some node → node.openCnt = refs sector ∧
    node.denyWriteCnt = 0 ∧ (node.removed = true → ¬ s.Named sector ∧ sector ≠ rootDirSector)

/-- The files whose data the file system itself writes. -/
def Internal (sector : Nat) : Prop := sector = freeMapSector ∨ sector = rootDirSector

section
variable {s after : FileSys} {refs : Nat → Nat} {sector : Nat}

theorem owner_root (s : FileSys) : s.Owner rootDirSector := .inr (.inl rfl)

theorem owner_eq (named : ∀ o, after.Named o ↔ s.Named o)
    (table : ∀ o, after.openInodes o = none ↔ s.openInodes o = none) : after.Owner = s.Owner := by
  funext o
  rw [Owner, Owner, named, Ne, table]

/-- A change of the table makes no owner of anybody else. -/
theorem Owner.of_setInode {node : Option Inode} {o : Nat} (owner : s.Owner sector)
    (h : (s.setInode sector node).Owner o) : s.Owner o := by
  rcases h with h | h | h | h
  · exact .inl h
  · exact .inr (.inl h)
  · exact .inr (.inr (.inl h))
  · rw [setInode_openInodes, update_apply] at h
    split at h
    · next same => exact same ▸ owner
    · exact .inr (.inr (.inr h))

theorem Consistent.node (ok : s.Consistent refs) (held : refs sector ≠ 0) :
    ∃ node, s.openInodes sector = some node ∧ node.openCnt = refs sector ∧
      node.denyWriteCnt = 0 ∧
      (node.removed = true → ¬ s.Named sector ∧ sector ≠ rootDirSector) ∧
      node.data = s.inodeAt sector ∧ s.Owner sector := by
  obtain ⟨node, open_⟩ := Option.ne_none_iff_exists'.mp (mt (ok.closed sector).mp held)
  obtain ⟨count, allowed, removed⟩ := ok.opened sector node open_
  obtain ⟨owner, data⟩ := ok.sound.cached sector node open_
  exact ⟨node, open_, count, allowed, removed, data, owner⟩

/-- One pointer to the root directory is the one of `dir_open_root`. -/
theorem Consistent.rootOpen (ok : s.Consistent refs) (one : refs rootDirSector = 1) :
    s.RootOpen s.Owner := by
  have held : refs rootDirSector ≠ 0 := by omega
  obtain ⟨node, open_, count, allowed, removed, data, owner⟩ := ok.node held
  have kept : node.removed = false := Bool.eq_false_iff.mpr fun gone => (removed gone).2 rfl
  have whole : node = ⟨1, false, 0, s.inodeAt rootDirSector⟩ := by
    cases node
    simp only at count allowed kept data
    rw [count, allowed, kept, data, one]
    rfl
  exact ⟨ok.sound, owner, ok.length, open_.trans (congrArg some whole), ok.entries.terminated⟩

/-- Writes that spare the root directory and leave the table of inodes as it is. -/
theorem Consistent.of_keeps (ok : s.Consistent refs) {written : Nat → Prop}
    (keeps : Keeps s.Owner written s after) (spared : ¬ written rootDirSector)
    (table : after.openInodes = s.openInodes) (sound : after.Sound s.Owner) :
    after.Owner = s.Owner ∧ after.Consistent refs := by
  have same := keeps.sameRoot ok.sound (owner_root s) ok.length spared
  have owner : after.Owner = s.Owner := owner_eq same.named fun o => by rw [table]
  refine ⟨owner, owner.symm ▸ sound, ?_, same.entries ok.entries, ?_, ?_⟩
  · rw [(keeps.inode (owner_root s)).inodeAt]
    exact ok.length
  · rw [table]
    exact ok.closed
  · intro o node open_
    rw [table] at open_
    rw [same.named]
    exact ok.opened o node open_

/-! ## Opening and closing -/

theorem Consistent.inodeOpen (ok : s.Consistent refs) (owner : s.Owner sector)
    (other : sector ≠ freeMapSector) :
    ∃ after, s.inodeOpen sector true = .ok (some sector, after) ∧ after.device = s.device ∧
      after.Owner = s.Owner ∧
      after.Consistent (update refs sector (refs sector + 1)) := by
  refine ⟨_, inodeOpen_eq (ok.sound.inside sector owner).1, rfl, ?_⟩
  have owners : (s.setInode sector (some (s.reopened sector))).Owner = s.Owner := by
    funext o
    refine propext ⟨owner.of_setInode, fun h => ?_⟩
    rcases h with h | h | h | h
    · exact .inl h
    · exact .inr (.inl h)
    · exact .inr (.inr (.inl h))
    · refine .inr (.inr (.inr ?_))
      rw [setInode_openInodes, update_apply]
      split
      · exact Option.some_ne_none _
      · exact h
  refine ⟨owners, owners.symm ▸ ok.sound.reopened other owner, ok.length,
    ok.entries.of_device_eq rfl, ?_, ?_⟩
  · intro o
    rw [setInode_openInodes, update_apply, update_apply]
    split
    · simp
    · exact ok.closed o
  · intro o node open_
    rw [setInode_openInodes, update_apply] at open_
    rw [update_apply]
    split at open_
    · next same =>
      subst same
      rw [if_pos rfl]
      cases Option.some.inj open_
      unfold FileSys.reopened
      cases before : s.openInodes o with
      | none =>
        have none_ := (ok.closed o).mp before
        exact ⟨by simp [none_], rfl, nofun⟩
      | some node =>
        obtain ⟨count, allowed, removed⟩ := ok.opened o node before
        exact ⟨by simp [count], allowed, removed⟩
    · next different =>
      rw [if_neg different]
      exact ok.opened o node open_

/-- The counts after a pointer to the inode is given up. -/
theorem Consistent.setInode_less (ok : s.Consistent refs) {node' : Option Inode}
    (sound : (s.setInode sector node').Sound (s.setInode sector node').Owner)
    (none_ : node' = none ↔ refs sector = 1 ∨ refs sector = 0)
    (some_ : ∀ node ∈ node', node.openCnt = (refs sector - 1 : Nat) ∧ node.denyWriteCnt = 0 ∧
      (node.removed = true → ¬ s.Named sector ∧ sector ≠ rootDirSector)) :
    (s.setInode sector node').Consistent (update refs sector (refs sector - 1)) := by
  refine ⟨sound, ok.length, ok.entries.of_device_eq rfl, fun o => ?_,
    fun o node open_ => ?_⟩
  · rw [setInode_openInodes, update_apply, update_apply]
    split
    · rw [none_]
      omega
    · exact ok.closed o
  · rw [setInode_openInodes, update_apply] at open_
    rw [update_apply]
    split at open_
    · next same =>
      subst same
      rw [if_pos rfl]
      exact some_ node open_
    · next different =>
      rw [if_neg different]
      exact ok.opened o node open_

/-- `inode_close` gives up a pointer; with the last one the sectors of a removed file are
released. -/
theorem Consistent.inodeClose (ok : s.Consistent refs) (held : refs sector ≠ 0)
    (other : sector ≠ freeMapSector) : ∃ after, s.inodeClose (some sector) = .ok after ∧
      after.Consistent (update refs sector (refs sector - 1)) ∧
      (∀ o, after.Owner o → s.Owner o) ∧
      Keeps (fun o => s.Owner o ∧ after.Owner o) (· = freeMapSector) s after ∧
      (s.Named sector → after.device = s.device) := by
  obtain ⟨node, open_, count, allowed, removed, data, owner⟩ := ok.node held
  have listed (node' : Option Inode) (o : Nat)
      (h : (s.setInode sector node').openInodes o ≠ none) : (s.setInode sector node').Owner o :=
    .inr (.inr (.inr h))
  by_cases more : node.openCnt ≠ 1
  · have sound := ok.sound.setInode (some { node with openCnt := node.openCnt - 1 }) other
      (by rintro n ⟨⟩; exact ⟨owner, data⟩)
    refine ⟨_, inodeClose_more open_ more, ok.setInode_less
      (sound.mono (fun _ => owner.of_setInode) (.inl rfl) (listed _)) (by simp; omega) ?_,
      fun _ => owner.of_setInode, .of_device_eq _ _ rfl, fun _ => rfl⟩
    rintro n ⟨⟩
    exact ⟨by simp; omega, allowed, removed⟩
  · have one : node.openCnt = 1 := not_not.mp more
    by_cases gone : node.removed = true
    · obtain ⟨unnamed, notRoot⟩ := removed gone
      obtain ⟨after, closed, sound, keeps, table⟩ :=
        ok.sound.inodeClose_removed open_ one gone other
      have root : s.Owner rootDirSector ∧ rootDirSector ≠ sector := ⟨owner_root s, notRoot.symm⟩
      have sameInode := (keeps.inode root).inodeAt
      have same : SameRoot s after := by
        intro k below i inside
        refine (keeps.inode root).content
          (fun n data => keeps.same rootDirSector n root (.inr data) (.inr (by decide)))
          (ok.sound.inside _ (owner_root s)).2 ?_
        rw [ok.length]
        simp only [dirEntrySize] at inside ⊢
        omega
      have owners : ∀ o, after.Owner o → s.Owner o ∧ o ≠ sector := by
        intro o h
        rcases h with h | h | h | h
        · exact ⟨.inl h, h ▸ other.symm⟩
        · exact ⟨.inr (.inl h), h ▸ notRoot.symm⟩
        · rw [same.named] at h
          refine ⟨.inr (.inr (.inl h)), ?_⟩
          rintro rfl
          exact unnamed h
        · rw [table, update_apply] at h
          split at h
          · exact absurd rfl h
          · next different => exact ⟨.inr (.inr (.inr h)), different⟩
      refine ⟨after, closed, ⟨sound.mono owners (.inl rfl) fun o h => .inr (.inr (.inr h)), ?_,
        same.entries ok.entries, fun o => ?_, fun o node' h => ?_⟩, fun o h => (owners o h).1,
        keeps.mono (fun o h => owners o h.2) fun o h => h, fun named => absurd named unnamed⟩
      · rw [sameInode]
        exact ok.length
      · rw [table, update_apply, update_apply]
        split
        · simp
          omega
        · exact ok.closed o
      · rw [table, update_apply] at h
        split at h
        · cases h
        · next different =>
          rw [update_of_ne different, same.named]
          exact ok.opened o node' h
    · refine ⟨_, inodeClose_last open_ one (Bool.eq_false_iff.mpr gone), ok.setInode_less
        ((ok.sound.setInode none other (by simp)).mono (fun _ => owner.of_setInode) (.inl rfl)
          (listed _)) ?_ (by simp), fun _ => owner.of_setInode, .of_device_eq _ _ rfl,
        fun _ => rfl⟩
      simp
      omega

/-! ## Entries of the root directory -/

/-- A file that was nobody's gets its entry. -/
theorem Consistent.addEntry (ok : s.Consistent refs) (one : refs rootDirSector = 1)
    (sound : s.Sound fun o => s.Owner o ∨ o = sector) (new : ¬ s.Owner sector) {k : Nat}
    (below : k < 16) (free : (s.rootEntry k).inUse = false) {name : CString}
    (short : name.bytes.length ≤ nameMax)
    (absent : ∀ j < 16, (s.rootEntry j).inUse = true → (s.rootEntry j).hasName name = false)
    (e : DirEntry) : (s.putEntry k (e.fill name sector)).Consistent refs ∧
      (∀ o, (s.putEntry k (e.fill name sector)).Owner o ↔ s.Owner o ∨ o = sector) ∧
      Keeps s.Owner (· = rootDirSector) s (s.putEntry k (e.fill name sector)) := by
  have root : s.RootOpen fun o => s.Owner o ∨ o = sector :=
    { ok.rootOpen one with sound, member := .inl (owner_root s) }
  have small : sector < 4294967296 := by
    have inside := (sound.inside sector (.inr rfl)).1
    have few := ok.sound.mounted.few
    omega
  have named : ∀ o, (s.putEntry k (e.fill name sector)).Named o ↔ s.Named o ∨ o = sector :=
    root.named_fill below free small
  have keeps := root.keeps_putEntry below (e.fill name sector)
  have owners : ∀ o, (s.putEntry k (e.fill name sector)).Owner o ↔ s.Owner o ∨ o = sector := by
    intro o
    unfold Owner
    rw [named]
    tauto
  refine ⟨⟨?_, ?_, ?_, ok.closed, fun o node open_ => ?_⟩, owners,
    keeps.mono (fun o h => .inl h) fun o h => h⟩
  · exact funext (fun o => propext (owners o)) ▸ root.sound_putEntry below _
  · rw [(keeps.inode (.inl (owner_root s))).inodeAt]
    exact ok.length
  · refine root.entries_putEntry below ok.entries fun _ => ?_
    have leads : (e.fill name sector).inodeSector = sector := DirEntry.fill_inodeSector e small
    refine ⟨DirEntry.fill_terminated e short, ?_, fun j inside used _ equal => ?_,
      fun j inside used _ name' has => ?_⟩
    · rw [leads]
      constructor
      · rintro rfl
        exact new (.inl rfl)
      · rintro rfl
        exact new (owner_root s)
    · exact new (.inr (.inr (.inl ⟨j, inside, used, equal.trans leads⟩)))
    · rw [DirEntry.fill_hasName short has, absent j inside used]
      exact Bool.false_ne_true
  · obtain ⟨count, allowed, removed⟩ := ok.opened o node open_
    refine ⟨count, allowed, fun gone => ?_⟩
    obtain ⟨unnamed, notRoot⟩ := removed gone
    refine ⟨fun h => ?_, notRoot⟩
    rcases (named o).mp h with h | rfl
    · exact unnamed h
    · exact new (.inr (.inr (.inr (by rw [show s.openInodes o = some node from open_]; simp))))

/-- The entry of a file that is open is erased. -/
theorem Consistent.eraseEntry (ok : s.Consistent refs) (one : refs rootDirSector = 1) {k : Nat}
    (below : k < 16) (used : (s.rootEntry k).inUse = true)
    (held : refs (s.rootEntry k).inodeSector ≠ 0) (e : DirEntry) :
    (s.putEntry k e.erase).Consistent refs ∧ (s.putEntry k e.erase).Owner = s.Owner ∧
      ¬ (s.putEntry k e.erase).Named (s.rootEntry k).inodeSector ∧
      Keeps s.Owner (· = rootDirSector) s (s.putEntry k e.erase) := by
  have root := ok.rootOpen one
  have named := root.named_erase below ok.entries used e
  have keeps := root.keeps_putEntry below e.erase
  have owners : (s.putEntry k e.erase).Owner = s.Owner := by
    funext o
    refine propext ⟨fun h => ?_, fun h => ?_⟩
    · rcases h with h | h | h | h
      · exact .inl h
      · exact .inr (.inl h)
      · exact .inr (.inr (.inl ((named o).mp h).1))
      · exact .inr (.inr (.inr h))
    · by_cases this : o = (s.rootEntry k).inodeSector
      · exact .inr (.inr (.inr (this ▸ mt (ok.closed _).mp held)))
      · rcases h with h | h | h | h
        · exact .inl h
        · exact .inr (.inl h)
        · exact .inr (.inr (.inl ((named o).mpr ⟨h, this⟩)))
        · exact .inr (.inr (.inr h))
  refine ⟨⟨owners.symm ▸ root.sound_putEntry below _, ?_, ?_, ok.closed, fun o node open_ => ?_⟩,
    owners, fun h => ((named _).mp h).2 rfl, keeps⟩
  · rw [(keeps.inode (owner_root s)).inodeAt]
    exact ok.length
  · refine root.entries_putEntry below ok.entries fun erased => ?_
    rw [DirEntry.erase_inUse] at erased
    cases erased
  · obtain ⟨count, allowed, removed⟩ := ok.opened o node open_
    exact ⟨count, allowed, fun gone => ⟨fun h => (removed gone).1 ((named o).mp h).1,
      (removed gone).2⟩⟩

/-- `inode_remove` of an open file that has no entry any more. -/
theorem Consistent.inodeRemove (ok : s.Consistent refs) (held : refs sector ≠ 0)
    (unnamed : ¬ s.Named sector) (notRoot : sector ≠ rootDirSector)
    (other : sector ≠ freeMapSector) :
    ∃ after, s.inodeRemove sector = .ok after ∧ after.device = s.device ∧
      after.Owner = s.Owner ∧ after.Consistent refs := by
  obtain ⟨node, open_, count, allowed, -, data, owner⟩ := ok.node held
  let marked : Inode := { node with removed := true }
  have executed : s.inodeRemove sector = .ok (s.setInode sector (some marked)) := by
    unfold FileSys.inodeRemove
    rw [inode_eq open_]
    rfl
  have table : ∀ o, (s.setInode sector (some marked)).openInodes o = none ↔
      s.openInodes o = none := by
    intro o
    rw [setInode_openInodes, update_apply]
    split
    · next same => simp [same, open_]
    · rfl
  have owners : (s.setInode sector (some marked)).Owner = s.Owner :=
    owner_eq (fun _ => Iff.rfl) table
  have sound := ok.sound.setInode (some marked) other
    (by rintro n ⟨⟩; exact ⟨owner, data⟩)
  refine ⟨_, executed, rfl, owners, owners.symm ▸ sound, ok.length, ok.entries.of_device_eq rfl,
    fun o => (table o).trans (ok.closed o), fun o node' h => ?_⟩
  rw [setInode_openInodes, update_apply] at h
  split at h
  · next same =>
    subst same
    cases Option.some.inj h
    exact ⟨count, allowed, fun _ => ⟨unnamed, notRoot⟩⟩
  · exact ok.opened o node' h

end
end FileSys
end Calendarizador.Source
