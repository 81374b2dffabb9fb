import Calendarizador.Invariant.Volume

/-!
# The calls of `filesys.c`

Each call returns, leaves a consistent file system, and writes to no data of a file that was
there before and is still there, other than the file it is told to write.
-/
namespace Calendarizador.Source
open Foundation Function

namespace FileSys
variable {s middle after : FileSys} {refs : Nat → Nat} {sector : Nat}

/-! ## The root directory is opened and closed -/

theorem Consistent.dirOpenRoot_eq (ok : s.Consistent refs) :
    s.dirOpenRoot = .ok (some ⟨rootDirSector, 0⟩,
      s.setInode rootDirSector (some (s.reopened rootDirSector))) := by
  unfold FileSys.dirOpenRoot
  rw [inodeOpen_eq (ok.sound.inside _ (owner_root s)).1]
  rfl

theorem Consistent.dirClose_eq (ok : s.Consistent refs) (one : refs rootDirSector = 1) :
    s.dirClose (some ⟨rootDirSector, 0⟩) = .ok (s.setInode rootDirSector none) :=
  inodeClose_last (ok.rootOpen one).node rfl rfl

theorem Consistent.dirOpenRoot (ok : s.Consistent refs) (none_ : refs rootDirSector = 0) :
    ∃ after, s.dirOpenRoot = .ok (some ⟨rootDirSector, 0⟩, after) ∧ after.device = s.device ∧
      after.Owner = s.Owner ∧ after.Consistent (update refs rootDirSector 1) := by
  obtain ⟨after, opened, device, owners, consistent⟩ := ok.inodeOpen (owner_root s) (by decide)
  rw [none_] at consistent
  cases (inodeOpen_eq (ok.sound.inside _ (owner_root s)).1).symm.trans opened
  exact ⟨_, ok.dirOpenRoot_eq, device, owners, consistent⟩

theorem Consistent.dirClose (ok : s.Consistent (update refs rootDirSector 1))
    (none_ : refs rootDirSector = 0) :
    ∃ after, s.dirClose (some ⟨rootDirSector, 0⟩) = .ok after ∧ after.device = s.device ∧
      after.Owner = s.Owner ∧ after.Consistent refs := by
  have owners : (s.setInode rootDirSector none).Owner = s.Owner := by
    funext o
    refine propext ⟨(owner_root s).of_setInode, fun h => ?_⟩
    by_cases this : o = rootDirSector
    · exact .inr (.inl this)
    · rcases h with h | h | h | h
      · exact .inl h
      · exact .inr (.inl h)
      · exact .inr (.inr (.inl h))
      · refine .inr (.inr (.inr ?_))
        rwa [setInode_openInodes, update_of_ne this]
  have sound := ok.sound.setInode none (show rootDirSector ≠ freeMapSector by decide)
    (by simp)
  have counts : update (update refs rootDirSector 1) rootDirSector
      (update refs rootDirSector 1 rootDirSector - 1) = refs := by
    rw [update_idem, update_self, Nat.sub_self, ← none_,
      update_eq_self]
  have consistent := ok.setInode_less (owners.symm ▸ sound)
    (iff_of_true rfl (.inl (update_self ..))) (by simp)
  rw [counts] at consistent
  exact ⟨_, ok.dirClose_eq (update_self ..), rfl, owners, consistent⟩

/-! ## `filesys_open` -/

/-- The file of an entry is an owner apart from the free map and the directory. -/
theorem Consistent.of_entry (ok : s.Consistent refs) {k : Nat} (below : k < 16)
    (used : (s.rootEntry k).inUse = true) : s.Owner (s.rootEntry k).inodeSector ∧
      (s.rootEntry k).inodeSector ≠ freeMapSector ∧ (s.rootEntry k).inodeSector ≠ rootDirSector :=
  ⟨.inr (.inr (.inl ⟨k, below, used, rfl⟩)), ok.entries.sector k below used⟩

/-- The file with the name is opened, if there is one. -/
theorem Consistent.filesysOpen (ok : s.Consistent refs) (none_ : refs rootDirSector = 0)
    (name : CString) :
    ∃ file after, s.filesysOpen name = .ok (file, after) ∧ after.device = s.device ∧
      after.Owner = s.Owner ∧
      ((∃ sector, file = some ⟨sector, 0, false⟩ ∧ s.Finds name sector ∧
          sector ≠ freeMapSector ∧ sector ≠ rootDirSector ∧
          after.Consistent (update refs sector (refs sector + 1))) ∨
        (file = none ∧ (∀ sector, ¬ s.Finds name sector) ∧ after.Consistent refs)) := by
  obtain ⟨s₁, opened, device₁, owners₁, ok₁⟩ := ok.dirOpenRoot none_
  have same : SameRoot s s₁ := .of_device_eq device₁
  unfold FileSys.filesysOpen dirLookup dirLookupIf
  rw [opened, ok_bind]
  dsimp only
  rcases (ok₁.rootOpen (update_self ..)).lookup name with
    ⟨j, e, found, below, entry, used, named⟩ | ⟨absent, others⟩
  · obtain ⟨owner, notMap, notRoot⟩ := ok₁.of_entry below used
    obtain ⟨s₂, reopened, device₂, owners₂, ok₂⟩ := ok₁.inodeOpen owner notMap
    rw [update_of_ne notRoot, update_comm notRoot.symm] at ok₂
    obtain ⟨s₃, closed, device₃, owners₃, ok₃⟩ :=
      ok₂.dirClose (by rwa [update_of_ne notRoot.symm])
    refine ⟨some ⟨(s₁.rootEntry j).inodeSector, 0, false⟩, s₃, ?_,
      device₃.trans (device₂.trans device₁), owners₃.trans (owners₂.trans owners₁),
      .inl ⟨_, rfl, ⟨j, below, ?_⟩, notMap, notRoot, ok₃⟩⟩
    · rw [found, ok_bind]
      dsimp only
      rw [DirEntry.inodeSector_congr entry, reopened, ok_bind]
      rw [closed]
      rfl
    · have back := same j below
      exact ⟨DirEntry.inUse_congr back ▸ used,
        DirEntry.hasName_congr back (ok₁.entries.terminated j below used) name ▸ named,
        (DirEntry.inodeSector_congr back).symm⟩
  · obtain ⟨s₂, closed, device₂, owners₂, ok₂⟩ := ok₁.dirClose none_
    refine ⟨none, s₂, ?_, device₂.trans device₁, owners₂.trans owners₁, .inr ⟨rfl, ?_, ok₂⟩⟩
    · rw [absent]
      change (s₁.dirClose (some ⟨rootDirSector, 0⟩) >>= _) = _
      rw [closed]
      rfl
    · rintro sector ⟨j, below, used, named, -⟩
      have back := same j below
      have absent := others j below (DirEntry.inUse_congr back ▸ used)
      rw [DirEntry.hasName_congr back (ok₁.entries.terminated j below
        (DirEntry.inUse_congr back ▸ used)), named] at absent
      cases absent

/-! ## `filesys_remove` -/

theorem Consistent.filesysRemove (ok : s.Consistent refs) (none_ : refs rootDirSector = 0)
    (name : CString) :
    ∃ success after, s.filesysRemove name = .ok (success, after) ∧ after.Consistent refs ∧
      (∀ o, after.Owner o → s.Owner o) ∧
      Keeps (fun o => s.Owner o ∧ after.Owner o) Internal s after := by
  obtain ⟨s₁, opened, device₁, owners₁, ok₁⟩ := ok.dirOpenRoot none_
  have root := ok₁.rootOpen (update_self ..)
  unfold FileSys.filesysRemove dirRemove dirRemoveIf
  rw [opened, ok_bind]
  dsimp only
  rcases root.lookup name with ⟨j, e, found, below, entry, used, -⟩ | ⟨absent, -⟩
  · obtain ⟨owner, notMap, notRoot⟩ := ok₁.of_entry below used
    obtain ⟨s₂, reopened, device₂, owners₂, ok₂⟩ := ok₁.inodeOpen owner notMap
    rw [update_of_ne notRoot, update_comm notRoot.symm] at ok₂
    have same : SameRoot s₁ s₂ := .of_device_eq device₂
    have used₂ : (s₂.rootEntry j).inUse = true := by
      rw [DirEntry.inUse_congr (same j below), used]
    have leads : (s₂.rootEntry j).inodeSector = (s₁.rootEntry j).inodeSector :=
      DirEntry.inodeSector_congr (same j below)
    have same' : e.inodeSector = (s₁.rootEntry j).inodeSector := DirEntry.inodeSector_congr entry
    generalize (s₁.rootEntry j).inodeSector = target at *
    have root₂ := ok₂.rootOpen (update_self ..)
    have held : update (update refs target (refs target + 1)) rootDirSector 1
        target ≠ 0 := by
      rw [update_of_ne notRoot, update_self]
      exact Nat.succ_ne_zero _
    obtain ⟨ok₃, owners₃, unnamed, keeps₃⟩ :=
      ok₂.eraseEntry (update_self ..) below used₂ (leads.symm ▸ held) e
    rw [leads] at unnamed
    obtain ⟨s₄, removed, device₄, owners₄, ok₄⟩ := ok₃.inodeRemove held unnamed notRoot notMap
    obtain ⟨s₅, closed, ok₅, fewer, keeps₅, -⟩ := ok₄.inodeClose held notMap
    have counts : update (update (update refs target (refs target + 1))
        rootDirSector 1) target (update (update refs target (refs target + 1))
        rootDirSector 1 target - 1) = update refs rootDirSector 1 := by
      rw [update_of_ne notRoot, update_self, Nat.add_sub_cancel,
        update_comm notRoot.symm, update_idem, update_eq_self]
    rw [counts] at ok₅
    obtain ⟨s₆, done, device₆, owners₆, ok₆⟩ := ok₅.dirClose none_
    have written := inodeWriteAt_eq root₂.node rfl root₂.inside.fits e.erase dirEntrySize
      (dirEntrySize * j)
    rw [root₂.dirOpen.reach below] at written
    have before : (s₂.putEntry j e.erase).Owner = s.Owner :=
      owners₃.trans (owners₂.trans owners₁)
    refine ⟨true, s₆, ?_, ok₆, fun o h => ?_, ?_⟩
    · rw [found, ok_bind]
      dsimp only
      rw [same', reopened, ok_bind]
      dsimp only
      rw [written, ok_bind]
      rw [if_neg (not_not.mpr rfl)]
      change (((s₂.putEntry j e.erase).inodeRemove target >>= _) >>= _) = _
      rw [removed, ok_bind, closed, ok_bind, ok_bind]
      rw [done]
      rfl
    · exact before ▸ owners₄ ▸ fewer o (owners₆ ▸ h)
    · have first : Keeps (fun o => s.Owner o ∧ s₆.Owner o) Internal s₂ (s₂.putEntry j e.erase) :=
        keeps₃.mono (fun o h => (owners₂.trans owners₁).symm ▸ h.1) fun o h => .inr h
      have second : Keeps (fun o => s.Owner o ∧ s₆.Owner o) Internal s₄ s₅ :=
        keeps₅.mono (fun o h => ⟨(owners₄.trans before).symm ▸ h.1, owners₆ ▸ h.2⟩)
          fun o h => .inl h
      exact (first.congr (device₂.trans device₁).symm device₄).trans (second.congr rfl device₆)
  · obtain ⟨s₂, closed, device₂, owners₂, ok₂⟩ := ok₁.dirClose none_
    refine ⟨false, s₂, ?_, ok₂, fun o h => owners₁ ▸ owners₂ ▸ h,
      .of_device_eq _ _ (device₂.trans device₁)⟩
    rw [absent]
    change (s₁.dirClose (some ⟨rootDirSector, 0⟩) >>= _) = _
    rw [closed]
    rfl

/-! ## Writing to a file -/

/-- `inode_write_at` writes to the data of the file and nowhere else. -/
theorem Consistent.inodeWriteAt (ok : s.Consistent refs) (held : refs sector ≠ 0)
    (notMap : sector ≠ freeMapSector) (notRoot : sector ≠ rootDirSector) (buffer : Nat → BitVec 8)
    (size offset : Nat) : ∃ n after, s.inodeWriteAt sector buffer size offset = .ok (n, after) ∧
      after.Consistent refs ∧ after.Owner = s.Owner ∧ Keeps s.Owner (· = sector) s after := by
  obtain ⟨node, open_, -, allowed, -, data, owner⟩ := ok.node held
  have inside := (ok.sound.inside sector owner).2
  rw [← data] at inside
  have keeps : Keeps s.Owner (· = sector) s (s.put (sectorSize * node.data.start + offset)
      (node.data.reach size offset) buffer) := by
    refine ⟨rfl, fun o n member owns spared => put_data_same _ _ _ inside fun here => ?_⟩
    rw [data] at here
    obtain rfl := ok.sound.one o sector n member owner owns (.inr here)
    rcases spared with rfl | other
    · exact ok.sound.self _ member here
    · exact other rfl
  have sound : (s.put _ _ _).Sound s.Owner :=
    ok.sound.setDevice rfl (fun o member => keeps.inode member) fun n here =>
      keeps.same freeMapSector n (.inl rfl) (.inr here) (.inr notMap.symm)
  obtain ⟨owners, consistent⟩ := ok.of_keeps keeps notRoot.symm rfl sound
  exact ⟨_, _, inodeWriteAt_eq open_ allowed inside.fits buffer size offset, consistent, owners,
    keeps⟩

end FileSys
end Calendarizador.Source
