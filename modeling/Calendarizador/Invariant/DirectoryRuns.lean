import Calendarizador.Invariant.DirectoryMap
import Calendarizador.Invariant.FileRuns
import Calendarizador.Source.DirectoryRuns

/-!
# Runs of calls on one directory

A directory that was created, or the root directory, is a table of as many names as it was
created for, and every call that returns leaves such a table.
-/
namespace Calendarizador.Source
open Foundation

namespace FileSys
variable {s : FileSys}

/-! ## Directories that were created -/

/-- The data of two files is at different places of the device. -/
theorem Sound.bytes_apart {live : Nat → Prop} (ok : s.Sound live) {a b : Nat} (member : live a)
    (member' : live b) (different : a ≠ b) {i j : Nat} (inside : i < (s.inodeAt a).length.toNat)
    (inside' : j < (s.inodeAt b).length.toNat) :
    sectorSize * (s.inodeAt a).start + i ≠ sectorSize * (s.inodeAt b).start + j := by
  have own {c k : Nat} (member : live c) (inside : k < (s.inodeAt c).length.toNat) :
      s.Owns c ((s.inodeAt c).start + k / sectorSize) := by
    obtain ⟨-, within⟩ := ok.inside c member
    have most := length_le_sectors within.low within.high
    right
    simp only [FileSys.extent, Span.mem_iff, Span.stop, sectorSize] at most ⊢
    omega
  intro same
  have sector : (s.inodeAt a).start + i / sectorSize = (s.inodeAt b).start + j / sectorSize := by
    simp only [sectorSize] at same ⊢
    omega
  exact different (ok.one a b _ member member' (own member inside) (sector ▸ own member' inside'))

theorem Sound.directoryOk {live : Nat → Prop} (ok : s.Sound live) {sector n : Nat}
    (member : live sector) (other : sector ≠ freeMapSector)
    (opened : s.DirOpen sector (s.inodeAt sector) n)
    (distinct : SlotTable.Distinct n (s.slotAt (s.inodeAt sector)))
    (counted : ∀ o node, s.openInodes o = some node → 1 ≤ node.openCnt) :
    s.DirectoryOk sector (s.inodeAt sector) (s.inodeAt freeMapSector) n := by
  have mounted := ok.mounted
  have few := mounted.few
  refine ⟨opened, distinct, counted, ⟨_, _, mounted.file, mounted.node, rfl, rfl⟩,
    mounted.inside.fits, ?_, fun i inside j inside' =>
      ok.bytes_apart member ok.free_map other inside inside'⟩
  rw [mounted.bits]
  omega

theorem Consistent.counted {refs : Nat → Nat} (ok : s.Consistent refs) {o : Nat} {node : Inode}
    (open_ : s.openInodes o = some node) : 1 ≤ node.openCnt := by
  have count := (ok.opened o node open_).1
  have held : refs o ≠ 0 := by
    intro none_
    rw [(ok.closed o).mpr none_] at open_
    cases open_
  omega

/-- The root directory once it is open. -/
theorem Consistent.rootDirectory {refs : Nat → Nat} (ok : s.Consistent refs)
    (one : refs rootDirSector = 1) : s.DirectoryOk rootDirSector (s.inodeAt rootDirSector)
      (s.inodeAt freeMapSector) 16 := by
  have opened := (ok.rootOpen one).dirOpen
  refine ok.sound.directoryOk (owner_root s) (by decide) opened ?_ fun o node => ok.counted
  intro j below k below' x y first second same
  obtain ⟨used, named, -⟩ := DirEntry.slot_eq_some.mp first
  obtain ⟨used', named', -⟩ := DirEntry.slot_eq_some.mp second
  refine ok.entries.named j below k below' used used' x.1 ?_ ?_
  · exact (DirEntry.hasName_iff_name (opened.terminated j below used) x.1).mpr named
  · rw [same]
    exact (DirEntry.hasName_iff_name (opened.terminated k below' used') y.1).mpr named'

/-- A directory in a sector that was taken for it. The number of its bytes has not wrapped. -/
theorem Consistent.newDirectory {made : FileSys} {refs : Nat → Nat} (ok : s.Consistent refs)
    {sector entryCnt : Nat} (spare : s.Spare sector) (small : entryCnt * dirEntrySize < 4294967296)
    (created : s.dirCreate sector entryCnt = .ok (true, made)) : made.inodeOpen sector true =
      .ok (some sector, made.setInode sector (some (made.reopened sector))) ∧
    (made.setInode sector (some (made.reopened sector))).DirectoryOk sector
      (made.inodeAt sector) (made.inodeAt freeMapSector) entryCnt := by
  have bytes : i32 (entryCnt * dirEntrySize : Nat) < 2147483648 := by
    simp only [i32]
    omega
  have low : 0 ≤ i32 (entryCnt * dirEntrySize : Nat) := by
    by_contra negative
    unfold dirCreate inodeCreate ensure at created
    rw [if_neg negative] at created
    cases created
  have size : i32 (entryCnt * dirEntrySize : Nat) = (dirEntrySize * entryCnt : Nat) := by
    simp only [i32, dirEntrySize] at low small ⊢
    omega
  rcases ok.sound.inodeCreate spare.inside spare.marked spare.free low bytes with
    ⟨made', created', sound, keeps, table, length, zeros, -⟩ | ⟨refused, -⟩
  swap
  · cases created.symm.trans refused
  cases created.symm.trans created'
  have below : sector < made.device.size := by
    rw [keeps.size]
    exact spare.inside
  have closed : made.openInodes sector = none := by
    rw [table]
    by_contra open_
    exact spare.not_owner (.inr (.inr (.inr open_)))
  have other : sector ≠ freeMapSector := by
    rintro rfl
    exact spare.not_owner (.inl rfl)
  have sound' := sound.reopened other (.inr rfl)
  have free : ∀ k < entryCnt, (made.entryAt (made.inodeAt sector) k).inUse = false := by
    intro k inside
    have zero := zeros (dirEntrySize * k + 19) (by
      rw [size]
      simp only [dirEntrySize]
      omega)
    unfold DirEntry.inUse FileSys.entryAt
    rw [show made.device.data _ = 0 from zero]
    rfl
  refine ⟨inodeOpen_eq below, sound'.directoryOk (.inr rfl) other ?_ ?_ ?_⟩
  · refine ⟨⟨_, Function.update_self .., ?_, ?_⟩, (sound'.inside _ (.inr rfl)).2.fits, ?_, ?_⟩
    · exact (reopened_fresh closed).2
    · rw [reopened, closed]
    · exact length.trans size
    · intro k inside used
      exact absurd used (Bool.eq_false_iff.mp (free k inside))
  · intro j inside k _ x y filled
    have empty := DirEntry.slot_eq_none.mpr (free j inside)
    cases empty.symm.trans filled
  · intro o node open_
    rw [setInode_openInodes, Function.update_apply] at open_
    split at open_
    · cases open_
      exact (reopened_fresh closed).1.ge
    · rw [table] at open_
      exact ok.counted open_

end FileSys

namespace OpenDir
open FileSys

/-- The directory is in order, and reading it has stopped at an entry or behind the last. -/
structure Ok (v : OpenDir) (d fm : InodeDisk) (n : Nat) : Prop where
  directory : v.fs.DirectoryOk v.dir.inode d fm n
  pos : ∃ k ≤ n, v.dir.pos = dirEntrySize * k

section
variable {v after : OpenDir} {d fm : InodeDisk} {n : Nat}

theorem Ok.inode_eq (ok : v.Ok d fm n) : v.inode = d := by
  obtain ⟨node, open_, data, -⟩ := ok.directory.opened.node
  rw [OpenDir.inode, open_]
  exact data

/-- One call. -/
theorem Ok.step (ok : v.Ok d fm n) {e : DirEvent} (taken : v.step e = .ok after) :
    after.Ok d fm n := by
  have directory := ok.directory
  cases e with
  | add name inodeSector =>
    obtain ⟨⟨added, fs⟩, done, rfl⟩ := map_eq_ok.mp taken
    obtain ⟨takes, rejects⟩ := directory.dirAdd name inodeSector
    by_cases refuses : v.fs.Refuses d n name
    · cases (rejects refuses).symm.trans done
      exact ok
    · obtain ⟨fs', done', ok', -⟩ := takes refuses
      cases done'.symm.trans done
      exact ⟨ok', ok.pos⟩
  | remove name memory =>
    obtain ⟨⟨removed, fs⟩, done, rfl⟩ := map_eq_ok.mp taken
    cases maps : SlotTable.toMap n (v.fs.slotAt d) name with
    | none =>
      have cannot := directory.dirRemoveIf_false name memory fun target found => by
        cases maps.symm.trans found
      cases cannot.symm.trans done
      exact ok
    | some target =>
      rcases v.fs.opens_cases target memory with opens | ⟨closed, rfl⟩ | ⟨closed, rfl, off⟩
      · exact ⟨((directory.dirRemoveIf_opens name maps opens).1 removed fs done).2.1, ok.pos⟩
      · have cannot := directory.dirRemoveIf_false name false fun target' found => by
          cases maps.symm.trans found
          exact ⟨closed, rfl⟩
        cases cannot.symm.trans done
        exact ok
      · obtain ⟨halt, stops⟩ := directory.dirRemoveIf_off_device name maps closed off
        cases stops.symm.trans done
  | lookup name memory =>
    obtain ⟨⟨found, fs⟩, done, rfl⟩ := map_eq_ok.mp taken
    obtain ⟨absent, present⟩ := directory.dirLookupIf name memory
    cases maps : SlotTable.toMap n (v.fs.slotAt d) name with
    | none =>
      cases (absent maps).symm.trans done
      exact ok
    | some target =>
      rw [present target maps] at done
      rcases v.fs.opens_cases target memory with opens | ⟨closed, rfl⟩ | ⟨closed, rfl, off⟩
      · cases (inodeOpen_of_opens opens).symm.trans done
        exact ⟨directory.frame directory.stays_reopened fun _ _ => rfl, ok.pos⟩
      · cases (inodeOpen_no_memory closed).symm.trans done
        exact ok
      · obtain ⟨halt, stops⟩ := inodeOpen_off_device closed off
        cases stops.symm.trans done
  | readdir =>
    obtain ⟨⟨name, dir⟩, done, rfl⟩ := map_eq_ok.mp taken
    obtain ⟨k, within, position⟩ := ok.pos
    have here : v.dir = ⟨v.dir.inode, dirEntrySize * k⟩ := by rw [← position]
    rw [here] at done
    rcases directory.dirReaddir within with ⟨m, x, read, below, -⟩ | ⟨read, -⟩
    · cases read.symm.trans done
      exact ⟨directory, k + m + 1, below, rfl⟩
    · cases read.symm.trans done
      exact ⟨directory, n, le_refl n, rfl⟩

/-- A directory that has just been created and opened. -/
theorem Created.ok {entryCnt : Nat} (start : v.Created entryCnt)
    (small : entryCnt * dirEntrySize < 4294967296) : ∃ d fm, v.Ok d fm entryCnt := by
  obtain ⟨fs, dir⟩ := v
  cases start with
  | new w reached sector s₁ s₂ s₃ allocated created opened directory =>
    have ok := (Volume.reachable_ok reached).consistent
    rcases ok.takeSector with ⟨n, s₁', allocated', -, -, ok₁, spare⟩ | ⟨failed, -⟩
    swap
    · cases allocated.symm.trans failed
    cases allocated.symm.trans allocated'
    obtain ⟨opened', made⟩ := ok₁.newDirectory spare small created
    cases opened.symm.trans opened'
    cases directory
    exact ⟨_, _, made, 0, Nat.zero_le _, rfl⟩
  | root w reached sixteen opened =>
    subst sixteen
    have ok := Volume.reachable_ok reached
    obtain ⟨s₁, opened', -, -, ok₁⟩ := ok.consistent.dirOpenRoot ok.refs_root
    cases opened.symm.trans opened'
    exact ⟨_, _, ok₁.rootDirectory (Function.update_self ..), 0, Nat.zero_le _, rfl⟩

theorem reachable_ok {entryCnt : Nat} (small : entryCnt * dirEntrySize < 4294967296)
    (h : Reachable (directorySystem entryCnt) v) : ∃ d fm, v.Ok d fm entryCnt := by
  refine Reachable.invariant (P := fun v => ∃ d fm, v.Ok d fm entryCnt)
    (fun v start => Created.ok start small) ?_ h
  rintro v e after - ⟨d, fm, ok⟩ taken
  exact ⟨d, fm, ok.step taken⟩

end

end OpenDir
end Calendarizador.Source
