import Calendarizador.Invariant.FileCreate
import Calendarizador.Invariant.Format
import Mathlib.Data.List.Perm.Basic

/-!
# Runs of the file system

The pointers to an inode are the open files and, for the free map, its own file. Every call
on a volume returns and leaves it consistent.
-/
namespace Calendarizador.Source
open Foundation Function List

/-- The size of `filesys_create` or the position of `file_seek` is negative. -/
def FileEvent.Negative : FileEvent → Prop
  | .create _ initialSize => initialSize < 0
  | .seek _ newPos => newPos < 0
  | _ => False

namespace Volume
open FileSys

/-- The number of pointers to the inode. -/
def refs (v : Volume) (sector : Nat) : Nat :=
  (if sector = freeMapSector then 1 else 0) + (v.files.map File.inode).count sector

structure Ok (v : Volume) : Prop where
  consistent : v.fs.Consistent v.refs
  files : ∀ file ∈ v.files, file.inode ≠ freeMapSector ∧ file.inode ≠ rootDirSector ∧
    file.denyWrite = false

/-- The call writes to the data of the file. -/
def Writes (v : Volume) (sector : Nat) : FileEvent → Prop
  | .write i _ _ | .writeAt i _ _ _ => (v.files.map File.inode)[i]? = some sector
  | _ => False

/-- A call left the volume in order and spared the files it did not write to. -/
structure Leaves (v : Volume) (e : FileEvent) (after : Volume) : Prop where
  ok : after.Ok
  keeps : Keeps (fun o => v.fs.Owner o ∧ after.fs.Owner o) (fun o => Internal o ∨ v.Writes o e)
    v.fs after.fs

section
variable {v : Volume} {e : FileEvent} {i : Nat} {file : File}

theorem refs_file (open_ : file ∈ v.files) : v.refs file.inode ≠ 0 := by
  have some_ : 0 < (v.files.map File.inode).count file.inode :=
    count_pos_iff.mpr (mem_map_of_mem open_)
  unfold refs
  omega

theorem file_eq (below : i < v.files.length) : v.file i = .ok v.files[i] := by
  unfold Volume.file
  rw [List.getElem?_eq_getElem below]

variable (ok : v.Ok)
include ok

theorem Ok.refs_root : v.refs rootDirSector = 0 := by
  have none_ : rootDirSector ∉ v.files.map File.inode := by
    intro member
    obtain ⟨file, open_, same⟩ := mem_map.mp member
    exact (ok.files file open_).2.1 same
  rw [refs, count_eq_zero.mpr none_]
  rfl

/-- The open files have moved, or other files were written to. -/
theorem Ok.of_files {fs : FileSys} {files : List File} (consistent : fs.Consistent v.refs)
    (inodes : files.map File.inode = v.files.map File.inode)
    (denies : ∀ file ∈ files, file.denyWrite = false) : Ok ⟨fs, files⟩ := by
  have same : refs ⟨fs, files⟩ = v.refs := by
    funext sector
    unfold refs
    rw [inodes]
  refine ⟨same.symm ▸ consistent, fun file member => ?_⟩
  have listed : file.inode ∈ v.files.map File.inode := inodes ▸ mem_map_of_mem member
  obtain ⟨file', member', equal⟩ := mem_map.mp listed
  obtain ⟨notMap, notRoot, -⟩ := ok.files file' member'
  exact ⟨equal ▸ notMap, equal ▸ notRoot, denies file member⟩

/-- File `i` has moved to another position. -/
theorem Ok.set_pos {fs : FileSys} (consistent : fs.Consistent v.refs) (below : i < v.files.length)
    (pos : Nat) : Ok ⟨fs, v.files.set i { v.files[i] with pos }⟩ := by
  refine ok.of_files consistent ?_ fun file member => ?_
  · have inside : i < (v.files.map File.inode).length := by simpa using below
    have here : (v.files.map File.inode)[i] = v.files[i].inode := getElem_map _
    rw [map_set]
    rw [← here, set_getElem_self]
  · rcases mem_or_eq_of_mem_set member with member | rfl
    · exact (ok.files file member).2.2
    · exact (ok.files _ (getElem_mem below)).2.2

/-! ## One call -/

theorem Ok.create (name : CString) {initialSize : Int} (high : initialSize < 2147483648) :
    (∃ after, v.step (.create name initialSize) = .ok after ∧
      v.Leaves (.create name initialSize) after) ∨
    (initialSize < 0 ∧ v.step (.create name initialSize) = .error .assertion) := by
  rw [Volume.step]
  rcases ok.consistent.filesysCreate ok.refs_root name high with
    ⟨success, after, created, consistent, -, keeps, -⟩ | ⟨negative, stops⟩
  · refine .inl ⟨⟨after, v.files⟩, by rw [created]; rfl,
      ok.of_files consistent rfl fun file member => (ok.files file member).2.2, ?_⟩
    exact keeps.mono (fun o h => h.1) fun o h => .inl h
  · exact .inr ⟨negative, by rw [stops]; rfl⟩

theorem Ok.openFile (name : CString) :
    ∃ after, v.step (.openFile name) = .ok after ∧ v.Leaves (.openFile name) after := by
  rw [Volume.step]
  obtain ⟨file, after, opened, device, owners, cases_⟩ :=
    ok.consistent.filesysOpen ok.refs_root name
  refine ⟨⟨after, file.toList ++ v.files⟩, by rw [opened]; rfl, ?_, .of_device_eq _ _ device⟩
  rcases cases_ with ⟨sector, rfl, -, notMap, notRoot, consistent⟩ | ⟨rfl, -, consistent⟩
  · have more : refs ⟨after, ⟨sector, 0, false⟩ :: v.files⟩ =
        update v.refs sector (v.refs sector + 1) := by
      funext o
      unfold refs
      rw [update_apply, map_cons]
      by_cases same : o = sector
      · rw [if_pos same, same, count_cons_self, Nat.add_assoc]
      · rw [if_neg same, count_cons_of_ne (Ne.symm same)]
    refine ⟨?_, fun file member => ?_⟩
    · change after.Consistent (refs ⟨after, ⟨sector, 0, false⟩ :: v.files⟩)
      rw [more]
      exact consistent
    · rcases mem_cons.mp member with rfl | member
      · exact ⟨notMap, notRoot, rfl⟩
      · exact ok.files file member
  · exact ok.of_files consistent rfl fun file member => (ok.files file member).2.2

theorem Ok.remove (name : CString) :
    ∃ after, v.step (.remove name) = .ok after ∧ v.Leaves (.remove name) after := by
  rw [Volume.step]
  obtain ⟨success, after, removed, consistent, -, keeps⟩ :=
    ok.consistent.filesysRemove ok.refs_root name
  refine ⟨⟨after, v.files⟩, by rw [removed]; rfl,
    ok.of_files consistent rfl fun file member => (ok.files file member).2.2, ?_⟩
  exact keeps.mono (fun o h => h) fun o h => .inl h

/-- Writing to file `i`, at its position or at another offset. -/
theorem Ok.inodeWriteAt (below : i < v.files.length) (buffer : Nat → BitVec 8) (size offset : Nat) :
    ∃ n after, v.fs.inodeWriteAt v.files[i].inode buffer size offset = .ok (n, after) ∧
      after.Consistent v.refs ∧
      Keeps v.fs.Owner (fun o => (v.files.map File.inode)[i]? = some o) v.fs after := by
  have member := getElem_mem below
  obtain ⟨notMap, notRoot, -⟩ := ok.files _ member
  obtain ⟨n, after, written, consistent, -, keeps⟩ :=
    ok.consistent.inodeWriteAt (refs_file member) notMap notRoot buffer size offset
  refine ⟨n, after, written, consistent, keeps.mono (fun o h => h) ?_⟩
  rintro o rfl
  rw [List.getElem?_map, List.getElem?_eq_getElem below]
  rfl

theorem Ok.write (below : i < v.files.length) (buffer : Nat → BitVec 8) (size : Int) :
    ∃ after, v.step (.write i buffer size) = .ok after ∧
      v.Leaves (.write i buffer size) after := by
  obtain ⟨n, after, written, consistent, keeps⟩ :=
    ok.inodeWriteAt below buffer size.toNat v.files[i].pos
  refine ⟨⟨after, v.files.set i { v.files[i] with pos := v.files[i].pos + n }⟩, ?_,
    ok.set_pos consistent below _, keeps.mono (fun o h => h.1) fun o h => .inr h⟩
  unfold Volume.step FileSys.fileWrite
  dsimp only
  rw [file_eq below, ok_bind, written]
  rfl

theorem Ok.writeAt (below : i < v.files.length) (buffer : Nat → BitVec 8) (size : Int)
    (fileOfs : Nat) : ∃ after, v.step (.writeAt i buffer size fileOfs) = .ok after ∧
      v.Leaves (.writeAt i buffer size fileOfs) after := by
  obtain ⟨n, after, written, consistent, keeps⟩ :=
    ok.inodeWriteAt below buffer size.toNat fileOfs
  refine ⟨⟨after, v.files⟩, ?_,
    ok.of_files consistent rfl fun file member => (ok.files file member).2.2,
    keeps.mono (fun o h => h.1) fun o h => .inr h⟩
  unfold Volume.step FileSys.fileWriteAt
  dsimp only
  rw [file_eq below, ok_bind, written]
  rfl

theorem Ok.read (below : i < v.files.length) (buffer : Nat → BitVec 8) (size : Int) :
    ∃ after, v.step (.read i buffer size) = .ok after ∧
      v.Leaves (.read i buffer size) after := by
  obtain ⟨node, open_, -, -, -, data, owner⟩ :=
    ok.consistent.node (refs_file (getElem_mem below))
  have inside := (ok.consistent.sound.inside _ owner).2
  rw [← data] at inside
  have read := inodeReadAt_eq open_ inside.fits buffer size.toNat v.files[i].pos
  refine ⟨⟨v.fs, v.files.set i { v.files[i] with
    pos := v.files[i].pos + node.data.reach size.toNat v.files[i].pos }⟩, ?_,
    ok.set_pos ok.consistent below _, .of_device_eq _ _ rfl⟩
  unfold Volume.step FileSys.fileRead
  dsimp only
  rw [file_eq below, ok_bind, read]
  rfl

theorem Ok.seek (below : i < v.files.length) (newPos : Int) :
    (∃ after, v.step (.seek i newPos) = .ok after ∧ v.Leaves (.seek i newPos) after) ∨
    (newPos < 0 ∧ v.step (.seek i newPos) = .error .assertion) := by
  unfold Volume.step FileSys.fileSeek
  dsimp only
  rw [file_eq below, ok_bind]
  by_cases negative : newPos < 0
  · refine .inr ⟨negative, ?_⟩
    unfold ensure
    rw [if_neg (by omega)]
    rfl
  · refine .inl ⟨⟨v.fs, v.files.set i { v.files[i] with pos := newPos.toNat }⟩, ?_,
      ok.set_pos ok.consistent below _, .of_device_eq _ _ rfl⟩
    rw [ensure_bind (by omega)]
    rfl

theorem Ok.close (below : i < v.files.length) :
    ∃ after, v.step (.close i) = .ok after ∧ v.Leaves (.close i) after := by
  have member := getElem_mem below
  obtain ⟨notMap, notRoot, denies⟩ := ok.files _ member
  obtain ⟨after, closed, consistent, -, keeps, -⟩ :=
    ok.consistent.inodeClose (refs_file member) notMap
  have fewer : refs ⟨after, v.files.eraseIdx i⟩ =
      update v.refs v.files[i].inode (v.refs v.files[i].inode - 1) := by
    funext o
    have counts := ((getElem_cons_eraseIdx_perm below).map File.inode).count_eq o
    rw [map_cons] at counts
    unfold refs
    rw [update_apply, ← counts]
    by_cases same : o = v.files[i].inode
    · rw [if_pos same, ← same, ← counts, same, count_cons_self]
      rfl
    · rw [if_neg same, count_cons_of_ne (Ne.symm same)]
  refine ⟨⟨after, v.files.eraseIdx i⟩, ?_, ⟨fewer.symm ▸ consistent, fun file here => ?_⟩,
    keeps.mono (fun o h => h) fun o h => .inl (.inl h)⟩
  · unfold Volume.step FileSys.fileClose FileSys.fileAllowWrite
    dsimp only
    rw [file_eq below, ok_bind, denies]
    change ((v.fs.inodeClose (some v.files[i].inode)) >>= _) = _
    rw [closed]
    rfl
  · exact ok.files file (mem_of_mem_eraseIdx here)

/-- Every call with an open file returns, unless it is stopped by the assertion that its size
or position is not negative. -/
theorem Ok.step (permitted : v.Permitted e) : (∃ after, v.step e = .ok after ∧ v.Leaves e after) ∨
    (e.Negative ∧ v.step e = .error .assertion) := by
  cases e with
  | create name initialSize => exact ok.create name permitted.2
  | openFile name => exact .inl (ok.openFile name)
  | remove name => exact .inl (ok.remove name)
  | write i buffer size => exact .inl (ok.write permitted buffer size)
  | writeAt i buffer size fileOfs => exact .inl (ok.writeAt permitted buffer size fileOfs)
  | read i buffer size => exact .inl (ok.read permitted buffer size)
  | seek i newPos => exact ok.seek permitted newPos
  | close i => exact .inl (ok.close permitted)

end

/-! ## Runs -/

theorem ok_of_formatted {v : Volume} (formatted : v.Formatted) : v.Ok := by
  obtain ⟨none_, s, bits, file, small, done⟩ := formatted
  refine ⟨?_, fun file member => ?_⟩
  · have refs : v.refs = fun o => if o = freeMapSector then 1 else 0 := by
      funext o
      rw [Volume.refs, none_]
      rfl
    rw [refs]
    exact FileSys.formatted file small done
  · rw [none_] at member
    cases member

theorem reachable_ok {v : Volume} (h : ReachableWhile volumeSystem Volume.Permitted v) : v.Ok := by
  refine h.invariant (fun v => ok_of_formatted) fun v e after ok permitted taken => ?_
  rcases ok.step permitted with ⟨after', steps, leaves⟩ | ⟨-, stops⟩
  · cases taken.symm.trans steps
    exact leaves.ok
  · cases taken.symm.trans stops

end Volume
end Calendarizador.Source
