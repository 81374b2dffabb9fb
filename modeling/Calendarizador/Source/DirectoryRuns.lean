import Calendarizador.Foundation.SlotTable
import Calendarizador.Source.FileSystem

/-!
# Calls on one directory

A directory is created in a sector of its own, or is the root directory, and is opened. Then
names are added, removed, looked up and read, one call after the other.
-/
namespace Calendarizador.Source
open Foundation

/-- The file system with a directory that is open. -/
structure OpenDir where
  fs : FileSys
  dir : Dir

/-- `memory` is whether `malloc` finds room for an inode that is not open yet. -/
inductive DirEvent where
  | add (name : CString) (inodeSector : BitVec 32)
  | remove (name : CString) (memory : Bool)
  | lookup (name : CString) (memory : Bool)
  | readdir

namespace OpenDir

def step (v : OpenDir) : DirEvent → Except Halt OpenDir
  | .add name inodeSector =>
    (v.fs.dirAdd v.dir name inodeSector.toNat).map fun r => ⟨r.2, v.dir⟩
  | .remove name memory => (v.fs.dirRemoveIf v.dir name memory).map fun r => ⟨r.2, v.dir⟩
  | .lookup name memory => (v.fs.dirLookupIf v.dir name memory).map fun r => ⟨r.2, v.dir⟩
  | .readdir => (v.fs.dirReaddir v.dir).map fun r => ⟨v.fs, r.2⟩

/-- A directory for `entryCnt` entries, created and opened on a volume in any state that calls
lead to. -/
inductive Created (entryCnt : Nat) (v : OpenDir) : Prop
  | new (w : Volume) (reached : ReachableWhile volumeSystem Volume.Permitted w)
      (sector : Nat) (s₁ s₂ s₃ : FileSys)
      (allocated : w.fs.freeMapAllocate 1 = .ok (some sector, s₁))
      (created : s₁.dirCreate sector entryCnt = .ok (true, s₂))
      (opened : s₂.inodeOpen sector true = .ok (some sector, s₃))
      (directory : s₃.dirOpen (some sector) true = .ok (some v.dir, v.fs))
  | root (w : Volume) (reached : ReachableWhile volumeSystem Volume.Permitted w)
      (sixteen : entryCnt = 16) (opened : w.fs.dirOpenRoot = .ok (some v.dir, v.fs))

/-! ## What the entries say -/

/-- The inode of the directory. -/
def inode (v : OpenDir) : InodeDisk :=
  match v.fs.openInodes v.dir.inode with
  | some node => node.data
  | none => ⟨0, 0, 0⟩

/-- The number of entries that the data has room for. -/
def slots (v : OpenDir) : Nat := v.inode.length.toNat / dirEntrySize

def entry (v : OpenDir) (k : Nat) : DirEntry := v.fs.entryAt v.inode k

def slot (v : OpenDir) (k : Nat) : Option (CString × Nat) := (v.entry k).slot

/-- The number of entries that are in use. -/
def used (v : OpenDir) : Nat := SlotTable.used v.slots v.slot

/-- The sector that the directory gives for a name. -/
def map (v : OpenDir) : CString → Option Nat := SlotTable.toMap v.slots v.slot

end OpenDir

def directorySystem (entryCnt : Nat) : System OpenDir DirEvent Halt where
  initial := OpenDir.Created entryCnt
  step := OpenDir.step

end Calendarizador.Source
