import Calendarizador.Source.Directory

/-!
# The file system

`filesys/filesys.c`, and the system in which files are created, opened, written, removed and
closed by name, one call after the other.
-/
namespace Calendarizador.Source
open Foundation

namespace FileSys

def doFormat (s : FileSys) : Except Halt FileSys := do
  let s ← s.freeMapCreate
  match ← s.dirCreate rootDirSector 16 with
  | (false, _) => .error (.panic "root directory creation failed")
  | (true, s) => s.freeMapClose

/-- `filesys_init`; `bits` is what the memory of the bitmap held before. -/
def filesysInit (s : FileSys) (format : Bool) (bits : Nat → BitVec 32) : Except Halt FileSys := do
  let s ← { s with openInodes := fun _ => none }.freeMapInit bits
  let s ← if format then s.doFormat else .ok s
  s.freeMapOpen

def filesysDone (s : FileSys) : Except Halt FileSys := s.freeMapClose

/-- `filesys_done` and, after a reboot, `filesys_init (false)`. -/
def remount (s : FileSys) (bits : Nat → BitVec 32) : Except Halt FileSys := do
  let s ← s.filesysDone
  s.filesysInit false bits

/-- `filesys_create` behind `dir_open_root`: the sector of the inode, 0 if there is none. -/
def createIn (s : FileSys) (dir : Dir) (name : CString) (initialSize : Int) :
    Except Halt (Bool × Nat × FileSys) := do
  match ← s.freeMapAllocate 1 with
  | (none, s) => .ok (false, 0, s)
  | (some inodeSector, s) =>
    match ← s.inodeCreate inodeSector initialSize with
    | (false, s) => .ok (false, inodeSector, s)
    | (true, s) =>
      let (added, s) ← s.dirAdd dir name inodeSector
      .ok (added, inodeSector, s)

def filesysCreate (s : FileSys) (name : CString) (initialSize : Int) :
    Except Halt (Bool × FileSys) := do
  match ← s.dirOpenRoot with
  | (none, s) => .ok (false, s)
  | (some dir, s) =>
    let (success, inodeSector, s) ← s.createIn dir name initialSize
    let s ← if ¬ success ∧ inodeSector ≠ 0 then s.freeMapRelease inodeSector 1 else .ok s
    let s ← s.dirClose (some dir)
    .ok (success, s)

def filesysOpen (s : FileSys) (name : CString) : Except Halt (Option File × FileSys) := do
  match ← s.dirOpenRoot with
  | (none, s) => s.fileOpen none true
  | (some dir, s) =>
    let (inode, s) ← s.dirLookup dir name
    let s ← s.dirClose (some dir)
    s.fileOpen inode true

def filesysRemove (s : FileSys) (name : CString) : Except Halt (Bool × FileSys) := do
  match ← s.dirOpenRoot with
  | (none, s) => .ok (false, s)
  | (some dir, s) =>
    let (success, s) ← s.dirRemove dir name
    let s ← s.dirClose (some dir)
    .ok (success, s)

/-! ## What is on the device -/

/-- The inode in the sector. -/
def inodeAt (s : FileSys) (sector : Nat) : InodeDisk :=
  .ofBytes fun i => s.device.data (sectorSize * sector + i)

/-- The sectors of the data of the inode. -/
def extent (s : FileSys) (sector : Nat) : Span :=
  ⟨(s.inodeAt sector).start, bytesToSectors (s.inodeAt sector).length⟩

/-- Byte `i` of the data of the inode. -/
def content (s : FileSys) (sector i : Nat) : BitVec 8 :=
  s.device.data (sectorSize * (s.inodeAt sector).start + i)

/-- The file whose inode is in `sector` takes up the sector `n`. -/
def Owns (s : FileSys) (sector n : Nat) : Prop := n = sector ∨ n ∈ s.extent sector

/-- Entry `k` of the root directory. -/
def rootEntry (s : FileSys) (k : Nat) : DirEntry :=
  fun i => s.content rootDirSector (dirEntrySize * k + i)

/-- The root directory names the file. -/
def Finds (s : FileSys) (name : CString) (sector : Nat) : Prop :=
  ∃ k < 16, (s.rootEntry k).inUse = true ∧ (s.rootEntry k).hasName name = true ∧
    (s.rootEntry k).inodeSector = sector

instance (s : FileSys) (name : CString) (sector : Nat) : Decidable (s.Finds name sector) :=
  inferInstanceAs (Decidable (∃ k < 16, (s.rootEntry k).inUse = true ∧
    (s.rootEntry k).hasName name = true ∧ (s.rootEntry k).inodeSector = sector))

/-- An entry of the root directory leads to the inode. -/
def Named (s : FileSys) (sector : Nat) : Prop :=
  ∃ k < 16, (s.rootEntry k).inUse = true ∧ (s.rootEntry k).inodeSector = sector

/-- The free map, the root directory, and every file that is named or still open. -/
def Owner (s : FileSys) (sector : Nat) : Prop :=
  sector = freeMapSector ∨ sector = rootDirSector ∨ s.Named sector ∨ s.openInodes sector ≠ none

end FileSys

/-! ## Runs -/

/-- The file system with the files that are open. -/
structure Volume where
  fs : FileSys
  files : List File

/-- `i` is the place of the file among those that are open. A size that is not positive counts
as zero: `inode_read_at` and `inode_write_at` do not enter their loops then. -/
inductive FileEvent where
  | create (name : CString) (initialSize : Int)
  | openFile (name : CString)
  | remove (name : CString)
  | write (i : Nat) (buffer : Nat → BitVec 8) (size : Int)
  | writeAt (i : Nat) (buffer : Nat → BitVec 8) (size : Int) (fileOfs : Nat)
  | read (i : Nat) (buffer : Nat → BitVec 8) (size : Int)
  | seek (i : Nat) (newPos : Int)
  | close (i : Nat)

namespace Volume

/-- The open file `i`. -/
def file (v : Volume) (i : Nat) : Except Halt File :=
  match v.files[i]? with
  | some file => .ok file
  | none => .error .nullPointer

def step (v : Volume) : FileEvent → Except Halt Volume
  | .create name initialSize => (v.fs.filesysCreate name initialSize).map fun r => ⟨r.2, v.files⟩
  | .openFile name => (v.fs.filesysOpen name).map fun r => ⟨r.2, r.1.toList ++ v.files⟩
  | .remove name => (v.fs.filesysRemove name).map fun r => ⟨r.2, v.files⟩
  | .write i buffer size => do
    let file ← v.file i
    let (_, file, fs) ← v.fs.fileWrite file buffer size.toNat
    .ok ⟨fs, v.files.set i file⟩
  | .writeAt i buffer size fileOfs => do
    let file ← v.file i
    let (_, fs) ← v.fs.fileWriteAt file buffer size.toNat fileOfs
    .ok ⟨fs, v.files⟩
  | .read i buffer size => do
    let file ← v.file i
    let (_, _, file) ← v.fs.fileRead file buffer size.toNat
    .ok ⟨v.fs, v.files.set i file⟩
  | .seek i newPos => do
    let file ← v.file i
    let file ← FileSys.fileSeek file newPos
    .ok ⟨v.fs, v.files.set i file⟩
  | .close i => do
    let file ← v.file i
    let fs ← v.fs.fileClose (some file)
    .ok ⟨fs, v.files.eraseIdx i⟩

/-- A call is made with an open file and an `off_t`. -/
def Permitted (v : Volume) : FileEvent → Prop
  | .create _ initialSize => -2147483648 ≤ initialSize ∧ initialSize < 2147483648
  | .openFile _ | .remove _ => True
  | .write i _ _ | .writeAt i _ _ _ | .read i _ _ | .seek i _ | .close i => i < v.files.length

instance (v : Volume) : (e : FileEvent) → Decidable (v.Permitted e)
  | .create _ _ => inferInstanceAs (Decidable (_ ∧ _))
  | .openFile _ | .remove _ => inferInstanceAs (Decidable True)
  | .write i _ _ | .writeAt i _ _ _ | .read i _ _ | .seek i _ | .close i =>
    inferInstanceAs (Decidable (i < v.files.length))

/-- A file system that has just been formatted, on a device of any size and contents. -/
def Formatted (v : Volume) : Prop :=
  v.files = [] ∧ ∃ (s : FileSys) (bits : Nat → BitVec 32), s.freeMapFile = none ∧
    s.device.size < 4294967296 ∧ s.filesysInit true bits = .ok v.fs

end Volume

def volumeSystem : System Volume FileEvent Halt where
  initial := Volume.Formatted
  step := Volume.step

end Calendarizador.Source
