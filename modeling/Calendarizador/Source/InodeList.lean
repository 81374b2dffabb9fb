import Calendarizador.Source.Directory

/-!
# The list of open inodes

`open_inodes` of `inode.c` as a list of pointers to structures in memory, and the files and
directories that point to them. An inode here is the address of its `struct inode`, unlike in
the file system, which finds an open inode by its sector.
-/
namespace Calendarizador.Source
open Foundation

/-- `struct inode` without its list element. -/
structure InodeCell where
  sector : Nat
  inode : Inode

/-- The list with the memory its elements are in, and what `free_map_release` works on. -/
structure InodeList where
  openInodes : List Nat
  cell : Nat → InodeCell
  device : Block
  freeMap : Bitmap
  freeMapFile : Option File

namespace InodeList

@[simps]
def setInode (t : InodeList) (a : Nat) (inode : Inode) : InodeList :=
  { t with cell := Function.update t.cell a ⟨(t.cell a).sector, inode⟩ }

/-- `list_push_front` of a new structure. -/
@[simps]
def push (t : InodeList) (a : Nat) (cell : InodeCell) : InodeList :=
  { t with openInodes := a :: t.openInodes, cell := Function.update t.cell a cell }

/-- The loop of `inode_open`: the first structure with the sector. -/
def find (t : InodeList) (sector : Nat) : Option Nat :=
  t.openInodes.find? fun a => (t.cell a).sector = sector

/-- The file system with the open inodes by their sectors. -/
def fileSys (t : InodeList) : FileSys where
  device := t.device
  openInodes sector := (t.find sector).map fun a => (t.cell a).inode
  freeMap := t.freeMap
  freeMapFile := t.freeMapFile

/-- `inode_reopen` of an inode that is not `NULL`. -/
def inodeReopen (t : InodeList) (a : Nat) : InodeList :=
  t.setInode a { (t.cell a).inode with openCnt := i32 ((t.cell a).inode.openCnt + 1) }

/-- `inode_open`; `memory` is what `malloc` returns. -/
def inodeOpen (t : InodeList) (sector : Nat) (memory : Option Nat) :
    Except Halt (Option Nat × InodeList) :=
  match t.find sector with
  | some a => .ok (some a, t.inodeReopen a)
  | none =>
    match memory with
    | none => .ok (none, t)
    | some a => do
      let buffer ← t.device.read sector
      .ok (some a, t.push a ⟨sector, ⟨1, false, 0, .ofBytes buffer⟩⟩)

/-- `inode_close` -/
def inodeClose (t : InodeList) : Option Nat → Except Halt InodeList
  | none => .ok t
  | some a => do
    let node := (t.cell a).inode
    let openCnt := i32 (node.openCnt - 1)
    if openCnt = 0 then
      let t := { t with openInodes := t.openInodes.erase a }
      if node.removed then do
        let s ← t.fileSys.freeMapRelease (t.cell a).sector 1
        let s ← s.freeMapRelease node.data.start (bytesToSectors node.data.length)
        .ok { t with device := s.device, freeMap := s.freeMap }
      else .ok t
    else .ok (t.setInode a { node with openCnt })

def inodeRemove (t : InodeList) (a : Nat) : InodeList :=
  t.setInode a { (t.cell a).inode with removed := true }

def inodeDenyWrite (t : InodeList) (a : Nat) : Except Halt InodeList := do
  let node := (t.cell a).inode
  let denyWriteCnt := i32 (node.denyWriteCnt + 1)
  ensure (denyWriteCnt ≤ node.openCnt)
  .ok (t.setInode a { node with denyWriteCnt })

def inodeAllowWrite (t : InodeList) (a : Nat) : Except Halt InodeList := do
  let node := (t.cell a).inode
  ensure (node.denyWriteCnt > 0)
  ensure (node.denyWriteCnt ≤ node.openCnt)
  .ok (t.setInode a { node with denyWriteCnt := i32 (node.denyWriteCnt - 1) })

/-! ## Files and directories -/

/-- `file_open`; `memory` is whether `calloc` finds room. -/
def fileOpen (t : InodeList) (inode : Option Nat) (memory : Bool) :
    Except Halt (Option File × InodeList) :=
  match inode, memory with
  | some a, true => .ok (some ⟨a, 0, false⟩, t)
  | _, _ => (t.inodeClose inode).map fun t => (none, t)

def fileReopen (t : InodeList) (file : File) (memory : Bool) :
    Except Halt (Option File × InodeList) :=
  (t.inodeReopen file.inode).fileOpen (some file.inode) memory

def fileDenyWrite (t : InodeList) (file : File) : Except Halt (File × InodeList) :=
  if ¬ file.denyWrite then do
    let t ← t.inodeDenyWrite file.inode
    .ok ({ file with denyWrite := true }, t)
  else .ok (file, t)

def fileAllowWrite (t : InodeList) (file : File) : Except Halt (File × InodeList) :=
  if file.denyWrite then do
    let t ← t.inodeAllowWrite file.inode
    .ok ({ file with denyWrite := false }, t)
  else .ok (file, t)

def fileClose (t : InodeList) : Option File → Except Halt InodeList
  | none => .ok t
  | some file => do
    let (file, t) ← t.fileAllowWrite file
    t.inodeClose (some file.inode)

def dirOpen (t : InodeList) (inode : Option Nat) (memory : Bool) :
    Except Halt (Option Dir × InodeList) :=
  match inode, memory with
  | some a, true => .ok (some ⟨a, 0⟩, t)
  | _, _ => (t.inodeClose inode).map fun t => (none, t)

def dirReopen (t : InodeList) (dir : Dir) (memory : Bool) :
    Except Halt (Option Dir × InodeList) :=
  (t.inodeReopen dir.inode).dirOpen (some dir.inode) memory

def dirClose (t : InodeList) : Option Dir → Except Halt InodeList
  | none => .ok t
  | some dir => t.inodeClose (some dir.inode)

end InodeList

/-! ## Runs -/

/-- The list with the pointers that callers of `inode_open` hold, the open files and the open
directories. -/
structure Handles where
  table : InodeList
  inodes : List Nat
  files : List File
  dirs : List Dir

/-- `i` is a place among the inodes, files or directories that are held; `none` is `NULL`. -/
inductive HandleEvent where
  | inodeOpen (sector : Nat) (memory : Option Nat)
  | inodeReopen (inode : Option Nat)
  | inodeClose (i : Option Nat)
  | inodeRemove (inode : Nat)
  | fileOpen (i : Option Nat) (memory : Bool)
  | fileReopen (i : Nat) (memory : Bool)
  | fileDenyWrite (i : Nat)
  | fileAllowWrite (i : Nat)
  | fileClose (i : Option Nat)
  | dirOpen (i : Option Nat) (memory : Bool)
  | dirReopen (i : Nat) (memory : Bool)
  | dirClose (i : Option Nat)

namespace Handles

/-- The element at a place that is given; the place is taken from the list. -/
def pick {α : Type} (list : List α) : Option Nat → Option α × List α
  | none => (none, list)
  | some i => (list[i]?, list.eraseIdx i)

/-- The file or directory at the place. -/
def get {α : Type} (list : List α) (i : Nat) : Except Halt α :=
  match list[i]? with
  | some x => .ok x
  | none => .error .nullPointer

def step (v : Handles) : HandleEvent → Except Halt Handles
  | .inodeOpen sector memory =>
    (v.table.inodeOpen sector memory).map fun r =>
      { v with table := r.2, inodes := r.1.toList ++ v.inodes }
  | .inodeReopen none => .ok v
  | .inodeReopen (some a) =>
    .ok { v with table := v.table.inodeReopen a, inodes := a :: v.inodes }
  | .inodeClose i =>
    (v.table.inodeClose (pick v.inodes i).1).map fun table =>
      { v with table, inodes := (pick v.inodes i).2 }
  | .inodeRemove a => .ok { v with table := v.table.inodeRemove a }
  | .fileOpen i memory =>
    (v.table.fileOpen (pick v.inodes i).1 memory).map fun r =>
      { v with table := r.2, inodes := (pick v.inodes i).2, files := r.1.toList ++ v.files }
  | .fileReopen i memory => do
    let file ← get v.files i
    let (opened, table) ← v.table.fileReopen file memory
    .ok { v with table, files := opened.toList ++ v.files }
  | .fileDenyWrite i => do
    let file ← get v.files i
    let (file, table) ← v.table.fileDenyWrite file
    .ok { v with table, files := v.files.set i file }
  | .fileAllowWrite i => do
    let file ← get v.files i
    let (file, table) ← v.table.fileAllowWrite file
    .ok { v with table, files := v.files.set i file }
  | .fileClose i =>
    (v.table.fileClose (pick v.files i).1).map fun table =>
      { v with table, files := (pick v.files i).2 }
  | .dirOpen i memory =>
    (v.table.dirOpen (pick v.inodes i).1 memory).map fun r =>
      { v with table := r.2, inodes := (pick v.inodes i).2, dirs := r.1.toList ++ v.dirs }
  | .dirReopen i memory => do
    let dir ← get v.dirs i
    let (opened, table) ← v.table.dirReopen dir memory
    .ok { v with table, dirs := opened.toList ++ v.dirs }
  | .dirClose i =>
    (v.table.dirClose (pick v.dirs i).1).map fun table =>
      { v with table, dirs := (pick v.dirs i).2 }

/-- `inode_init` -/
def Initial (v : Handles) : Prop :=
  v.table.openInodes = [] ∧ v.inodes = [] ∧ v.files = [] ∧ v.dirs = []

/-- All pointers to inodes. -/
def pointers (v : Handles) : List Nat :=
  v.inodes ++ v.files.map File.inode ++ v.dirs.map Dir.inode

/-- The number of pointers to the inode that are outstanding. -/
def refs (v : Handles) (a : Nat) : Nat := v.pointers.count a

/-- The number of open files of the inode that deny writes. -/
def denials (v : Handles) (a : Nat) : Nat :=
  v.files.countP fun file => decide (file.inode = a) && file.denyWrite

/-- The places are those of pointers that are held, `inode_reopen` and `inode_remove` are given
an inode that is open, and `malloc` returns memory that no open inode is in. -/
def Callable (v : Handles) : HandleEvent → Prop
  | .inodeOpen _ memory => ∀ a ∈ memory, a ∉ v.table.openInodes
  | .inodeReopen inode => ∀ a ∈ inode, a ∈ v.table.openInodes
  | .inodeRemove a => a ∈ v.table.openInodes
  | .inodeClose i | .fileOpen i _ | .dirOpen i _ => ∀ j ∈ i, j < v.inodes.length
  | .fileReopen i _ | .fileDenyWrite i | .fileAllowWrite i => i < v.files.length
  | .fileClose i => ∀ j ∈ i, j < v.files.length
  | .dirReopen i _ => i < v.dirs.length
  | .dirClose i => ∀ j ∈ i, j < v.dirs.length

/-- The pointer that the call adds fits in the `open_cnt` of its inode. -/
def Fits (v : Handles) : HandleEvent → Prop
  | .inodeOpen sector _ => ∀ a ∈ v.table.find sector, v.refs a < 2147483647
  | .inodeReopen inode => ∀ a ∈ inode, v.refs a < 2147483647
  | .fileReopen i _ => ∀ file ∈ v.files[i]?, v.refs file.inode < 2147483647
  | .dirReopen i _ => ∀ dir ∈ v.dirs[i]?, v.refs dir.inode < 2147483647
  | _ => True

instance (v : Handles) : (e : HandleEvent) → Decidable (v.Callable e)
  | .inodeOpen _ memory => inferInstanceAs (Decidable (∀ a ∈ memory, a ∉ v.table.openInodes))
  | .inodeReopen inode => inferInstanceAs (Decidable (∀ a ∈ inode, a ∈ v.table.openInodes))
  | .inodeRemove a => inferInstanceAs (Decidable (a ∈ v.table.openInodes))
  | .inodeClose i | .fileOpen i _ | .dirOpen i _ =>
    inferInstanceAs (Decidable (∀ j ∈ i, j < v.inodes.length))
  | .fileReopen i _ | .fileDenyWrite i | .fileAllowWrite i =>
    inferInstanceAs (Decidable (i < v.files.length))
  | .fileClose i => inferInstanceAs (Decidable (∀ j ∈ i, j < v.files.length))
  | .dirReopen i _ => inferInstanceAs (Decidable (i < v.dirs.length))
  | .dirClose i => inferInstanceAs (Decidable (∀ j ∈ i, j < v.dirs.length))

instance (v : Handles) : (e : HandleEvent) → Decidable (v.Fits e)
  | .inodeOpen sector _ =>
    inferInstanceAs (Decidable (∀ a ∈ v.table.find sector, v.refs a < 2147483647))
  | .inodeReopen inode => inferInstanceAs (Decidable (∀ a ∈ inode, v.refs a < 2147483647))
  | .fileReopen i _ =>
    inferInstanceAs (Decidable (∀ file ∈ v.files[i]?, v.refs file.inode < 2147483647))
  | .dirReopen i _ =>
    inferInstanceAs (Decidable (∀ dir ∈ v.dirs[i]?, v.refs dir.inode < 2147483647))
  | .inodeClose _ | .inodeRemove _ | .fileOpen _ _ | .fileDenyWrite _ | .fileAllowWrite _
  | .fileClose _ | .dirOpen _ _ | .dirClose _ => inferInstanceAs (Decidable True)

end Handles

def handleSystem : System Handles HandleEvent Halt where
  initial := Handles.Initial
  step := Handles.step

end Calendarizador.Source
