import Calendarizador.Source.Inode
import Mathlib.Data.List.TakeWhile

/-!
# Directories

`filesys/directory.c`. A `struct dir_entry` is its 20 bytes: the inode sector, the name with
its null byte, and `in_use`.
-/
namespace Calendarizador.Source
open Foundation

/-- A string of C, without its null byte. -/
structure CString where
  bytes : List (BitVec 8)
  noNull : ∀ b ∈ bytes, b ≠ 0
  deriving DecidableEq

theorem CString.ext {s t : CString} (same : s.bytes = t.bytes) : s = t := by
  cases s
  cases t
  cases same
  rfl

/-- `struct dir` -/
structure Dir where
  inode : Nat
  pos : Nat

/-- `NAME_MAX` -/
def nameMax : Nat := 14

/-- `sizeof (struct dir_entry)` -/
def dirEntrySize : Nat := 20

abbrev DirEntry := Nat → BitVec 8

namespace DirEntry

def inodeSector (e : DirEntry) : Nat := wordAt e 0

def inUse (e : DirEntry) : Bool := e 19 != 0

/-- `!strcmp (name, e.name)` -/
def hasName (e : DirEntry) (name : CString) : Bool :=
  (List.range (name.bytes.length + 1)).all fun i => e (4 + i) == name.bytes.getD i 0

/-- The entry for a file; of the old name the bytes behind the null byte are left. -/
def fill (e : DirEntry) (name : CString) (inodeSector : Nat) : DirEntry := fun i =>
  if i < 4 then byteOf inodeSector i
  else if i = 19 then 1
  else if i ≤ 4 + name.bytes.length then name.bytes.getD (i - 4) 0
  else e i

def erase (e : DirEntry) : DirEntry := Function.update e 19 0

/-- What `strlcpy (name, e.name, NAME_MAX + 1)` stores, without the null byte. -/
def name (e : DirEntry) : CString where
  bytes := ((List.range nameMax).map fun i => e (4 + i)).takeWhile (· != 0)
  noNull b member := by simpa using List.mem_takeWhile_imp member

/-- The name and the inode sector of an entry that is in use. -/
def slot (e : DirEntry) : Option (CString × Nat) :=
  if e.inUse then some (e.name, e.inodeSector) else none

end DirEntry

namespace FileSys

def dirCreate (s : FileSys) (sector entryCnt : Nat) : Except Halt (Bool × FileSys) :=
  s.inodeCreate sector (i32 (entryCnt * dirEntrySize : Nat))

def dirOpen (s : FileSys) (inode : Option Nat) (memory : Bool) :
    Except Halt (Option Dir × FileSys) :=
  match inode, memory with
  | some sector, true => .ok (some ⟨sector, 0⟩, s)
  | _, _ => (s.inodeClose inode).map fun s => (none, s)

def dirOpenRoot (s : FileSys) : Except Halt (Option Dir × FileSys) := do
  let (inode, s) ← s.inodeOpen rootDirSector true
  s.dirOpen inode true

def dirClose (s : FileSys) : Option Dir → Except Halt FileSys
  | none => .ok s
  | some dir => s.inodeClose (some dir.inode)

/-- A loop over the entries of a directory up to the first one with the property, from the
offset `ofs` on and for at most `fuel` rounds: the entry read last, its offset, and whether
it has the property. -/
def searchLoop (s : FileSys) (dir : Dir) (p : DirEntry → Bool) :
    Nat → DirEntry → Nat → Except Halt (DirEntry × Nat × Bool)
  | 0, _, _ => .error .unfinished
  | fuel + 1, e, ofs => do
    let (n, e) ← s.inodeReadAt dir.inode e dirEntrySize ofs
    if n = dirEntrySize then
      if p e then .ok (e, ofs, true)
      else searchLoop s dir p fuel e (ofs + dirEntrySize)
    else .ok (e, ofs, false)

/-- The loop from the first entry on. -/
def search (s : FileSys) (dir : Dir) (p : DirEntry → Bool) :
    Except Halt (DirEntry × Nat × Bool) := do
  let length ← s.inodeLength dir.inode
  s.searchLoop dir p (length.toNat / dirEntrySize + 1) (fun _ => 0) 0

/-- `lookup`; the entry and its offset. -/
def lookup (s : FileSys) (dir : Dir) (name : CString) :
    Except Halt (Option (DirEntry × Nat)) := do
  let (e, ofs, found) ← s.search dir fun e => e.inUse && e.hasName name
  .ok (if found then some (e, ofs) else none)

/-- `dir_lookup`, where `inode_open` may find no `memory`; the inode it returns is open. -/
def dirLookupIf (s : FileSys) (dir : Dir) (name : CString) (memory : Bool) :
    Except Halt (Option Nat × FileSys) := do
  match ← s.lookup dir name with
  | some (e, _) => s.inodeOpen e.inodeSector memory
  | none => .ok (none, s)

/-- `dir_lookup` with enough memory. -/
def dirLookup (s : FileSys) (dir : Dir) (name : CString) : Except Halt (Option Nat × FileSys) :=
  s.dirLookupIf dir name true

def dirAdd (s : FileSys) (dir : Dir) (name : CString) (inodeSector : Nat) :
    Except Halt (Bool × FileSys) :=
  if name.bytes = [] ∨ name.bytes.length > nameMax then .ok (false, s)
  else do
    match ← s.lookup dir name with
    | some _ => .ok (false, s)
    | none =>
      let (e, ofs, _) ← s.search dir fun e => !e.inUse
      let (n, s) ← s.inodeWriteAt dir.inode (e.fill name inodeSector) dirEntrySize ofs
      .ok (n = dirEntrySize, s)

/-- `dir_remove`, where `inode_open` may find no `memory`. -/
def dirRemoveIf (s : FileSys) (dir : Dir) (name : CString) (memory : Bool) :
    Except Halt (Bool × FileSys) := do
  match ← s.lookup dir name with
  | none => .ok (false, s)
  | some (e, ofs) =>
    match ← s.inodeOpen e.inodeSector memory with
    | (none, s) => .ok (false, s)
    | (some inode, s) =>
      let (n, s) ← s.inodeWriteAt dir.inode e.erase dirEntrySize ofs
      if n ≠ dirEntrySize then do
        let s ← s.inodeClose (some inode)
        .ok (false, s)
      else do
        let s ← s.inodeRemove inode
        let s ← s.inodeClose (some inode)
        .ok (true, s)

/-- `dir_remove` with enough memory. -/
def dirRemove (s : FileSys) (dir : Dir) (name : CString) : Except Halt (Bool × FileSys) :=
  s.dirRemoveIf dir name true

/-- `dir_readdir`; the name it stores, and the directory at its new position. -/
def dirReaddir (s : FileSys) (dir : Dir) : Except Halt (Option CString × Dir) := do
  let length ← s.inodeLength dir.inode
  let (e, ofs, found) ←
    s.searchLoop dir DirEntry.inUse (length.toNat / dirEntrySize + 1) (fun _ => 0) dir.pos
  if found then .ok (some e.name, { dir with pos := ofs + dirEntrySize })
  else .ok (none, { dir with pos := ofs })

/-- The names that `dir_readdir` stores until it returns false, in at most `fuel` calls. -/
def readdirAll (s : FileSys) : Nat → Dir → Except Halt (List CString)
  | 0, _ => .error .unfinished
  | fuel + 1, dir => do
    match ← s.dirReaddir dir with
    | (none, _) => .ok []
    | (some name, dir) =>
      let names ← readdirAll s fuel dir
      .ok (name :: names)

/-- Entry `k` of the directory with the inode `d`. -/
def entryAt (s : FileSys) (d : InodeDisk) (k : Nat) : DirEntry :=
  fun i => s.device.data (sectorSize * d.start + (dirEntrySize * k + i))

end FileSys
end Calendarizador.Source
