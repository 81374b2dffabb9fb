import Calendarizador.Source.FileSystem
import Calendarizador.Source.Ustar

/-!
# Archives on the scratch device

`fsutil_extract` and `fsutil_append` of `filesys/fsutil.c`, without their output. A buffer is
the memory from its first byte on: what lies behind its 512 bytes can be read too, and how
far a buffer was read is recorded.
-/
namespace Calendarizador.Source
open Foundation

structure Fsutil where
  fs : FileSys
  /-- The device with the role `BLOCK_SCRATCH`. -/
  scratch : Block
  /-- `sector` of `fsutil_extract` -/
  extractSector : Nat
  /-- `sector` of `fsutil_append` -/
  appendSector : Nat
  /-- Of the buffer of `fsutil_append`, the bytes in front of this one have been read. -/
  bufferRead : Nat

namespace Fsutil

/-- `block_write (scratch, sector, buffer + ofs)` -/
def writeFrom (u : Fsutil) (sector : Nat) (buffer : Nat → BitVec 8) (ofs : Nat) :
    Except Halt Fsutil := do
  let scratch ← u.scratch.write sector fun i => buffer (ofs + i)
  .ok { u with scratch, bufferRead := max u.bufferRead (ofs + sectorSize) }

/-- The same at the static `sector`, which moves on. -/
def writeNext (u : Fsutil) (buffer : Nat → BitVec 8) : Except Halt Fsutil := do
  let u ← u.writeFrom u.appendSector buffer 0
  .ok { u with appendSector := u.appendSector + 1 }

/-- The copy loop of `fsutil_append`, for at most `fuel` rounds. -/
def appendLoop (fileName : CString) :
    Nat → Fsutil → Nat → (Nat → BitVec 8) → File →
      Except Halt (Fsutil × (Nat → BitVec 8) × File)
  | 0, u, size, buffer, src => if size > 0 then .error .unfinished else .ok (u, buffer, src)
  | fuel + 1, u, size, buffer, src =>
    if size > 0 then
      let chunkSize := if size > sectorSize then sectorSize else size
      if u.appendSector ≥ u.scratch.size then
        .error (.panic (fileName.text ++ ": out of space on scratch device"))
      else do
        let (n, buffer, src) ← u.fs.fileRead src buffer chunkSize
        if n ≠ chunkSize then
          .error (.panic (fileName.text ++ ": read failed with " ++ toString size ++
            " bytes unread"))
        else do
          let buffer := splice buffer chunkSize (sectorSize - chunkSize) fun _ => 0
          let u ← u.writeNext buffer
          appendLoop fileName fuel u (size - chunkSize) buffer src
    else .ok (u, buffer, src)

/-- `fsutil_append`; `memory` is what the memory holds from the buffer on. -/
def append (u : Fsutil) (fileName : CString) (memory : Nat → BitVec 8) : Except Halt Fsutil := do
  match ← u.fs.filesysOpen fileName with
  | (none, _) => .error (.panic (fileName.text ++ ": open failed"))
  | (some src, fs) =>
    let size ← fs.inodeLength src.inode
    match ← Ustar.makeHeader fileName .regular size with
    | none => .error (.panic (fileName.text ++ ": name too long for ustar format"))
    | some header =>
      let buffer := splice memory 0 sectorSize header
      let u ← { u with fs }.writeNext buffer
      let (u, buffer, src) ← appendLoop fileName size.toNat u size.toNat buffer src
      -- the end-of-archive marker
      let buffer := splice buffer 0 sectorSize fun _ => 0
      let u ← u.writeFrom u.appendSector buffer 0
      let u ← u.writeFrom u.appendSector buffer 1
      let fs ← u.fs.fileClose (some src)
      .ok { u with fs }

/-- `fsutil_append` for one name after the other; with each name comes what the memory holds
from the buffer of the call on. -/
def appends (u : Fsutil) (calls : List (CString × (Nat → BitVec 8))) : Except Halt Fsutil :=
  calls.foldlM (fun u call => u.append call.1 call.2) u

/-- `block_read (scratch, sector++, …)` -/
def readNext (u : Fsutil) : Except Halt ((Nat → BitVec 8) × Fsutil) := do
  let data ← u.scratch.read u.extractSector
  .ok (data, { u with extractSector := u.extractSector + 1 })

/-- The copy loop of `fsutil_extract`, for at most `fuel` rounds. -/
def extractLoop (fileName : CString) : Nat → Fsutil → Nat → File → Except Halt (Fsutil × File)
  | 0, u, size, dst => if size > 0 then .error .unfinished else .ok (u, dst)
  | fuel + 1, u, size, dst =>
    if size > 0 then do
      let chunkSize := if size > sectorSize then sectorSize else size
      let (data, u) ← u.readNext
      let (n, dst, fs) ← u.fs.fileWrite dst data chunkSize
      if n ≠ chunkSize then
        .error (.panic (fileName.text ++ ": write failed with " ++ toString size ++
          " bytes unwritten"))
      else extractLoop fileName fuel { u with fs } (size - chunkSize) dst
    else .ok (u, dst)

/-- What `fsutil_extract` does for a regular file of the archive. -/
def extractFile (u : Fsutil) (fileName : CString) (size : Nat) : Except Halt Fsutil := do
  match ← u.fs.filesysCreate fileName size with
  | (false, _) => .error (.panic (fileName.text ++ ": create failed"))
  | (true, fs) =>
    match ← fs.filesysOpen fileName with
    | (none, _) => .error (.panic (fileName.text ++ ": open failed"))
    | (some dst, fs) =>
      let (u, dst) ← extractLoop fileName size { u with fs } size dst
      let fs ← u.fs.fileClose (some dst)
      .ok { u with fs }

/-- The loop of `fsutil_extract` over the entries, for at most `fuel` of them. -/
def extractEntries : Nat → Fsutil → Except Halt Fsutil
  | 0, _ => .error .unfinished
  | fuel + 1, u => do
    let (header, u) ← u.readNext
    match Ustar.parseHeader header with
    | .error error => .error (.panic ("bad ustar header in sector " ++
        toString (u.extractSector - 1) ++ " (" ++ error ++ ")"))
    | .ok .eof => .ok u
    | .ok (.directory _ _) => extractEntries fuel u
    | .ok (.regular fileName size) => do
      let u ← u.extractFile fileName size
      extractEntries fuel u

/-- `fsutil_extract`; no more entries than sectors can be read. -/
def extract (u : Fsutil) : Except Halt Fsutil := do
  let u ← extractEntries (u.scratch.size + 1) u
  let scratch ← u.scratch.write 0 fun _ => 0
  let scratch ← scratch.write 1 fun _ => 0
  .ok { u with scratch }

end Fsutil
end Calendarizador.Source
