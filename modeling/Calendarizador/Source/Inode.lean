import Calendarizador.Foundation.Bytes
import Calendarizador.Foundation.MachineInt
import Calendarizador.Source.Bitmap

/-!
# Inodes, files and the free map

`filesys/inode.c`, `filesys/file.c` and `filesys/free-map.c` over `block_read` and
`block_write` of `devices/block.c`, and `bitmap_read` and `bitmap_write` of
`lib/kernel/bitmap.c`. Byte `i` of sector `n` of a device is its byte `512 * n + i`. The list
of open inodes holds at most one `struct inode` for a sector, so a pointer to an inode is
the number of its sector. An `off_t` that is an offset or a size is not negative and is a
natural number; where the source allocates a structure, `memory` says whether it gets it.
The bounce buffers are always got.
-/
namespace Calendarizador.Source
open Foundation

/-- `BLOCK_SECTOR_SIZE` -/
def sectorSize : Nat := 512

/-- `struct block` -/
structure Block where
  size : Nat
  data : Nat → BitVec 8

namespace Block

def checkSector (b : Block) (sector : Nat) : Except Halt Unit :=
  if sector ≥ b.size then .error (.panic "Access past end of device") else .ok ()

/-- `block_read` -/
def read (b : Block) (sector : Nat) : Except Halt (Nat → BitVec 8) := do
  b.checkSector sector
  .ok fun i => b.data (sectorSize * sector + i)

/-- `block_write` -/
def write (b : Block) (sector : Nat) (buffer : Nat → BitVec 8) : Except Halt Block := do
  b.checkSector sector
  .ok { b with data := splice b.data (sectorSize * sector) sectorSize buffer }

end Block

/-- `struct inode_disk` -/
@[ext]
structure InodeDisk where
  start : Nat
  length : Int
  magic : Nat

/-- `struct inode` -/
structure Inode where
  openCnt : Int
  removed : Bool
  denyWriteCnt : Int
  data : InodeDisk

/-- `struct file` -/
structure File where
  inode : Nat
  pos : Nat
  denyWrite : Bool
  deriving DecidableEq

structure FileSys where
  /-- `fs_device` -/
  device : Block
  openInodes : Nat → Option Inode
  freeMap : Bitmap
  freeMapFile : Option File

def inodeMagic : Nat := 0x494e4f44

def freeMapSector : Nat := 0

def rootDirSector : Nat := 1

/-- `DIV_ROUND_UP (size, BLOCK_SECTOR_SIZE)` on `int`, as a `size_t`. -/
def bytesToSectors (size : Int) : Nat := ((i32 (size + 511)).tdiv 512 % 4294967296).toNat

namespace InodeDisk

/-- The bytes of the structure. -/
def bytes (d : InodeDisk) : Nat → BitVec 8 := fun i =>
  if i < 4 then byteOf d.start i
  else if i < 8 then byteOf (d.length % 4294967296).toNat (i - 4)
  else if i < 12 then byteOf d.magic (i - 8)
  else 0

/-- The structure that has the bytes. -/
def ofBytes (f : Nat → BitVec 8) : InodeDisk := ⟨wordAt f 0, i32 (wordAt f 4), wordAt f 8⟩

def byteToSector (d : InodeDisk) (pos : Nat) : Nat :=
  if pos < d.length then sizeT (d.start + pos / sectorSize) else 4294967295

/-- The bytes left in the sector. -/
def sectorLeft (offset : Nat) : Nat := sectorSize - offset % sectorSize

/-- `chunk_size`; 0 if it is not positive. -/
def chunkSize (d : InodeDisk) (size offset : Nat) : Nat :=
  let inodeLeft : Int := d.length - offset
  let minLeft : Int := if inodeLeft < sectorLeft offset then inodeLeft else sectorLeft offset
  (if (size : Int) < minLeft then (size : Int) else minLeft).toNat

end InodeDisk

namespace Block

/-- What a round of `inode_read_at` does with a sector. -/
def readChunk (b : Block) (sectorIdx sectorOfs chunk done : Nat) (buffer : Nat → BitVec 8) :
    Except Halt (Nat → BitVec 8) :=
  if sectorOfs = 0 ∧ chunk = sectorSize then do
    let data ← b.read sectorIdx
    .ok (splice buffer done sectorSize data)
  else do
    let bounce ← b.read sectorIdx
    .ok (splice buffer done chunk fun i => bounce (sectorOfs + i))

/-- The loop of `inode_read_at`, for at most `fuel` rounds. -/
def readLoop (b : Block) (d : InodeDisk) :
    Nat → Nat → Nat → Nat → (Nat → BitVec 8) → Except Halt (Nat × (Nat → BitVec 8))
  | 0, size, _, done, buffer => if size > 0 then .error .unfinished else .ok (done, buffer)
  | fuel + 1, size, offset, done, buffer =>
    if size > 0 then
      let chunk := d.chunkSize size offset
      if chunk = 0 then .ok (done, buffer)
      else do
        let buffer ←
          b.readChunk (d.byteToSector offset) (offset % sectorSize) chunk done buffer
        readLoop b d fuel (size - chunk) (offset + chunk) (done + chunk) buffer
    else .ok (done, buffer)

/-- What a round of `inode_write_at` does with a sector; `left` is `sector_left`. -/
def writeChunk (b : Block) (sectorIdx sectorOfs chunk left : Nat) (src : Nat → BitVec 8) :
    Except Halt Block :=
  if sectorOfs = 0 ∧ chunk = sectorSize then b.write sectorIdx src
  else do
    let bounce ← if sectorOfs > 0 ∨ chunk < left then b.read sectorIdx else .ok fun _ => 0
    b.write sectorIdx (splice bounce sectorOfs chunk src)

/-- The loop of `inode_write_at`, for at most `fuel` rounds. -/
def writeLoop (d : InodeDisk) (buffer : Nat → BitVec 8) :
    Nat → Block → Nat → Nat → Nat → Except Halt (Nat × Block)
  | 0, b, size, _, done => if size > 0 then .error .unfinished else .ok (done, b)
  | fuel + 1, b, size, offset, done =>
    if size > 0 then
      let chunk := d.chunkSize size offset
      if chunk = 0 then .ok (done, b)
      else do
        let b ← b.writeChunk (d.byteToSector offset) (offset % sectorSize) chunk
          (InodeDisk.sectorLeft offset) fun i => buffer (done + i)
        writeLoop d buffer fuel b (size - chunk) (offset + chunk) (done + chunk)
    else .ok (done, b)

end Block

namespace Bitmap

def lastMask (b : Bitmap) : BitVec 32 :=
  if b.bitCnt % 32 ≠ 0 then 1#32 <<< (b.bitCnt % 32) - 1#32 else BitVec.allOnes 32

/-- The bytes of the elements. -/
def bytes (b : Bitmap) : Nat → BitVec 8 := fun i => byteOf (b.bits (i / 4)).toNat (i % 4)

/-- The elements that have the bytes. -/
def ofBytes (bitCnt : Nat) (f : Nat → BitVec 8) : Bitmap :=
  ⟨bitCnt, fun idx => BitVec.ofNat 32 (wordAt f (4 * idx))⟩

/-- `bitmap_create`; what the memory held before is `bits`. `malloc (0)` is `NULL`. -/
def create (bitCnt : Nat) (bits : Nat → BitVec 32) : Except Halt (Option Bitmap) :=
  if sizeT (bitCnt + 31) / 32 = 0 ∧ bitCnt ≠ 0 then .ok none
  else (setAll ⟨bitCnt, bits⟩ false).map some

end Bitmap

namespace FileSys

@[simps]
def setDevice (s : FileSys) (device : Block) : FileSys := { s with device }

@[simps]
def setInode (s : FileSys) (sector : Nat) (inode : Option Inode) : FileSys :=
  { s with openInodes := Function.update s.openInodes sector inode }

@[simps]
def setFreeMap (s : FileSys) (freeMap : Bitmap) : FileSys := { s with freeMap }

@[simps]
def setFreeMapFile (s : FileSys) (file : Option File) : FileSys := { s with freeMapFile := file }

/-- The structure a pointer to an inode points to. -/
def inode (s : FileSys) (sector : Nat) : Except Halt Inode :=
  match s.openInodes sector with
  | some node => .ok node
  | none => .error .nullPointer

/-- `inode_read_at`; the result is the number of bytes read and the buffer then. -/
def inodeReadAt (s : FileSys) (inode : Nat) (buffer : Nat → BitVec 8) (size offset : Nat) :
    Except Halt (Nat × (Nat → BitVec 8)) := do
  let node ← s.inode inode
  s.device.readLoop node.data size size offset 0 buffer

def inodeWriteAt (s : FileSys) (inode : Nat) (buffer : Nat → BitVec 8) (size offset : Nat) :
    Except Halt (Nat × FileSys) := do
  let node ← s.inode inode
  if node.denyWriteCnt ≠ 0 then .ok (0, s)
  else do
    let (written, device) ← Block.writeLoop node.data buffer size s.device size offset 0
    .ok (written, s.setDevice device)

def inodeLength (s : FileSys) (inode : Nat) : Except Halt Int := do
  let node ← s.inode inode
  .ok node.data.length

def fileReadAt (s : FileSys) (file : File) (buffer : Nat → BitVec 8) (size fileOfs : Nat) :
    Except Halt (Nat × (Nat → BitVec 8)) :=
  s.inodeReadAt file.inode buffer size fileOfs

def fileWriteAt (s : FileSys) (file : File) (buffer : Nat → BitVec 8) (size fileOfs : Nat) :
    Except Halt (Nat × FileSys) :=
  s.inodeWriteAt file.inode buffer size fileOfs

/-- `file_read`; the file has moved on. -/
def fileRead (s : FileSys) (file : File) (buffer : Nat → BitVec 8) (size : Nat) :
    Except Halt (Nat × (Nat → BitVec 8) × File) := do
  let (bytesRead, buffer) ← s.inodeReadAt file.inode buffer size file.pos
  .ok (bytesRead, buffer, { file with pos := file.pos + bytesRead })

/-- `file_write`; the file has moved on. -/
def fileWrite (s : FileSys) (file : File) (buffer : Nat → BitVec 8) (size : Nat) :
    Except Halt (Nat × File × FileSys) := do
  let (bytesWritten, s) ← s.inodeWriteAt file.inode buffer size file.pos
  .ok (bytesWritten, { file with pos := file.pos + bytesWritten }, s)

def fileSeek (file : File) (newPos : Int) : Except Halt File := do
  ensure (0 ≤ newPos)
  .ok { file with pos := newPos.toNat }

/-! ## The free map -/

/-- `bitmap_read` from the file; the result says whether all of it was read. -/
def bitmapRead (s : FileSys) (b : Bitmap) (file : File) : Except Halt (Bool × Bitmap) :=
  if b.bitCnt > 0 then do
    let size := Bitmap.byteCnt b.bitCnt
    let (n, buffer) ← s.fileReadAt file b.bytes size 0
    let b := Bitmap.ofBytes b.bitCnt buffer
    let last := Bitmap.elemCnt b.bitCnt - 1
    .ok (n = size, b.store last (b.bits last &&& b.lastMask))
  else .ok (true, b)

/-- `bitmap_write` of the free map to the free map file. -/
def bitmapWrite (s : FileSys) : Except Halt (Bool × FileSys) :=
  match s.freeMapFile with
  | none => .error .nullPointer
  | some file => do
    let size := Bitmap.byteCnt s.freeMap.bitCnt
    let (n, s) ← s.fileWriteAt file s.freeMap.bytes size 0
    .ok (n = size, s)

/-- `free_map_init` -/
def freeMapInit (s : FileSys) (bits : Nat → BitVec 32) : Except Halt FileSys := do
  match ← Bitmap.create s.device.size bits with
  | none => .error (.panic "bitmap creation failed--file system device is too large")
  | some b =>
    -- without a sector the elements are at `NULL`
    if b.bitCnt = 0 then .error .nullPointer
    else .ok (s.setFreeMap ((b.mark freeMapSector).mark rootDirSector))

/-- `free_map_allocate`; the result is the first of the sectors. -/
def freeMapAllocate (s : FileSys) (cnt : Nat) : Except Halt (Option Nat × FileSys) := do
  match ← s.freeMap.scanAndFlip 0 cnt false with
  | (none, b) => .ok (none, s.setFreeMap b)
  | (some sector, b) =>
    let s := s.setFreeMap b
    match s.freeMapFile with
    | none => .ok (some sector, s)
    | some _ =>
      match ← s.bitmapWrite with
      | (true, s) => .ok (some sector, s)
      | (false, s) =>
        let b ← s.freeMap.setMultiple sector cnt false
        .ok (none, s.setFreeMap b)

def freeMapRelease (s : FileSys) (sector cnt : Nat) : Except Halt FileSys := do
  let used ← s.freeMap.all sector cnt
  ensure (used = true)
  let b ← s.freeMap.setMultiple sector cnt false
  let (_, s) ← (s.setFreeMap b).bitmapWrite
  .ok s

/-! ## Creating, opening and closing -/

/-- Zeros in the `cnt` sectors from `start` on. -/
def writeZeros (device : Block) (start cnt : Nat) : Except Halt Block :=
  (List.range cnt).foldlM (fun b i => b.write (sizeT (start + i)) fun _ => 0) device

def inodeCreate (s : FileSys) (sector : Nat) (length : Int) : Except Halt (Bool × FileSys) := do
  ensure (0 ≤ length)
  let sectors := bytesToSectors length
  match ← s.freeMapAllocate sectors with
  | (none, s) => .ok (false, s)
  | (some start, s) =>
    let device ← s.device.write sector (InodeDisk.bytes ⟨start, length, inodeMagic⟩)
    let device ← writeZeros device start sectors
    .ok (true, s.setDevice device)

/-- `inode_reopen` of an inode that is not `NULL`. -/
def inodeReopen (s : FileSys) (sector : Nat) : Except Halt FileSys := do
  let node ← s.inode sector
  .ok (s.setInode sector (some { node with openCnt := node.openCnt + 1 }))

def inodeOpen (s : FileSys) (sector : Nat) (memory : Bool) :
    Except Halt (Option Nat × FileSys) :=
  match s.openInodes sector with
  | some _ => (s.inodeReopen sector).map fun s => (some sector, s)
  | none =>
    if memory then do
      let buffer ← s.device.read sector
      .ok (some sector, s.setInode sector (some ⟨1, false, 0, .ofBytes buffer⟩))
    else .ok (none, s)

def inodeClose (s : FileSys) : Option Nat → Except Halt FileSys
  | none => .ok s
  | some sector => do
    let node ← s.inode sector
    if node.openCnt - 1 = 0 then
      let s := s.setInode sector none
      if node.removed then do
        let s ← s.freeMapRelease sector 1
        s.freeMapRelease node.data.start (bytesToSectors node.data.length)
      else .ok s
    else .ok (s.setInode sector (some { node with openCnt := node.openCnt - 1 }))

def inodeRemove (s : FileSys) (sector : Nat) : Except Halt FileSys := do
  let node ← s.inode sector
  .ok (s.setInode sector (some { node with removed := true }))

def inodeAllowWrite (s : FileSys) (sector : Nat) : Except Halt FileSys := do
  let node ← s.inode sector
  ensure (node.denyWriteCnt > 0)
  ensure (node.denyWriteCnt ≤ node.openCnt)
  .ok (s.setInode sector (some { node with denyWriteCnt := node.denyWriteCnt - 1 }))

def fileOpen (s : FileSys) (inode : Option Nat) (memory : Bool) :
    Except Halt (Option File × FileSys) :=
  match inode, memory with
  | some sector, true => .ok (some ⟨sector, 0, false⟩, s)
  | _, _ => (s.inodeClose inode).map fun s => (none, s)

def fileAllowWrite (s : FileSys) (file : File) : Except Halt FileSys :=
  if file.denyWrite then s.inodeAllowWrite file.inode else .ok s

def fileClose (s : FileSys) : Option File → Except Halt FileSys
  | none => .ok s
  | some file => do
    let s ← s.fileAllowWrite file
    s.inodeClose (some file.inode)

/-- `free_map_open` -/
def freeMapOpen (s : FileSys) : Except Halt FileSys := do
  let (inode, s) ← s.inodeOpen freeMapSector true
  match ← s.fileOpen inode true with
  | (none, _) => .error (.panic "can't open free map")
  | (some file, s) =>
    let s := s.setFreeMapFile (some file)
    match ← s.bitmapRead s.freeMap file with
    | (false, _) => .error (.panic "can't read free map")
    | (true, b) => .ok (s.setFreeMap b)

def freeMapClose (s : FileSys) : Except Halt FileSys := s.fileClose s.freeMapFile

def freeMapCreate (s : FileSys) : Except Halt FileSys := do
  match ← s.inodeCreate freeMapSector (Bitmap.byteCnt s.freeMap.bitCnt) with
  | (false, _) => .error (.panic "free map creation failed")
  | (true, s) =>
    let (inode, s) ← s.inodeOpen freeMapSector true
    match ← s.fileOpen inode true with
    | (none, _) => .error (.panic "can't open free map")
    | (some file, s) =>
      match ← (s.setFreeMapFile (some file)).bitmapWrite with
      | (false, _) => .error (.panic "can't write free map")
      | (true, s) => .ok s

end FileSys
end Calendarizador.Source
