import Calendarizador.Source.Inode

/-!
# Partitions of a block device

`devices/partition.c` over `block_read` and `block_write`. A `block_sector_t` is a number that
wraps at 32 bits. The printed messages and the names of the new devices are left out, and
`malloc` gives the memory it is asked for.
-/
namespace Calendarizador.Source
open Foundation

/-- `struct partition_table_entry`, the fields that are read. -/
structure PartitionEntry where
  type : Nat
  offset : Nat
  size : Nat

/-- Entry `i` of a `struct partition_table`. -/
def PartitionEntry.ofBytes (table : Nat → BitVec 8) (i : Nat) : PartitionEntry where
  type := (table (446 + 16 * i + 4)).toNat
  offset := wordAt table (446 + 16 * i + 8)
  size := wordAt table (446 + 16 * i + 12)

/-- `pt->partitions` -/
def tableEntries (table : Nat → BitVec 8) : List PartitionEntry :=
  (List.range 4).map (PartitionEntry.ofBytes table)

/-- `pt->signature` -/
def tableSignature (table : Nat → BitVec 8) : Nat :=
  (table 510).toNat + 256 * (table 511).toNat

namespace PartitionEntry

def isEmpty (e : PartitionEntry) : Bool := e.size = 0 ∨ e.type = 0

def isExtended (e : PartitionEntry) : Bool :=
  e.type = 0x05 ∨ e.type = 0x0f ∨ e.type = 0x85 ∨ e.type = 0xc5

end PartitionEntry

/-- The arguments of a call of `found_partition`, apart from the number. -/
structure Found where
  type : Nat
  start : Nat
  size : Nat
  deriving DecidableEq, Repr

/-- `part_nr`, and the calls of `found_partition` with their numbers. -/
structure Scan where
  partNr : Nat
  found : List (Found × Nat)

def Scan.count (s : Scan) (call : Found) : Scan :=
  ⟨s.partNr + 1, s.found ++ [(call, s.partNr + 1)]⟩

/-- The call for an entry of the table in the sector. -/
def PartitionEntry.call (e : PartitionEntry) (sector : Nat) : Found :=
  ⟨e.type, sizeT (e.offset + sector), e.size⟩

/-- The loop body of `read_partition_table`; `read` is the nested call. -/
def scanEntry (read : Nat → Nat → Scan → Except Halt Scan) (sector primaryExtendedSector : Nat)
    (scan : Scan) (e : PartitionEntry) : Except Halt Scan :=
  if e.isEmpty then .ok scan
  else if e.isExtended then
    if sector = 0 then read e.offset e.offset scan
    else read (sizeT (e.offset + primaryExtendedSector)) primaryExtendedSector scan
  else .ok (scan.count (e.call sector))

/-- `read_partition_table`, for at most `fuel` nested calls. -/
def readPartitionTable (block : Block) : Nat → Nat → Nat → Scan → Except Halt Scan
  | 0, _, _, _ => .error .unfinished
  | fuel + 1, sector, primaryExtendedSector, scan =>
    if sector ≥ block.size then .ok scan
    else do
      let pt ← block.read 0
      if tableSignature pt ≠ 0xaa55 then .ok scan
      else
        (tableEntries pt).foldlM
          (scanEntry (readPartitionTable block fuel) sector primaryExtendedSector) scan

def partitionScan (fuel : Nat) (block : Block) : Except Halt Scan :=
  readPartitionTable block fuel 0 0 ⟨0, []⟩

/-- `enum block_type`, the values that `found_partition` gives. -/
inductive BlockType where
  | kernel | filesys | scratch | swap | foreign
  deriving DecidableEq, Repr

/-- `struct partition`, with the size and type that `block_register` is given. -/
structure Partition where
  block : Block
  start : Nat
  size : Nat
  type : BlockType

/-- `found_partition`; `none` if it registers nothing. -/
def foundPartition (block : Block) (call : Found) : Option Partition :=
  if call.start ≥ block.size then none
  else if sizeT (call.start + call.size) < call.start ∨
    sizeT (call.start + call.size) > block.size then none
  else some {
    block
    start := call.start
    size := call.size
    type := if call.type = 0x20 then .kernel
      else if call.type = 0x21 then .filesys
      else if call.type = 0x22 then .scratch
      else if call.type = 0x23 then .swap
      else .foreign }

/-- The partitions that a scan registers. -/
def Scan.registered (s : Scan) (block : Block) : List Partition :=
  s.found.filterMap fun call => foundPartition block call.1

namespace Partition

/-- `check_sector` on the device of the partition. -/
def checkSector (p : Partition) (sector : Nat) : Except Halt Unit :=
  if sector ≥ p.size then .error (.panic "Access past end of device") else .ok ()

/-- `partition_read` -/
def read (p : Partition) (sector : Nat) : Except Halt (Nat → BitVec 8) :=
  p.block.read (sizeT (p.start + sector))

/-- `partition_write` -/
def write (p : Partition) (sector : Nat) (buffer : Nat → BitVec 8) : Except Halt Block :=
  p.block.write (sizeT (p.start + sector)) buffer

end Partition

end Calendarizador.Source
