import Calendarizador.Invariant.InodeIo

/-!
# The free map and its file

Every change of the free map is followed by a write of its file, so the file always holds
the bits of the map.
-/
namespace Calendarizador.Source
open Foundation

namespace Bitmap

theorem bitAt_bytes (b : Bitmap) (j : Nat) : bitAt b.bytes j = b.bit j := by
  have element : j / 8 / 4 = j / 32 := by omega
  have place : 8 * (j / 8 % 4) + j % 8 = j % 32 := by omega
  unfold bitAt bytes bit
  rw [byteOf_getLsbD _ _ (Nat.mod_lt _ (by decide)), element, place, BitVec.testBit_toNat]

theorem bit_ofBytes (bitCnt : Nat) (f : Nat → BitVec 8) (j : Nat) :
    (ofBytes bitCnt f).bit j = bitAt f j := by
  have small : j % 32 < 32 := Nat.mod_lt _ (by decide)
  have place : 32 * (j / 32) + j % 32 = j := Nat.div_add_mod j 32
  unfold bit ofBytes
  simp only [BitVec.getLsbD_ofNat, small, decide_true, Bool.true_and]
  rw [wordAt_testBit f _ small, place]

theorem toNat_mask {n : Nat} (small : n < 32) : (1#32 <<< n - 1#32).toNat = 2 ^ n - 1 := by
  have positive : 0 < 2 ^ n := Nat.two_pow_pos n
  have bound : 2 ^ n < 2 ^ 32 := Nat.pow_lt_pow_right (by decide) small
  have shifted : (1#32 <<< n).toNat = 2 ^ n := by
    rw [BitVec.toNat_shiftLeft, BitVec.toNat_ofNat, Nat.one_mod_two_pow (by decide),
      Nat.one_shiftLeft, Nat.mod_eq_of_lt bound]
  rw [BitVec.toNat_sub, shifted, BitVec.toNat_ofNat]
  omega

/-- `last_mask` keeps the bits of the bitmap. -/
theorem lastMask_getLsbD {b : Bitmap} {j : Nat} (inside : j < b.bitCnt)
    (last : j / 32 = elemCnt b.bitCnt - 1) : b.lastMask.getLsbD (j % 32) = true := by
  have small : j % 32 < 32 := Nat.mod_lt _ (by decide)
  unfold lastMask
  split
  · next part =>
    have below : j % 32 < b.bitCnt % 32 := by
      simp only [elemCnt, divRoundUp] at last
      omega
    rw [← BitVec.testBit_toNat, toNat_mask (Nat.mod_lt _ (by decide)),
      Nat.testBit_two_pow_sub_one]
    exact decide_eq_true below
  · rw [BitVec.getLsbD_allOnes]
    exact decide_eq_true small

end Bitmap

namespace FileSys

/-- The free map file is open, as `free_map_open` and `free_map_create` leave it. -/
structure Mounted (s : FileSys) (fm : InodeDisk) : Prop where
  some_ : 0 < s.device.size
  few : s.device.size + 31 < 4294967296
  bits : s.freeMap.bitCnt = s.device.size
  file : s.freeMapFile = some ⟨freeMapSector, 0, false⟩
  node : s.openInodes freeMapSector = some ⟨1, false, 0, fm⟩
  length : fm.length = Bitmap.byteCnt s.device.size
  inside : fm.Inside s.device.size

/-- The free map file holds the free map. -/
def Synced (s : FileSys) (fm : InodeDisk) : Prop :=
  ∀ j < s.device.size,
    bitAt (fun i => s.device.data (sectorSize * fm.start + i)) j = s.freeMap.bit j

/-- The state after the free map became `b` and was written to its file. -/
def saveMap (s : FileSys) (fm : InodeDisk) (b : Bitmap) : FileSys :=
  (s.setFreeMap b).put (sectorSize * fm.start) (Bitmap.byteCnt b.bitCnt) b.bytes

section
variable {s : FileSys} {fm : InodeDisk} (mounted : s.Mounted fm)
include mounted
variable {b : Bitmap}

theorem Mounted.setFreeMap (size : b.bitCnt = s.freeMap.bitCnt) : (s.setFreeMap b).Mounted fm :=
  { mounted with bits := size.trans mounted.bits }

theorem Mounted.put (a n : Nat) (buffer : Nat → BitVec 8) : (s.put a n buffer).Mounted fm :=
  { mounted with }

theorem Mounted.saveMap (size : b.bitCnt = s.freeMap.bitCnt) : (s.saveMap fm b).Mounted fm :=
  (mounted.setFreeMap size).put _ _ _

theorem Mounted.reach : fm.reach (Bitmap.byteCnt s.freeMap.bitCnt) 0 =
    Bitmap.byteCnt s.freeMap.bitCnt := by
  have length := mounted.length
  rw [mounted.bits]
  unfold InodeDisk.reach
  omega

theorem Mounted.bitmapWrite : s.bitmapWrite = .ok (true, s.saveMap fm s.freeMap) := by
  unfold FileSys.bitmapWrite
  rw [mounted.file]
  dsimp only
  unfold fileWriteAt
  rw [inodeWriteAt_eq mounted.node rfl mounted.inside.fits, ok_bind]
  simp only [mounted.reach, Nat.add_zero, decide_true]
  rfl

theorem synced_saveMap (size : b.bitCnt = s.freeMap.bitCnt) : (s.saveMap fm b).Synced fm := by
  intro j below
  have inside : j / 8 < Bitmap.byteCnt b.bitCnt := by
    rw [size, mounted.bits]
    change j < s.device.size at below
    simp only [Bitmap.byteCnt, Bitmap.elemCnt, divRoundUp]
    omega
  change bitAt (fun i => splice _ _ _ _ (sectorSize * fm.start + i)) j = b.bit j
  rw [← Bitmap.bitAt_bytes]
  unfold bitAt
  dsimp only
  rw [splice_inside inside]

/-- `free_map_allocate` takes free sectors, or nothing if there is no such run. -/
theorem Mounted.allocate (cnt : Nat) :
    (∃ sector b, s.freeMapAllocate cnt = .ok (some sector, s.saveMap fm b) ∧
      s.freeMap.Group false cnt sector ∧ (∀ k < sector, ¬ s.freeMap.Group false cnt k) ∧
      b.bitCnt = s.freeMap.bitCnt ∧
      ∀ j, b.bit j = if j ∈ (⟨sector, cnt⟩ : Span) then true else s.freeMap.bit j) ∨
    (s.freeMapAllocate cnt = .ok (none, s) ∧ ∀ k, ¬ s.freeMap.Group false cnt k) := by
  have fits : s.freeMap.bitCnt < 4294967296 := by
    have few := mounted.few
    rw [mounted.bits]
    omega
  unfold freeMapAllocate
  rcases Bitmap.scanAndFlip_spec fits cnt (Nat.zero_le _) false with
    ⟨sector, b, scanned, -, group, first, size, bits⟩ | ⟨scanned, none_⟩
  · refine .inl ⟨sector, b, ?_, group, fun k => first k (Nat.zero_le k), size, bits⟩
    rw [scanned, ok_bind]
    dsimp only
    rw [setFreeMap_freeMapFile, mounted.file]
    rw [(mounted.setFreeMap size).bitmapWrite]
    rfl
  · refine .inr ⟨?_, fun k => none_ k (Nat.zero_le k)⟩
    rw [scanned]
    rfl

/-- `free_map_release` of sectors that are all in use. -/
theorem Mounted.release {sector cnt : Nat} (used : s.freeMap.Group true cnt sector) :
    ∃ b, s.freeMapRelease sector cnt = .ok (s.saveMap fm b) ∧ b.bitCnt = s.freeMap.bitCnt ∧
      ∀ j, b.bit j = if j ∈ (⟨sector, cnt⟩ : Span) then false else s.freeMap.bit j := by
  have fits : s.freeMap.bitCnt < 4294967296 := by
    have few := mounted.few
    rw [mounted.bits]
    omega
  obtain ⟨answer, checked, meaning⟩ := Bitmap.all_spec fits used.1
  obtain ⟨b, cleared, size, bits⟩ := Bitmap.setMultiple_spec fits used.1 false
  refine ⟨b, ?_, size, bits⟩
  unfold freeMapRelease
  rw [checked, ok_bind, ensure_bind (meaning.mpr used), cleared, ok_bind,
    (mounted.setFreeMap size).bitmapWrite]
  rfl

end

/-- `bitmap_read` gets the bits the file holds. -/
theorem bitmapRead_spec {s : FileSys} {node : Inode} (file : File) (b : Bitmap)
    (open_ : s.openInodes file.inode = some node) (inside : node.data.Inside s.device.size)
    (some_ : 0 < b.bitCnt) (length : node.data.length = Bitmap.byteCnt b.bitCnt) :
    ∃ after, s.bitmapRead b file = .ok (true, after) ∧ after.bitCnt = b.bitCnt ∧
      ∀ j < b.bitCnt, after.bit j =
        bitAt (fun i => s.device.data (sectorSize * node.data.start + i)) j := by
  have reach : node.data.reach (Bitmap.byteCnt b.bitCnt) 0 = Bitmap.byteCnt b.bitCnt := by
    unfold InodeDisk.reach
    omega
  unfold bitmapRead fileReadAt
  rw [if_pos some_]
  dsimp only
  rw [inodeReadAt_eq open_ inside.fits, ok_bind]
  simp only [reach, decide_true]
  refine ⟨_, rfl, rfl, fun j below => ?_⟩
  have byte : j / 8 < Bitmap.byteCnt b.bitCnt := by
    simp only [Bitmap.byteCnt, Bitmap.elemCnt, divRoundUp]
    omega
  have read : bitAt (splice b.bytes 0 (Bitmap.byteCnt b.bitCnt) fun i =>
      s.device.data (sectorSize * node.data.start + 0 + i)) j =
      bitAt (fun i => s.device.data (sectorSize * node.data.start + i)) j := by
    have here : splice b.bytes 0 (Bitmap.byteCnt b.bitCnt) (fun i =>
        s.device.data (sectorSize * node.data.start + 0 + i)) (0 + j / 8) = _ :=
      splice_inside byte
    rw [Nat.zero_add] at here
    unfold bitAt
    rw [here]
    rfl
  rw [← read, ← Bitmap.bit_ofBytes b.bitCnt, Bitmap.bit_store]
  split
  · next last =>
    have kept := Bitmap.lastMask_getLsbD (b := Bitmap.ofBytes b.bitCnt _) below last
    rw [BitVec.getLsbD_and, kept, Bool.and_true, ← last]
    rfl
  · rfl

end FileSys
end Calendarizador.Source
