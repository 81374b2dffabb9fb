import Calendarizador.Source.Inode

/-!
# Reading and writing an inode

`inode_read_at` and `inode_write_at` treat the sectors of an inode as one run of bytes: each
loop is a single `splice`.
-/
namespace Calendarizador.Source
open Foundation

/-- The sectors of an inode hold its bytes; the count has wrapped if the length is close to
its maximum, and is larger then. -/
theorem length_le_sectors {length : Int} (low : 0 ≤ length) (high : length < 2147483648) :
    length ≤ sectorSize * bytesToSectors length := by
  unfold bytesToSectors
  simp only [i32, sectorSize]
  by_cases wraps : length + 511 < 2147483648
  · rw [Int.tdiv_eq_ediv_of_nonneg (by omega)]
    omega
  · have value : (length + 511 + 2147483648) % 4294967296 - 2147483648 =
        -(4294967296 - (length + 511)) := by omega
    rw [value, Int.neg_tdiv, Int.tdiv_eq_ediv_of_nonneg (by omega)]
    omega

namespace InodeDisk

/-- The data of the inode is on a device of `size` sectors. -/
structure Inside (d : InodeDisk) (size : Nat) : Prop where
  low : 0 ≤ d.length
  high : d.length < 2147483648
  stop : d.start + bytesToSectors d.length ≤ size
  device : size < 4294967296

/-- Every byte of the data is on a device of `size` sectors. -/
structure Fits (d : InodeDisk) (size : Nat) : Prop where
  low : 0 ≤ d.length
  stop : d.start + (d.length.toNat + 511) / sectorSize ≤ size
  device : size < 4294967296

variable {d : InodeDisk} {size offset n : Nat}

theorem Inside.fits (inside : d.Inside size) : d.Fits size := by
  have most := length_le_sectors inside.low inside.high
  have stop := inside.stop
  refine ⟨inside.low, ?_, inside.device⟩
  simp only [sectorSize] at most ⊢
  omega

/-- The bytes that a read or a write of `n` bytes gets to. -/
def reach (d : InodeDisk) (n offset : Nat) : Nat := min n (d.length.toNat - offset)

theorem chunkSize_eq (low : 0 ≤ d.length) :
    d.chunkSize n offset = min (d.reach n offset) (sectorLeft offset) := by
  unfold chunkSize reach
  dsimp only
  split_ifs <;> omega

theorem Fits.byteToSector (fits : d.Fits size) (below : offset < d.length.toNat) :
    d.byteToSector offset = d.start + offset / sectorSize ∧
      d.start + offset / sectorSize < size := by
  have stop := fits.stop
  have device := fits.device
  have sector : d.start + offset / sectorSize < size := by
    simp only [sectorSize] at stop ⊢
    omega
  refine ⟨?_, sector⟩
  unfold InodeDisk.byteToSector
  rw [if_pos (by omega), sizeT_of_lt (by omega)]

end InodeDisk

namespace Block
variable {b : Block} {d : InodeDisk} {sector : Nat}

theorem read_eq (inside : sector < b.size) :
    b.read sector = .ok fun i => b.data (sectorSize * sector + i) := by
  unfold read checkSector
  rw [if_neg (by omega), ok_bind]

theorem write_eq (inside : sector < b.size) (buffer : Nat → BitVec 8) : b.write sector buffer =
      .ok { b with data := splice b.data (sectorSize * sector) sectorSize buffer } := by
  unfold write checkSector
  rw [if_neg (by omega), ok_bind]

theorem readChunk_eq {sectorIdx sectorOfs chunk : Nat} (inside : sectorIdx < b.size)
    (done : Nat) (buffer : Nat → BitVec 8) :
    b.readChunk sectorIdx sectorOfs chunk done buffer = .ok (splice buffer done chunk fun i =>
      b.data (sectorSize * sectorIdx + (sectorOfs + i))) := by
  unfold readChunk
  rw [read_eq inside, ok_bind, ok_bind]
  split
  · next whole => rw [whole.1, whole.2]; simp only [Nat.zero_add]
  · rfl

/-- Bytes put over a sector that is written back. -/
theorem splice_sector (f src : Nat → BitVec 8) {ofs n : Nat} (fits : ofs + n ≤ sectorSize) :
    splice f (sectorSize * sector) sectorSize
        (splice (fun i => f (sectorSize * sector + i)) ofs n src) =
      splice f (sectorSize * sector + ofs) n src := by
  funext x
  by_cases here : sectorSize * sector ≤ x ∧ x < sectorSize * sector + sectorSize
  · obtain ⟨i, rfl⟩ := Nat.exists_eq_add_of_le here.1
    rw [splice_inside (by omega)]
    unfold splice
    by_cases inner : ofs ≤ i ∧ i < ofs + n
    · rw [if_pos inner, if_pos (by omega)]
      congr 1
      omega
    · rw [if_neg inner, if_neg (by omega)]
  · rw [splice_outside (by omega), splice_outside (by omega)]

theorem writeChunk_eq {sectorIdx sectorOfs chunk : Nat} (inside : sectorIdx < b.size)
    (fits : sectorOfs + chunk ≤ sectorSize) (src : Nat → BitVec 8) :
    b.writeChunk sectorIdx sectorOfs chunk (sectorSize - sectorOfs) src =
      .ok { b with data := splice b.data (sectorSize * sectorIdx + sectorOfs) chunk src } := by
  unfold writeChunk
  by_cases whole : sectorOfs = 0 ∧ chunk = sectorSize
  · rw [if_pos whole, write_eq inside, whole.1, whole.2, Nat.add_zero]
  · rw [if_neg whole, if_pos (by omega), read_eq inside, ok_bind]
    exact (write_eq inside _).trans (by rw [splice_sector _ _ fits])

/-- The bytes that a round reaches, and the place of the first of them on the device. -/
structure Round (d : InodeDisk) (size offset m sectors : Nat) : Prop where
  some_ : 0 < size
  positive : m ≠ 0
  rest : d.reach size offset = m + d.reach (size - m) (offset + m)
  sector : d.byteToSector offset < sectors
  fits : offset % sectorSize + m ≤ sectorSize
  address : sectorSize * d.byteToSector offset + offset % sectorSize = sectorSize * d.start + offset

theorem round {sectors size offset : Nat} (fits : d.Fits sectors)
    (more : d.reach size offset ≠ 0) : Round d size offset (d.chunkSize size offset) sectors := by
  have chunk : d.chunkSize size offset = _ := InodeDisk.chunkSize_eq fits.low
  have left : 0 < InodeDisk.sectorLeft offset ∧
      offset % sectorSize + InodeDisk.sectorLeft offset = sectorSize := by
    simp only [InodeDisk.sectorLeft, sectorSize]
    omega
  have below : offset < d.length.toNat := by
    simp only [InodeDisk.reach] at more
    omega
  obtain ⟨sector, device⟩ := fits.byteToSector below
  refine ⟨?_, by omega, ?_, by rwa [sector], by omega, ?_⟩
  · simp only [InodeDisk.reach] at more
    omega
  · simp only [InodeDisk.reach] at chunk ⊢
    omega
  · rw [sector, Nat.mul_add, Nat.add_assoc, Nat.div_add_mod]

/-- No round is left once nothing more is reached. -/
theorem chunkSize_zero (low : 0 ≤ d.length) {size offset : Nat}
    (none_ : d.reach size offset = 0) : d.chunkSize size offset = 0 := by
  rw [InodeDisk.chunkSize_eq low, none_, Nat.zero_min]

/-- The loop of `inode_read_at`, by induction on its rounds. -/
theorem readLoop_eq (fits : d.Fits b.size) {fuel : Nat} :
    ∀ {size offset done : Nat} {buffer : Nat → BitVec 8}, size ≤ fuel →
      b.readLoop d fuel size offset done buffer = .ok (done + d.reach size offset,
        splice buffer done (d.reach size offset) fun i =>
          b.data (sectorSize * d.start + offset + i)) := by
  induction fuel with
  | zero =>
    intro size offset done buffer enough
    obtain rfl : size = 0 := by omega
    have none_ : d.reach 0 offset = 0 := Nat.zero_min _
    rw [none_, splice_zero]
    rfl
  | succ fuel ih =>
    intro size offset done buffer enough
    unfold readLoop
    by_cases stop : d.reach size offset = 0
    · rw [stop, splice_zero, chunkSize_zero fits.low stop]
      exact ite_self _
    have here := round fits stop
    generalize d.chunkSize size offset = m at here
    have fewer : size - m ≤ fuel := by
      have positive := here.positive
      omega
    rw [if_pos here.some_, if_neg here.positive, readChunk_eq here.sector, ok_bind, ih fewer,
      here.rest, ← splice_append]
    simp only [← Nat.add_assoc, here.address]

/-- The loop of `inode_write_at`, by induction on its rounds. -/
theorem writeLoop_eq {buffer : Nat → BitVec 8} {fuel : Nat} :
    ∀ {b : Block} {size offset done : Nat}, d.Fits b.size → size ≤ fuel →
      writeLoop d buffer fuel b size offset done = .ok (done + d.reach size offset,
        { b with
          data := splice b.data (sectorSize * d.start + offset) (d.reach size offset) fun i =>
            buffer (done + i) }) := by
  induction fuel with
  | zero =>
    intro b size offset done fits enough
    obtain rfl : size = 0 := by omega
    have none_ : d.reach 0 offset = 0 := Nat.zero_min _
    rw [none_, splice_zero]
    rfl
  | succ fuel ih =>
    intro b size offset done fits enough
    unfold writeLoop
    by_cases stop : d.reach size offset = 0
    · rw [stop, splice_zero, chunkSize_zero fits.low stop]
      exact ite_self _
    have here := round fits stop
    generalize d.chunkSize size offset = m at here
    have fewer : size - m ≤ fuel := by
      have positive := here.positive
      omega
    have next (data : Nat → BitVec 8) :=
      @ih { b with data } (size - m) (offset + m) (done + m) fits fewer
    rw [if_pos here.some_, if_neg here.positive, InodeDisk.sectorLeft,
      writeChunk_eq here.sector here.fits, ok_bind, next, here.rest, ← splice_append]
    simp only [← Nat.add_assoc, here.address]

end Block

namespace FileSys
variable {s : FileSys} {sector : Nat} {node : Inode}

theorem inode_eq (open_ : s.openInodes sector = some node) : s.inode sector = .ok node := by
  rw [inode, open_]

/-- `inode_read_at` reads the bytes of the inode from `offset` on. -/
theorem inodeReadAt_eq (open_ : s.openInodes sector = some node)
    (fits : node.data.Fits s.device.size) (buffer : Nat → BitVec 8) (size offset : Nat) :
    s.inodeReadAt sector buffer size offset = .ok (node.data.reach size offset,
      splice buffer 0 (node.data.reach size offset) fun i =>
        s.device.data (sectorSize * node.data.start + offset + i)) := by
  unfold inodeReadAt
  rw [inode_eq open_, ok_bind, Block.readLoop_eq fits (le_refl size), Nat.zero_add]

/-- The state after the bytes of `buffer` were put at the byte `a` of the device. -/
def put (s : FileSys) (a n : Nat) (buffer : Nat → BitVec 8) : FileSys :=
  s.setDevice { s.device with data := splice s.device.data a n buffer }

@[simp]
theorem put_data (s : FileSys) (a n : Nat) (buffer : Nat → BitVec 8) :
    (s.put a n buffer).device.data = splice s.device.data a n buffer := rfl

/-- `inode_write_at` replaces the bytes of the inode from `offset` on. -/
theorem inodeWriteAt_eq (open_ : s.openInodes sector = some node) (allowed : node.denyWriteCnt = 0)
    (fits : node.data.Fits s.device.size) (buffer : Nat → BitVec 8) (size offset : Nat) :
    s.inodeWriteAt sector buffer size offset = .ok (node.data.reach size offset,
      s.put (sectorSize * node.data.start + offset) (node.data.reach size offset) buffer) := by
  unfold inodeWriteAt
  rw [inode_eq open_, ok_bind, if_neg (not_not.mpr allowed),
    Block.writeLoop_eq fits (le_refl size), ok_bind]
  simp only [Nat.zero_add]
  rfl

end FileSys
end Calendarizador.Source
