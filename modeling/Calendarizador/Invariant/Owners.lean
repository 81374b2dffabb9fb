import Calendarizador.Invariant.FreeMap
import Calendarizador.Source.FileSystem

/-!
# Owners of sectors

`Sound s live`: the files whose inodes are in the sectors `live` own their sectors alone, and
the free map marks them as used. Each operation on inodes keeps this for a set that grows
when an inode is created and shrinks when a removed one is closed for the last time.
-/
namespace Calendarizador.Source
open Foundation

namespace InodeDisk

theorem ofBytes_congr {f g : Nat → BitVec 8} (same : ∀ i < 12, f i = g i) :
    ofBytes f = ofBytes g := by
  have word (a : Nat) (small : a + 4 ≤ 12) : wordAt f a = wordAt g a :=
    wordAt_congr fun i below => same _ (by omega)
  unfold ofBytes
  rw [word 0 (by decide), word 4 (by decide), word 8 (by decide)]

/-- An inode reads back from its bytes. -/
theorem ofBytes_bytes {d : InodeDisk} {f : Nat → BitVec 8} (start : d.start < 4294967296)
    (low : -2147483648 ≤ d.length) (high : d.length < 2147483648) (magic : d.magic < 4294967296)
    (same : ∀ i < 12, f i = d.bytes i) : ofBytes f = d := by
  have first : wordAt f 0 = d.start := by
    refine wordAt_of_bytes start fun i below => ?_
    rw [same _ (by omega), Nat.zero_add, bytes, if_pos below]
  have second : wordAt f 4 = (d.length % 4294967296).toNat := by
    refine wordAt_of_bytes (by omega) fun i below => ?_
    rw [same _ (by omega), bytes, if_neg (by omega), if_pos (by omega), Nat.add_sub_cancel_left]
  have third : wordAt f 8 = d.magic := by
    refine wordAt_of_bytes magic fun i below => ?_
    rw [same _ (by omega), bytes, if_neg (by omega), if_neg (by omega), if_pos (by omega),
      Nat.add_sub_cancel_left]
  unfold ofBytes
  rw [first, second, third]
  ext
  · rfl
  · simp only [i32]
    omega
  · rfl

end InodeDisk

namespace FileSys

/-- The sector has not been written to. -/
def SameSector (s after : FileSys) (n : Nat) : Prop :=
  ∀ i < sectorSize, after.device.data (sectorSize * n + i) = s.device.data (sectorSize * n + i)

section
variable {s middle after : FileSys} {sector n : Nat}

theorem SameSector.trans (first : SameSector s middle n) (second : SameSector middle after n) :
    SameSector s after n := fun i below => (second i below).trans (first i below)

theorem SameSector.inodeAt (same : SameSector s after sector) :
    after.inodeAt sector = s.inodeAt sector :=
  InodeDisk.ofBytes_congr fun i below => same i (by simp only [sectorSize]; omega)

theorem SameSector.extent (same : SameSector s after sector) :
    after.extent sector = s.extent sector := by
  rw [FileSys.extent, same.inodeAt]
  rfl

theorem SameSector.owns (same : SameSector s after sector) :
    after.Owns sector n ↔ s.Owns sector n := by
  rw [Owns, same.extent]
  rfl

/-- The data of an inode whose sectors have not been written to. -/
theorem SameSector.content (same : SameSector s after sector)
    (data : ∀ n ∈ s.extent sector, SameSector s after n) {size i : Nat}
    (inside : (s.inodeAt sector).Inside size) (below : i < (s.inodeAt sector).length) :
    after.content sector i = s.content sector i := by
  have most := length_le_sectors inside.low inside.high
  have here : (s.inodeAt sector).start + i / sectorSize ∈ s.extent sector := by
    simp only [FileSys.extent, Span.mem_iff, Span.stop, sectorSize] at most ⊢
    omega
  have byte := data _ here (i % sectorSize) (Nat.mod_lt _ (by decide))
  have address : sectorSize * ((s.inodeAt sector).start + i / sectorSize) + i % sectorSize =
      sectorSize * (s.inodeAt sector).start + i := by
    rw [Nat.mul_add, Nat.add_assoc, Nat.div_add_mod]
  rw [address] at byte
  unfold FileSys.content
  rw [same.inodeAt, byte]

theorem put_same {a m : Nat} {buffer : Nat → BitVec 8}
    (outside : sectorSize * n + sectorSize ≤ a ∨ a + m ≤ sectorSize * n) :
    SameSector s (s.put a m buffer) n := by
  intro i below
  exact splice_outside (by omega)

/-- A write to an inode changes only sectors of its data. -/
theorem put_data_same {d : InodeDisk} {size : Nat} (offset m : Nat) (buffer : Nat → BitVec 8)
    (inside : d.Inside size) (other : n ∉ (⟨d.start, bytesToSectors d.length⟩ : Span)) :
    SameSector s (s.put (sectorSize * d.start + offset) (d.reach m offset) buffer) n := by
  have most := length_le_sectors inside.low inside.high
  intro i below
  simp only [Span.mem_iff, Span.stop] at other
  refine splice_outside ?_
  simp only [InodeDisk.reach, sectorSize] at most below ⊢
  omega

end

/-- The inodes in the sectors `live` own their sectors alone. -/
structure Sound (s : FileSys) (live : Nat → Prop) : Prop where
  mounted : s.Mounted (s.inodeAt freeMapSector)
  synced : s.Synced (s.inodeAt freeMapSector)
  free_map : live freeMapSector
  cached : ∀ sector node, s.openInodes sector = some node →
    live sector ∧ node.data = s.inodeAt sector
  inside : ∀ sector, live sector →
    sector < s.device.size ∧ (s.inodeAt sector).Inside s.device.size
  used : ∀ sector n, live sector → s.Owns sector n → s.freeMap.bit n = true
  self : ∀ sector, live sector → sector ∉ s.extent sector
  one : ∀ sector other n, live sector → live other → s.Owns sector n → s.Owns other n →
    sector = other

namespace Sound
variable {s : FileSys} {live : Nat → Prop} (ok : s.Sound live)
include ok
variable {sector : Nat}

theorem lt_size {n : Nat} (member : live sector) (owns : s.Owns sector n) : n < s.device.size := by
  obtain ⟨below, inside⟩ := ok.inside sector member
  rcases owns with rfl | data
  · exact below
  · have stop := inside.stop
    simp only [FileSys.extent, Span.mem_iff, Span.stop] at data
    omega

/-- An inode is not among the data of another, nor among its own. -/
theorem not_mem_extent {other : Nat} (member : live sector) (member' : live other) :
    sector ∉ s.extent other := by
  intro data
  obtain rfl := ok.one sector other sector member member' (.inl rfl) (.inr data)
  exact ok.self sector member data

/-- A smaller set of owners. -/
theorem mono {fewer : Nat → Prop} (below : ∀ sector, fewer sector → live sector)
    (free_map : fewer freeMapSector)
    (cached : ∀ sector, s.openInodes sector ≠ none → fewer sector) : s.Sound fewer where
  mounted := ok.mounted
  synced := ok.synced
  free_map := free_map
  cached sector node open_ :=
    ⟨cached sector (by rw [open_]; simp), (ok.cached sector node open_).2⟩
  inside sector member := ok.inside sector (below _ member)
  used sector n member := ok.used sector n (below _ member)
  self sector member := ok.self sector (below _ member)
  one sector other n member member' := ok.one sector other n (below _ member) (below _ member')

/-- One more owner, of sectors that are marked as used and belong to nobody else. -/
theorem add (below : sector < s.device.size) (inside : (s.inodeAt sector).Inside s.device.size)
    (used : ∀ n, s.Owns sector n → s.freeMap.bit n = true) (self : sector ∉ s.extent sector)
    (apart : ∀ other n, live other → s.Owns other n → ¬ s.Owns sector n) :
    s.Sound fun other => live other ∨ other = sector where
  mounted := ok.mounted
  synced := ok.synced
  free_map := .inl ok.free_map
  cached other node open_ := ⟨.inl (ok.cached other node open_).1, (ok.cached other node open_).2⟩
  inside := by
    rintro other (member | rfl)
    · exact ok.inside other member
    · exact ⟨below, inside⟩
  used := by
    rintro other n (member | rfl) owns
    · exact ok.used other n member owns
    · exact used n owns
  self := by
    rintro other (member | rfl)
    · exact ok.self other member
    · exact self
  one := by
    rintro first second n (member | rfl) (member' | rfl) owns owns'
    · exact ok.one first second n member member' owns owns'
    · exact absurd owns' (apart first n member owns)
    · exact absurd owns (apart second n member' owns')
    · rfl

/-- A state in which the inodes are as they were. -/
theorem of_same {after : FileSys} (size : after.device.size = s.device.size)
    (table : after.openInodes = s.openInodes)
    (inodes : ∀ sector, live sector → SameSector s after sector)
    (mounted : after.Mounted (s.inodeAt freeMapSector))
    (synced : after.Synced (s.inodeAt freeMapSector))
    (used : ∀ sector n, live sector → s.Owns sector n → after.freeMap.bit n = true) :
    after.Sound live := by
  have fm := (inodes _ ok.free_map).inodeAt
  refine ⟨fm ▸ mounted, fm ▸ synced, ok.free_map, ?_, ?_, ?_, ?_, ?_⟩
  · intro sector node open_
    rw [table] at open_
    obtain ⟨member, data⟩ := ok.cached sector node open_
    exact ⟨member, data.trans (inodes sector member).inodeAt.symm⟩
  · intro sector member
    rw [(inodes sector member).inodeAt, size]
    exact ok.inside sector member
  · intro sector n member owns
    exact used sector n member ((inodes sector member).owns.mp owns)
  · intro sector member
    rw [(inodes sector member).extent]
    exact ok.self sector member
  · intro sector other n member member' owns owns'
    exact ok.one sector other n member member' ((inodes sector member).owns.mp owns)
      ((inodes other member').owns.mp owns')

/-- Writes that spare the inodes and the free map file. -/
theorem setDevice {device : Block} (size : device.size = s.device.size)
    (inodes : ∀ sector, live sector → SameSector s (s.setDevice device) sector)
    (map : ∀ n ∈ s.extent freeMapSector, SameSector s (s.setDevice device) n) :
    (s.setDevice device).Sound live := by
  have mounted := ok.mounted
  have length := mounted.length
  refine ok.of_same size rfl inodes ?_ ?_ ok.used
  · refine ⟨?_, ?_, ?_, mounted.file, mounted.node, ?_, ?_⟩
    all_goals simp only [setDevice_device, setDevice_freeMap, size]
    · exact mounted.some_
    · exact mounted.few
    · exact mounted.bits
    · exact length
    · exact mounted.inside
  · intro j below
    rw [setDevice_device, size] at below
    have byte : ((j / 8 : Nat) : Int) < (s.inodeAt freeMapSector).length := by
      simp only [length, Bitmap.byteCnt, Bitmap.elemCnt, divRoundUp]
      omega
    have same := (inodes _ ok.free_map).content map mounted.inside byte
    unfold FileSys.content at same
    rw [(inodes _ ok.free_map).inodeAt] at same
    have synced := ok.synced j below
    unfold bitAt at synced ⊢
    dsimp only at synced ⊢
    rwa [same]

/-- A change of the open inodes that leaves the free map file open. -/
theorem setInode (node : Option Inode) (other : sector ≠ freeMapSector)
    (data : ∀ n ∈ node, live sector ∧ n.data = s.inodeAt sector) :
    (s.setInode sector node).Sound live where
  mounted := { ok.mounted with
    node := by
      rw [setInode_openInodes, Function.update_of_ne other.symm]
      exact ok.mounted.node }
  synced := ok.synced
  free_map := ok.free_map
  cached := by
    intro other' node' open_
    rw [setInode_openInodes, Function.update_apply] at open_
    split at open_
    · next same => exact same ▸ data node' open_
    · exact ok.cached other' node' open_
  inside := ok.inside
  used := ok.used
  self := ok.self
  one := ok.one

/-- Saving the free map changes only the data of its file. -/
theorem saveMap_same {b : Bitmap} (size : b.bitCnt = s.freeMap.bitCnt) {n : Nat}
    (other : n ∉ s.extent freeMapSector) :
    SameSector s (s.saveMap (s.inodeAt freeMapSector) b) n := by
  have same := put_data_same (s := s.setFreeMap b) 0 (Bitmap.byteCnt b.bitCnt) b.bytes
    ok.mounted.inside other
  rw [size, ok.mounted.reach, ← size] at same
  exact same

/-- The free map is changed and saved; sectors with an owner stay marked. -/
theorem saveMap {b : Bitmap} (size : b.bitCnt = s.freeMap.bitCnt)
    (used : ∀ sector n, live sector → s.Owns sector n → b.bit n = true) :
    (s.saveMap (s.inodeAt freeMapSector) b).Sound live := by
  refine ok.of_same rfl rfl (fun sector member => ?_) (ok.mounted.saveMap size)
    (synced_saveMap ok.mounted size) used
  exact ok.saveMap_same size (ok.not_mem_extent member ok.free_map)

end Sound

/-! ## What is kept -/

/-- Of what has an owner in `live`, only data of files in `written` was written to. -/
structure Keeps (live written : Nat → Prop) (s after : FileSys) : Prop where
  size : after.device.size = s.device.size
  same : ∀ sector n, live sector → s.Owns sector n → (n = sector ∨ ¬ written sector) →
    SameSector s after n

section
variable {live written : Nat → Prop} {s middle after : FileSys}

/-- States that differ in memory only. -/
theorem Keeps.of_device_eq (live written : Nat → Prop) (device : after.device = s.device) :
    Keeps live written s after := by
  refine ⟨congrArg Block.size device, fun sector n _ _ _ i _ => ?_⟩
  rw [device]

theorem Keeps.mono {fewer more : Nat → Prop} (keeps : Keeps live written s after)
    (below : ∀ sector, fewer sector → live sector)
    (above : ∀ sector, written sector → more sector) : Keeps fewer more s after :=
  ⟨keeps.size, fun sector n member owns spared =>
    keeps.same sector n (below _ member) owns (spared.imp_right fun not => not ∘ above sector)⟩

theorem Keeps.inode (keeps : Keeps live written s after) {sector : Nat} (member : live sector) :
    SameSector s after sector :=
  keeps.same sector sector member (.inl rfl) (.inl rfl)

theorem Keeps.trans (first : Keeps live written s middle)
    (second : Keeps live written middle after) : Keeps live written s after := by
  refine ⟨second.size.trans first.size, fun sector n member owns spared => ?_⟩
  exact (first.same sector n member owns spared).trans
    (second.same sector n member ((first.inode member).owns.mpr owns) spared)

/-- The same between states that differ from these in memory only. -/
theorem Keeps.congr {s' after' : FileSys} (keeps : Keeps live written s after)
    (before : s'.device = s.device) (behind : after'.device = after.device) :
    Keeps live written s' after' := by
  have first : Keeps live written s' s := .of_device_eq _ _ before.symm
  have last : Keeps live written after after' := .of_device_eq _ _ behind
  exact (first.trans keeps).trans last

/-- A file that is not written to keeps its data. -/
theorem Keeps.content (keeps : Keeps live written s after) (ok : s.Sound live) {sector i : Nat}
    (member : live sector) (other : ¬ written sector) (below : i < (s.inodeAt sector).length) :
    after.content sector i = s.content sector i :=
  (keeps.inode member).content (fun n data => keeps.same sector n member (.inr data) (.inr other))
    (ok.inside sector member).2 below

theorem Sound.keeps_saveMap (ok : s.Sound live) {b : Bitmap} (size : b.bitCnt = s.freeMap.bitCnt) :
    Keeps live (· = freeMapSector) s (s.saveMap (s.inodeAt freeMapSector) b) := by
  refine ⟨rfl, fun sector n member owns spared => ok.saveMap_same size fun data => ?_⟩
  obtain rfl := ok.one sector freeMapSector n member ok.free_map owns (.inr data)
  rcases spared with rfl | other
  · exact ok.self _ member data
  · exact other rfl

end

/-! ## Allocating and releasing sectors -/

section
variable {live : Nat → Prop} {s : FileSys} (ok : s.Sound live)
include ok

/-- `free_map_allocate` takes sectors that nobody owns. -/
theorem Sound.allocate (cnt : Nat) :
    (∃ sector after, s.freeMapAllocate cnt = .ok (some sector, after) ∧ after.Sound live ∧
      Keeps live (· = freeMapSector) s after ∧ after.openInodes = s.openInodes ∧
      s.freeMap.Group false cnt sector ∧ (∀ k < sector, ¬ s.freeMap.Group false cnt k) ∧
      ∀ n, after.freeMap.bit n =
        if n ∈ (⟨sector, cnt⟩ : Span) then true else s.freeMap.bit n) ∨
    (s.freeMapAllocate cnt = .ok (none, s) ∧ ∀ k, ¬ s.freeMap.Group false cnt k) := by
  refine (ok.mounted.allocate cnt).imp_left ?_
  rintro ⟨sector, b, allocated, group, first, size, bits⟩
  refine ⟨sector, _, allocated, ok.saveMap size ?_, ok.keeps_saveMap size, rfl, group, first, bits⟩
  intro owner n member owns
  rw [bits]
  split
  · rfl
  · exact ok.used owner n member owns

/-- `free_map_release` of sectors that are marked and have no owner. -/
theorem Sound.release (sector cnt : Nat) (inside : sector + cnt ≤ s.device.size)
    (marked : ∀ n ∈ (⟨sector, cnt⟩ : Span), s.freeMap.bit n = true)
    (free : ∀ owner n, live owner → s.Owns owner n → n ∉ (⟨sector, cnt⟩ : Span)) :
    ∃ after, s.freeMapRelease sector cnt = .ok after ∧ after.Sound live ∧
      Keeps live (· = freeMapSector) s after ∧ after.openInodes = s.openInodes ∧
      ∀ n, after.freeMap.bit n =
        if n ∈ (⟨sector, cnt⟩ : Span) then false else s.freeMap.bit n := by
  have group : s.freeMap.Group true cnt sector := ⟨by rwa [ok.mounted.bits], marked⟩
  obtain ⟨b, released, size, bits⟩ := ok.mounted.release group
  refine ⟨_, released, ok.saveMap size ?_, ok.keeps_saveMap size, rfl, bits⟩
  intro owner n member owns
  rw [bits, if_neg (free owner n member owns)]
  exact ok.used owner n member owns

end

/-! ## Creating an inode -/

/-- The zeros in front of the sector `start + cnt`, by induction on their number. -/
theorem writeZeros_eq (device : Block) {start cnt : Nat} (inside : start + cnt ≤ device.size)
    (small : device.size < 4294967296) : writeZeros device start cnt = .ok { device with
      data := splice device.data (sectorSize * start) (sectorSize * cnt) fun _ => 0 } := by
  unfold writeZeros
  induction cnt with
  | zero =>
    rw [Nat.mul_zero, splice_zero]
    rfl
  | succ cnt ih =>
    rw [List.range_succ, List.foldlM_append, ih (by omega), ok_bind]
    have sector : sizeT (start + cnt) = start + cnt := sizeT_of_lt (by omega)
    have address : sectorSize * (start + cnt) = sectorSize * start + sectorSize * cnt :=
      Nat.mul_add _ _ _
    have zeros := splice_append device.data (fun _ => 0#8) (sectorSize * start)
      (sectorSize * cnt) sectorSize
    have written (data : Nat → BitVec 8) := Block.write_eq (b := ⟨device.size, data⟩)
      (show start + cnt < device.size by omega) fun _ => 0
    change (Block.write _ (sizeT (start + cnt)) _ >>= pure) = _
    rw [bind_pure, sector, Nat.mul_succ, written, address]
    exact congrArg (fun data => Except.ok (Block.mk device.size data)) zeros

/-- The state after an inode and its zeros were written. -/
def newInode (s : FileSys) (sector start : Nat) (length : Int) : FileSys :=
  (s.put (sectorSize * sector) sectorSize (InodeDisk.bytes ⟨start, length, inodeMagic⟩)).put
    (sectorSize * start) (sectorSize * bytesToSectors length) fun _ => 0

theorem inodeCreate_eq {s after : FileSys} {sector start : Nat} {length : Int} (low : 0 ≤ length)
    (allocated : s.freeMapAllocate (bytesToSectors length) = .ok (some start, after))
    (below : sector < after.device.size) (stop : start + bytesToSectors length ≤ after.device.size)
    (small : after.device.size < 4294967296) :
    s.inodeCreate sector length = .ok (true, after.newInode sector start length) := by
  have zeros (data : Nat → BitVec 8) :=
    writeZeros_eq ⟨after.device.size, data⟩ stop small
  unfold inodeCreate
  rw [ensure_bind low]
  dsimp only
  rw [allocated, ok_bind]
  dsimp only
  rw [Block.write_eq below, ok_bind, zeros]
  rfl

section
variable {s : FileSys} {sector start : Nat} {length : Int}

theorem newInode_same {n : Nat} (other : n ≠ sector)
    (outside : n ∉ (⟨start, bytesToSectors length⟩ : Span)) :
    SameSector s (s.newInode sector start length) n := by
  simp only [Span.mem_iff, Span.stop] at outside
  refine .trans (put_same ?_) (put_same ?_)
  all_goals
    simp only [sectorSize]
    omega

/-- The new inode can be read back. -/
theorem newInode_inodeAt (small : start < 4294967296) (low : 0 ≤ length)
    (high : length < 2147483648) (outside : sector ∉ (⟨start, bytesToSectors length⟩ : Span)) :
    (s.newInode sector start length).inodeAt sector = ⟨start, length, inodeMagic⟩ := by
  have magic : inodeMagic < 4294967296 := by decide
  have lower : -2147483648 ≤ length := by omega
  refine InodeDisk.ofBytes_bytes (d := ⟨start, length, inodeMagic⟩) small lower high magic
    fun i below => ?_
  simp only [Span.mem_iff, Span.stop] at outside
  simp only [newInode, put_data]
  rw [splice_outside, splice_inside (by simp only [sectorSize]; omega)]
  simp only [sectorSize]
  omega

/-- The data of the new inode is zeros. -/
theorem newInode_content {i : Nat} (small : start < 4294967296) (low : 0 ≤ length)
    (high : length < 2147483648) (outside : sector ∉ (⟨start, bytesToSectors length⟩ : Span))
    (below : i < length) : (s.newInode sector start length).content sector i = 0 := by
  have most := length_le_sectors low high
  unfold FileSys.content
  rw [newInode_inodeAt small low high outside]
  simp only [newInode, put_data]
  exact splice_inside (by omega)

end

/-- `inode_create` in a sector that is marked and has no owner. -/
theorem Sound.inodeCreate {s : FileSys} {live : Nat → Prop} (ok : s.Sound live) {sector : Nat}
    {length : Int} (below : sector < s.device.size) (marked : s.freeMap.bit sector = true)
    (free : ∀ owner, live owner → ¬ s.Owns owner sector) (low : 0 ≤ length)
    (high : length < 2147483648) : (∃ after, s.inodeCreate sector length = .ok (true, after) ∧
      after.Sound (fun other => live other ∨ other = sector) ∧
      Keeps live (· = freeMapSector) s after ∧ after.openInodes = s.openInodes ∧
      (after.inodeAt sector).length = length ∧
      (∀ i : Nat, i < length → after.content sector i = 0) ∧
      ∃ start, s.freeMap.Group false (bytesToSectors length) start ∧
        ∀ n, after.freeMap.bit n =
          if n ∈ (⟨start, bytesToSectors length⟩ : Span) then true else s.freeMap.bit n) ∨
    (s.inodeCreate sector length = .ok (false, s) ∧
      ∀ k, ¬ s.freeMap.Group false (bytesToSectors length) k) := by
  rcases ok.allocate (bytesToSectors length) with
    ⟨start, middle, allocated, okMiddle, keeps, table, group, -, bits⟩ | ⟨failed, none_⟩
  · left
    have size := keeps.size
    have stop := group.1
    rw [ok.mounted.bits] at stop
    have clear := group.2
    have few := ok.mounted.few
    have outside : sector ∉ (⟨start, bytesToSectors length⟩ : Span) := fun inside => by
      have bit := clear sector inside
      rw [marked] at bit
      cases bit
    -- nothing that has an owner is written to
    have spared : ∀ owner n, live owner → middle.Owns owner n →
        n ≠ sector ∧ n ∉ (⟨start, bytesToSectors length⟩ : Span) := by
      intro owner n member owns
      have owns' := (keeps.inode member).owns.mp owns
      refine ⟨fun equal => free owner member (equal ▸ owns'), fun inside => ?_⟩
      have bit := clear n inside
      rw [ok.used owner n member owns'] at bit
      cases bit
    have same : ∀ owner n, live owner → middle.Owns owner n →
        SameSector middle (middle.newInode sector start length) n := fun owner n member owns =>
      newInode_same (spared owner n member owns).1 (spared owner n member owns).2
    have keeps' : Keeps live (· = freeMapSector) middle (middle.newInode sector start length) :=
      ⟨rfl, fun owner n member owns _ => same owner n member owns⟩
    have okAfter : (middle.newInode sector start length).Sound live :=
      okMiddle.setDevice rfl (fun owner member => same owner owner member (.inl rfl))
        fun n inside => same freeMapSector n ok.free_map (.inr inside)
    have word : start < 4294967296 := by omega
    have data := newInode_inodeAt (s := middle) word low high outside
    have span : (middle.newInode sector start length).extent sector =
        ⟨start, bytesToSectors length⟩ := by
      rw [FileSys.extent, data]
    have marks : ∀ n, s.freeMap.bit n = true → middle.freeMap.bit n = true := by
      intro n bit
      rw [bits, bit, ite_self]
    refine ⟨_, inodeCreate_eq low allocated (by omega) (by omega) (by omega), ?_,
      keeps.trans keeps', table, by rw [data],
      fun i inside => newInode_content word low high outside inside, start, group, bits⟩
    refine okAfter.add (size ▸ below) ?_ ?_ (by rwa [span]) ?_
    · rw [data]
      exact ⟨low, high, size ▸ stop, by change middle.device.size < _; omega⟩
    · rintro n (rfl | inside)
      · exact marks n marked
      · rw [span] at inside
        change middle.freeMap.bit n = true
        rw [bits, if_pos inside]
    · intro owner n member owns new
      have before := (keeps'.inode member).owns.mp owns
      obtain ⟨other, outside'⟩ := spared owner n member before
      rcases new with equal | inside
      · exact other equal
      · rw [span] at inside
        exact outside' inside
  · refine .inr ⟨?_, none_⟩
    unfold FileSys.inodeCreate
    rw [ensure_bind low]
    dsimp only
    rw [failed]
    rfl

end FileSys
end Calendarizador.Source
