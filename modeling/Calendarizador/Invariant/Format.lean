import Calendarizador.Invariant.Volume

/-!
# Formatting and mounting

`free_map_open` gets back from the device what the free map held when its file was written
last; `do_format` leaves the free map file and an empty root directory.
-/
namespace Calendarizador.Source
open Foundation Function

namespace FileSys
variable {s after : FileSys}

/-! ## The free map in memory -/

theorem freeMapInit_eq (some_ : 0 < s.device.size) (few : s.device.size + 31 < 4294967296)
    (bits : Nat → BitVec 32) :
    ∃ b, s.freeMapInit bits = .ok (s.setFreeMap b) ∧ b.bitCnt = s.device.size ∧
      b.bit freeMapSector = true ∧ b.bit rootDirSector = true := by
  have fits : s.device.size < 4294967296 := by omega
  have all : 0 + s.device.size ≤ (⟨s.device.size, bits⟩ : Bitmap).bitCnt := by
    rw [Nat.zero_add]
  obtain ⟨b, cleared, size, values⟩ := Bitmap.setMultiple_spec fits all false
  refine ⟨(b.mark freeMapSector).mark rootDirSector, ?_, size, ?_, ?_⟩
  · have enough : ¬ (sizeT (s.device.size + 31) / 32 = 0 ∧ s.device.size ≠ 0) := by
      rw [sizeT_of_lt few]
      omega
    unfold freeMapInit Bitmap.create Bitmap.setAll
    rw [if_neg enough, cleared]
    change (if b.bitCnt = 0 then _ else _) = _
    rw [if_neg (by omega)]
  · rw [Bitmap.bit_mark, Bitmap.bit_mark]
    rfl
  · rw [Bitmap.bit_mark]
    rfl

/-- `free_map_init` fails if there is no sector, or so many that their count overflows. -/
theorem size_of_freeMapInit {bits : Nat → BitVec 32} (small : s.device.size < 4294967296)
    (done : s.freeMapInit bits = .ok after) :
    0 < s.device.size ∧ s.device.size + 31 < 4294967296 := by
  by_contra outside
  unfold freeMapInit Bitmap.create at done
  by_cases zero : s.device.size = 0
  · rw [if_neg (by omega), zero] at done
    cases done
  · have wrapped : sizeT (s.device.size + 31) / 32 = 0 := by
      unfold sizeT
      omega
    rw [if_pos ⟨wrapped, zero⟩] at done
    cases done

/-! ## Mounting -/

theorem freeMapOpen_spec (closed : s.openInodes freeMapSector = none)
    (some_ : 0 < s.device.size) (bits : s.freeMap.bitCnt = s.device.size)
    (length : (s.inodeAt freeMapSector).length = Bitmap.byteCnt s.device.size)
    (inside : (s.inodeAt freeMapSector).Inside s.device.size) :
    ∃ b, s.freeMapOpen = .ok (((s.setInode freeMapSector
        (some ⟨1, false, 0, s.inodeAt freeMapSector⟩)).setFreeMapFile
          (some ⟨freeMapSector, 0, false⟩)).setFreeMap b) ∧
      b.bitCnt = s.device.size ∧
      ∀ j < s.device.size, b.bit j = bitAt (fun i => s.content freeMapSector i) j := by
  have node : s.reopened freeMapSector = ⟨1, false, 0, s.inodeAt freeMapSector⟩ := by
    rw [FileSys.reopened, closed]
  have opened : s.inodeOpen freeMapSector true = _ := inodeOpen_eq some_
  rw [node] at opened
  let mounted := (s.setInode freeMapSector
    (some ⟨1, false, 0, s.inodeAt freeMapSector⟩)).setFreeMapFile (some ⟨freeMapSector, 0, false⟩)
  have open_ : mounted.openInodes freeMapSector =
      some ⟨1, false, 0, s.inodeAt freeMapSector⟩ :=
    update_self freeMapSector _ s.openInodes
  obtain ⟨b, read, size, values⟩ := bitmapRead_spec ⟨freeMapSector, 0, false⟩ s.freeMap open_
    inside (by omega) (by rw [bits]; exact length)
  refine ⟨b, ?_, size.trans bits, fun j below => values j (by omega)⟩
  unfold freeMapOpen
  rw [opened, ok_bind]
  change (mounted.bitmapRead s.freeMap ⟨freeMapSector, 0, false⟩ >>= _) = _
  rw [read]
  rfl

/-- The free map file is closed and opened again: nothing changes but bits behind the last
sector. -/
theorem Sound.remount {live : Nat → Prop} (ok : s.Sound live) (closed : FileSys)
    (device : closed.device = s.device) (off : closed.openInodes freeMapSector = none)
    (others : ∀ o, o ≠ freeMapSector → closed.openInodes o = s.openInodes o)
    (size : closed.freeMap.bitCnt = s.device.size) :
    ∃ after, closed.freeMapOpen = .ok after ∧ after.device = s.device ∧
      after.openInodes = s.openInodes ∧ after.freeMap.bitCnt = s.device.size ∧
      (∀ j < s.device.size, after.freeMap.bit j = s.freeMap.bit j) ∧ after.Sound live := by
  have mounted := ok.mounted
  have inode (o : Nat) : closed.inodeAt o = s.inodeAt o := by
    unfold FileSys.inodeAt
    rw [device]
  obtain ⟨b, opened, count, values⟩ := freeMapOpen_spec off (device ▸ mounted.some_)
    (device ▸ size) (by rw [inode, device]; exact mounted.length)
    (by rw [inode, device]; exact mounted.inside)
  rw [device] at count values
  have table : (closed.setInode freeMapSector
      (some ⟨1, false, 0, closed.inodeAt freeMapSector⟩)).openInodes = s.openInodes := by
    funext o
    rw [setInode_openInodes, update_apply, inode]
    split
    · next same => rw [same, mounted.node]
    · next other => exact others o other
  have same : ∀ j < s.device.size, b.bit j = s.freeMap.bit j := by
    intro j below
    have content : (fun i => closed.content freeMapSector i) =
        fun i => s.device.data (sectorSize * (s.inodeAt freeMapSector).start + i) := by
      unfold FileSys.content
      rw [inode, device]
    rw [values j below, content]
    exact ok.synced j below
  refine ⟨_, opened, device, table, count, same, ok.of_same ?_ table ?_ ?_ ?_ ?_⟩
  · exact congrArg Block.size device
  · intro o _ i _
    change closed.device.data _ = _
    rw [device]
  · refine ⟨?_, ?_, ?_, rfl, table ▸ mounted.node, ?_, ?_⟩
    all_goals simp only [setFreeMap_device, setFreeMapFile_device, setInode_device, device]
    · exact mounted.some_
    · exact mounted.few
    · exact count
    · exact mounted.length
    · exact mounted.inside
  · intro j below
    change j < closed.device.size at below
    rw [device] at below
    refine Eq.trans ?_ ((ok.synced j below).trans (same j below).symm)
    change bitAt (fun i => closed.device.data _) j = _
    rw [device]
  · intro o n member owns
    exact (same n (ok.lt_size member owns)).trans (ok.used o n member owns)

/-! ## Formatting -/

/-- What `free_map_init` leaves for `do_format`. -/
structure Blank (s : FileSys) : Prop where
  some_ : 0 < s.device.size
  few : s.device.size + 31 < 4294967296
  bits : s.freeMap.bitCnt = s.device.size
  map : s.freeMap.bit freeMapSector = true
  root : s.freeMap.bit rootDirSector = true
  file : s.freeMapFile = none
  closed : ∀ o, s.openInodes o = none

/-- The state between the two creations of `do_format`: the free map file owns its sectors,
and the sector of the root directory is marked and nobody's. -/
structure MapOnly (s : FileSys) : Prop where
  sound : s.Sound (· = freeMapSector)
  closed : ∀ o, o ≠ freeMapSector → s.openInodes o = none
  inside : rootDirSector < s.device.size
  marked : s.freeMap.bit rootDirSector = true
  free : ¬ s.Owns freeMapSector rootDirSector

theorem Sound.of_map (mounted : s.Mounted (s.inodeAt freeMapSector))
    (synced : s.Synced (s.inodeAt freeMapSector))
    (closed : ∀ o, o ≠ freeMapSector → s.openInodes o = none)
    (used : ∀ n, s.Owns freeMapSector n → s.freeMap.bit n = true)
    (self : freeMapSector ∉ s.extent freeMapSector) : s.Sound (· = freeMapSector) where
  mounted := mounted
  synced := synced
  free_map := rfl
  cached o node open_ := by
    by_cases this : o = freeMapSector
    · subst this
      rw [mounted.node] at open_
      cases open_
      exact ⟨rfl, rfl⟩
    · rw [closed o this] at open_
      cases open_
  inside := by
    rintro o rfl
    exact ⟨mounted.some_, mounted.inside⟩
  used := by
    rintro o n rfl
    exact used n
  self := by
    rintro o rfl
    exact self
  one := by
    rintro o o' n rfl rfl _ _
    rfl

section
variable (blank : s.Blank)
include blank

/-- The free map file is created without being written, since it is not open yet. -/
theorem Blank.inodeCreate :
    (∃ start b, s.inodeCreate freeMapSector (Bitmap.byteCnt s.freeMap.bitCnt) = .ok (true,
        (s.setFreeMap b).newInode freeMapSector start (Bitmap.byteCnt s.freeMap.bitCnt)) ∧
      s.freeMap.Group false (bytesToSectors (Bitmap.byteCnt s.freeMap.bitCnt)) start ∧
      b.bitCnt = s.freeMap.bitCnt ∧
      ∀ j, b.bit j = if j ∈ (⟨start, bytesToSectors (Bitmap.byteCnt s.freeMap.bitCnt)⟩ : Span)
        then true else s.freeMap.bit j) ∨
    ∃ after, s.inodeCreate freeMapSector (Bitmap.byteCnt s.freeMap.bitCnt) =
      .ok (false, after) := by
  have few := blank.few
  have bits := blank.bits
  have low : (0 : Int) ≤ Bitmap.byteCnt s.freeMap.bitCnt := Int.natCast_nonneg _
  rcases Bitmap.scanAndFlip_spec (show s.freeMap.bitCnt < 4294967296 by omega)
      (bytesToSectors (Bitmap.byteCnt s.freeMap.bitCnt)) (Nat.zero_le _) false with
    ⟨start, b, scanned, -, group, -, size, values⟩ | ⟨scanned, -⟩
  · refine .inl ⟨start, b, ?_, group, size, values⟩
    have allocated : s.freeMapAllocate (bytesToSectors (Bitmap.byteCnt s.freeMap.bitCnt)) =
        .ok (some start, s.setFreeMap b) := by
      unfold freeMapAllocate
      rw [scanned, ok_bind]
      dsimp only
      rw [setFreeMap_freeMapFile, blank.file]
    have stop := group.1
    exact inodeCreate_eq low allocated blank.some_ (bits ▸ stop)
      (show s.device.size < 4294967296 by omega)
  · refine .inr ⟨s.setFreeMap s.freeMap, ?_⟩
    unfold FileSys.inodeCreate
    rw [ensure_bind low]
    dsimp only
    unfold freeMapAllocate
    rw [scanned]
    rfl

theorem Blank.freeMapCreate (done : s.freeMapCreate = .ok after) : after.MapOnly := by
  have few := blank.few
  have some_ := blank.some_
  have bits := blank.bits
  unfold FileSys.freeMapCreate at done
  rcases blank.inodeCreate with ⟨start, b, created, group, size, values⟩ | ⟨_, refused⟩
  swap
  · rw [refused] at done
    cases done
  have bytes : (0 : Int) < Bitmap.byteCnt s.freeMap.bitCnt ∧
      (Bitmap.byteCnt s.freeMap.bitCnt : Int) < 2147483648 := by
    simp only [Bitmap.byteCnt, Bitmap.elemCnt, divRoundUp]
    omega
  generalize length_ : (Bitmap.byteCnt s.freeMap.bitCnt : Int) = length at *
  have most := length_le_sectors bytes.1.le bytes.2
  -- the file lies behind the two sectors that are marked
  have apart : ∀ n, s.freeMap.bit n = true → n ∉ (⟨start, bytesToSectors length⟩ : Span) := by
    intro n bit inside
    rw [group.2 n inside] at bit
    cases bit
  have first : start ∈ (⟨start, bytesToSectors length⟩ : Span) := by
    simp only [Span.mem_iff, Span.stop, sectorSize] at most ⊢
    omega
  have behind : 1 < start := by
    have notMap : start ≠ freeMapSector := fun same => apart start (same ▸ blank.map) first
    have notRoot : start ≠ rootDirSector := fun same => apart start (same ▸ blank.root) first
    simp only [freeMapSector, rootDirSector] at notMap notRoot
    omega
  have stop : start + bytesToSectors length ≤ s.device.size := bits ▸ group.1
  -- the file is opened and the free map written to it
  let made := (s.setFreeMap b).newInode freeMapSector start length
  have inode : made.inodeAt freeMapSector = ⟨start, length, inodeMagic⟩ :=
    newInode_inodeAt (by omega) bytes.1.le bytes.2 (apart _ blank.map)
  have opened : made.inodeOpen freeMapSector true = .ok (some freeMapSector,
      made.setInode freeMapSector (some ⟨1, false, 0, ⟨start, length, inodeMagic⟩⟩)) := by
    have eq : made.inodeOpen freeMapSector true = _ := inodeOpen_eq some_
    rw [eq, FileSys.reopened, show made.openInodes freeMapSector = none from blank.closed _, inode]
  let shut := (made.setInode freeMapSector
    (some ⟨1, false, 0, ⟨start, length, inodeMagic⟩⟩)).setFreeMapFile
      (some ⟨freeMapSector, 0, false⟩)
  have mounted : shut.Mounted ⟨start, length, inodeMagic⟩ :=
    ⟨some_, few, size.trans bits, rfl, update_self freeMapSector _ made.openInodes,
      by rw [← length_, bits]; rfl, ⟨bytes.1.le, bytes.2, stop, by change s.device.size < _; omega⟩⟩
  rw [created, ok_bind] at done
  dsimp only at done
  rw [opened, ok_bind] at done
  change (shut.bitmapWrite >>= _) = _ at done
  rw [mounted.bitmapWrite] at done
  cases done
  have spared : ∀ n, n ∉ (⟨start, bytesToSectors length⟩ : Span) →
      SameSector shut (shut.saveMap ⟨start, length, inodeMagic⟩ shut.freeMap) n := by
    intro n other
    have same := put_data_same (s := shut) 0 (Bitmap.byteCnt shut.freeMap.bitCnt) b.bytes
      mounted.inside other
    rw [mounted.reach] at same
    exact same
  have same : (shut.saveMap ⟨start, length, inodeMagic⟩ shut.freeMap).inodeAt freeMapSector =
      ⟨start, length, inodeMagic⟩ :=
    (spared _ (apart _ blank.map)).inodeAt.trans inode
  have owns : ∀ n, (shut.saveMap ⟨start, length, inodeMagic⟩ shut.freeMap).Owns freeMapSector n ↔
      n = freeMapSector ∨ n ∈ (⟨start, bytesToSectors length⟩ : Span) := by
    intro n
    rw [Owns, extent, same]
  have kept : ∀ n, s.freeMap.bit n = true → b.bit n = true := by
    intro n bit
    rw [values, bit, ite_self]
  refine ⟨.of_map (by rw [same]; exact mounted.saveMap rfl)
    (by rw [same]; exact synced_saveMap mounted rfl) (fun o other => ?_) (fun n own => ?_) ?_,
    fun o other => ?_, ?_, kept _ blank.root, ?_⟩
  · exact (update_of_ne other ..).trans (blank.closed o)
  · rcases (owns n).mp own with rfl | data
    · exact kept _ blank.map
    · exact (values n).trans (if_pos data)
  · rw [extent, same]
    exact apart _ blank.map
  · exact (update_of_ne other ..).trans (blank.closed o)
  · change rootDirSector < s.device.size
    simp only [Span.mem_iff, Span.stop] at first
    unfold rootDirSector
    omega
  · rw [owns]
    rintro (same | data)
    · exact absurd same (by decide)
    · exact apart _ blank.root data

end

/-- `do_format` leaves an empty root directory. -/
theorem MapOnly.dirCreate (map : s.MapOnly) :
    (∃ after, s.dirCreate rootDirSector 16 = .ok (true, after) ∧
      after.Sound (fun o => o = freeMapSector ∨ o = rootDirSector) ∧
      after.openInodes = s.openInodes ∧ (after.inodeAt rootDirSector).length = 320 ∧
      ∀ k < 16, (after.rootEntry k).inUse = false) ∨
    ∃ after, s.dirCreate rootDirSector 16 = .ok (false, after) := by
  have free : ∀ o, o = freeMapSector → ¬ s.Owns o rootDirSector := by
    rintro o rfl
    exact map.free
  rcases map.sound.inodeCreate map.inside map.marked free (show (0 : Int) ≤ 320 by decide)
      (by decide) with ⟨after, created, sound, -, table, length, zeros, -⟩ | ⟨refused, -⟩
  · refine .inl ⟨after, created, sound, table, length, fun k below => ?_⟩
    have zero := zeros (dirEntrySize * k + 19) (by simp only [dirEntrySize]; omega)
    unfold DirEntry.inUse FileSys.rootEntry
    rw [zero]
    rfl
  · exact .inr ⟨s, refused⟩

/-- `filesys_init (true)` -/
theorem formatted {bits : Nat → BitVec 32} (file : s.freeMapFile = none)
    (small : s.device.size < 4294967296) (done : s.filesysInit true bits = .ok after) :
    after.Consistent (fun o => if o = freeMapSector then 1 else 0) := by
  obtain ⟨s₁, initialised, done⟩ := bind_eq_ok.mp done
  obtain ⟨some_, few⟩ := 
    size_of_freeMapInit (s := { s with openInodes := fun _ => none }) small initialised
  obtain ⟨b, equal, size, map, root⟩ :=
    freeMapInit_eq (s := { s with openInodes := fun _ => none }) some_ few bits
  cases initialised.symm.trans equal
  have blank : ({ s with openInodes := fun _ => none }.setFreeMap b).Blank :=
    ⟨some_, few, size, map, root, file, fun _ => rfl⟩
  obtain ⟨s₄, format, mounting⟩ := bind_eq_ok.mp done
  obtain ⟨s₂, mapped, format⟩ := bind_eq_ok.mp format
  have mapOnly := blank.freeMapCreate mapped
  rcases mapOnly.dirCreate with ⟨s₃, created, sound, table, length, unused⟩ | ⟨_, refused⟩
  swap
  · rw [refused] at format
    cases format
  rw [created, ok_bind] at format
  dsimp only at format
  have mounted := sound.mounted
  unfold freeMapClose at format
  rw [mounted.file] at format
  change s₃.inodeClose (some freeMapSector) = _ at format
  rw [inodeClose_last mounted.node rfl rfl] at format
  cases format
  have off : (s₃.setInode freeMapSector none).openInodes freeMapSector = none :=
    update_self freeMapSector _ s₃.openInodes
  obtain ⟨final, reopened, device, table', -, -, sound'⟩ :=
    sound.remount (s₃.setInode freeMapSector none) rfl off
      (fun o other => update_of_ne other _ s₃.openInodes) mounted.bits
  cases mounting.symm.trans reopened
  have same : SameRoot s₃ after := .of_device_eq device
  have unused' : ∀ k < 16, (after.rootEntry k).inUse = false := fun k below => by
    rw [DirEntry.inUse_congr (same k below), unused k below]
  have shut : ∀ o, o ≠ freeMapSector → after.openInodes o = none := fun o other => by
    rw [table', table, mapOnly.closed o other]
  have node : after.openInodes freeMapSector =
      some ⟨1, false, 0, s₃.inodeAt freeMapSector⟩ := by rw [table', mounted.node]
  have never {k : Nat} (below : k < 16) (used : (after.rootEntry k).inUse = true) : False := by
    rw [unused' k below] at used
    cases used
  have owners : after.Owner = fun o => o = freeMapSector ∨ o = rootDirSector := by
    funext o
    refine propext ⟨fun h => ?_, fun h => h.imp_right .inl⟩
    rcases h with h | h | ⟨k, below, used, -⟩ | h
    · exact .inl h
    · exact .inr h
    · exact (never below used).elim
    · exact .inl (not_not.mp fun other => h (shut o other))
  refine ⟨owners.symm ▸ sound', ?_, ⟨fun k below used => (never below used).elim,
    fun k below used => (never below used).elim,
    fun j below _ _ used => (never below used).elim,
    fun j below _ _ used => (never below used).elim⟩, fun o => ?_, fun o node' open_ => ?_⟩
  · unfold FileSys.inodeAt
    rw [device]
    exact length
  · by_cases this : o = freeMapSector
    · rw [if_pos this, this, node]
      simp
    · rw [if_neg this, shut o this]
      simp
  · by_cases this : o = freeMapSector
    · rw [this, node] at open_
      cases open_
      rw [if_pos this]
      exact ⟨rfl, rfl, nofun⟩
    · rw [shut o this] at open_
      cases open_

end FileSys
end Calendarizador.Source
