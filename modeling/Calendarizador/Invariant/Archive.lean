import Calendarizador.Invariant.FileRuns
import Calendarizador.Source.Fsutil

/-!
# What `fsutil_append` writes

An archive is the headers and the padded data of its files, one behind the other. One call
adds a file behind the ones that are there, and ends with the two writes that are meant to be
the end-of-archive marker.
-/
namespace Calendarizador.Source
open Foundation Function

/-- A file as an archive holds it. -/
structure Archived where
  name : CString
  length : Nat
  content : Nat → BitVec 8

namespace Archived
variable {b : Block} {n : Nat}

/-- The number of sectors of its data. -/
def sectors (f : Archived) : Nat := (f.length + 511) / sectorSize

/-- Its data, with zeros behind it. -/
def padded (f : Archived) (i : Nat) : BitVec 8 := if i < f.length then f.content i else 0

/-- Its header `h`, and its data behind it. -/
def bytes (f : Archived) (h : Nat → BitVec 8) (i : Nat) : BitVec 8 :=
  if i < sectorSize then h i else f.padded (i - sectorSize)

/-- The header of the file is in the sector `n`, and its data behind it. -/
structure At (f : Archived) (b : Block) (n : Nat) : Prop where
  header : ∃ h, Ustar.makeHeader f.name .regular f.length = .ok (some h) ∧
    ∀ i < sectorSize, b.data (sectorSize * n + i) = h i
  data : ∀ i < sectorSize * f.sectors, b.data (sectorSize * (n + 1) + i) = f.padded i

/-- The first sector behind the files, if they start at `n`. -/
def stop (n : Nat) (files : List Archived) : Nat :=
  files.foldl (fun n f => n + 1 + f.sectors) n

/-- The files are on the device one behind the other, from the sector `n` on. -/
def Holds (b : Block) : Nat → List Archived → Prop
  | _, [] => True
  | n, f :: files => f.At b n ∧ Holds b (n + 1 + f.sectors) files

theorem stop_concat (n : Nat) (files : List Archived) (f : Archived) :
    stop n (files ++ [f]) = stop n files + 1 + f.sectors := by
  simp [stop]

theorem le_stop (n : Nat) (files : List Archived) : n ≤ stop n files := by
  induction files generalizing n with
  | nil => exact le_refl n
  | cons f files ih => exact le_trans (by omega) (ih (n + 1 + f.sectors))

theorem stop_append_le (n : Nat) (files more : List Archived) :
    stop n files ≤ stop n (files ++ more) := by
  unfold stop
  rw [List.foldl_append]
  exact le_stop _ more

theorem At.of_bytes {f : Archived} {h : Nat → BitVec 8}
    (made : Ustar.makeHeader f.name .regular f.length = .ok (some h))
    (written : ∀ i < sectorSize * (1 + f.sectors), b.data (sectorSize * n + i) = f.bytes h i) :
    f.At b n := by
  refine ⟨⟨h, made, fun i below => ?_⟩, fun i below => ?_⟩
  · rw [written i (by simp only [sectorSize] at below ⊢; omega), bytes, if_pos below]
  · have place : sectorSize * (n + 1) + i = sectorSize * n + (sectorSize + i) := by
      rw [Nat.mul_succ, Nat.add_assoc]
    rw [place, written _ (by simp only [sectorSize] at below ⊢; omega), bytes, if_neg (by omega),
      Nat.add_sub_cancel_left]

theorem At.congr {f : Archived} {b' : Block} (here : f.At b n)
    (same : ∀ x < sectorSize * (n + 1 + f.sectors), b'.data x = b.data x) : f.At b' n := by
  obtain ⟨⟨h, made, header⟩, data⟩ := here
  refine ⟨⟨h, made, fun i below => ?_⟩, fun i below => ?_⟩
  · rw [same _ (by simp only [sectorSize] at below ⊢; omega), header i below]
  · rw [same _ (by simp only [sectorSize] at below ⊢; omega), data i below]

/-- Files that are followed by something else. -/
theorem Holds.congr {b' : Block} {files : List Archived} (here : Holds b n files)
    (same : ∀ x < sectorSize * stop n files, b'.data x = b.data x) : Holds b' n files := by
  induction files generalizing n with
  | nil => trivial
  | cons f files ih =>
    have most : n + 1 + f.sectors ≤ stop n (f :: files) := le_stop _ files
    refine ⟨here.1.congr fun x below => same x ?_, ih here.2 same⟩
    exact lt_of_lt_of_le below (Nat.mul_le_mul_left _ most)

theorem holds_concat {files : List Archived} {f : Archived} :
    Holds b n (files ++ [f]) ↔ Holds b n files ∧ f.At b (stop n files) := by
  induction files generalizing n with
  | nil => simp [Holds, stop]
  | cons g files ih =>
    rw [List.cons_append, Holds, ih, Holds, and_assoc]
    rfl

end Archived

namespace Fsutil
open FileSys
variable {u : Fsutil} {sector : Nat} {fs : FileSys} {f : Archived}

/-- The state after `cnt` sectors were written from the static `sector` on. -/
def wrote (u : Fsutil) (cnt : Nat) (src : Nat → BitVec 8) : Fsutil :=
  { u with
    scratch := ⟨u.scratch.size,
      splice u.scratch.data (sectorSize * u.appendSector) (sectorSize * cnt) src⟩
    appendSector := u.appendSector + cnt }

theorem writeFrom_eq (inside : sector < u.scratch.size) (buffer : Nat → BitVec 8) (ofs : Nat) :
    u.writeFrom sector buffer ofs = .ok { u with
      scratch := ⟨u.scratch.size, splice u.scratch.data (sectorSize * sector) sectorSize
        fun i => buffer (ofs + i)⟩
      bufferRead := max u.bufferRead (ofs + sectorSize) } := by
  unfold writeFrom
  rw [Block.write_eq inside]
  rfl

theorem writeNext_eq (inside : u.appendSector < u.scratch.size) (buffer : Nat → BitVec 8) :
    u.writeNext buffer =
      .ok { u.wrote 1 buffer with bufferRead := max u.bufferRead sectorSize } := by
  unfold writeNext
  rw [writeFrom_eq inside]
  simp only [Nat.zero_add, wrote, Nat.mul_one]
  rfl

theorem wrote_zero (src : Nat → BitVec 8) : u.wrote 0 src = u := by
  unfold wrote
  rw [Nat.mul_zero, splice_zero]
  rfl

/-- One sector and then the rest. -/
theorem wrote_wrote {cnt : Nat} {first rest src : Nat → BitVec 8}
    (same : ∀ i < sectorSize, first i = src i) (next : ∀ i, rest i = src (sectorSize + i)) :
    (u.wrote 1 first).wrote cnt rest = u.wrote (1 + cnt) src := by
  have data : splice (splice u.scratch.data (sectorSize * u.appendSector) (sectorSize * 1) first)
      (sectorSize * (u.appendSector + 1)) (sectorSize * cnt) rest =
      splice u.scratch.data (sectorSize * u.appendSector) (sectorSize * (1 + cnt)) src := by
    have tail : rest = fun i => src (sectorSize * 1 + i) := funext next
    rw [splice_congr (n := sectorSize * 1) same, Nat.mul_add, Nat.mul_add, tail, splice_append]
  unfold wrote
  simp only [data, Nat.add_assoc]

/-- The open file `sector` holds the data of `f`. -/
structure Carries (fs : FileSys) (sector : Nat) (f : Archived) : Prop where
  node : ∃ node, fs.openInodes sector = some node ∧ node.data = fs.inodeAt sector
  inside : (fs.inodeAt sector).Inside fs.device.size
  length : f.length = (fs.inodeAt sector).length.toNat
  content : ∀ i < f.length, f.content i = fs.content sector i

theorem Carries.inodeLength (carries : Carries fs sector f) :
    fs.inodeLength sector = .ok (f.length : Int) := by
  obtain ⟨node, open_, data⟩ := carries.node
  have low := carries.inside.low
  unfold FileSys.inodeLength
  rw [inode_eq open_, ok_bind, data, carries.length, Int.toNat_of_nonneg low]

/-- `file_read` of bytes that are there. -/
theorem Carries.fileRead (carries : Carries fs sector f) {done size : Nat}
    (within : done + size ≤ f.length) (buffer : Nat → BitVec 8) :
    fs.fileRead ⟨sector, done, false⟩ buffer size = .ok (size,
      splice buffer 0 size fun i => fs.content sector (done + i),
      ⟨sector, done + size, false⟩) := by
  obtain ⟨node, open_, data⟩ := carries.node
  have inside := carries.inside
  rw [← data] at inside
  have reach : node.data.reach size done = size := by
    have length := carries.length
    rw [← data] at length
    unfold InodeDisk.reach
    omega
  unfold FileSys.fileRead
  rw [inodeReadAt_eq open_ inside.fits, reach, data]
  simp only [Nat.add_assoc]
  rfl

/-- The size of a round; the last one may be shorter than a sector. -/
theorem chunkSize_bounds {size chunk : Nat} (some_ : 0 < size)
    (chunk_ : (if size > sectorSize then sectorSize else size) = chunk) :
    chunk ≤ size ∧ 0 < chunk ∧ chunk ≤ sectorSize ∧ (chunk = sectorSize ∨ chunk = size) ∧
      (size + 511) / sectorSize = 1 + (size - chunk + 511) / sectorSize := by
  by_cases big : size > sectorSize
  · rw [if_pos big] at chunk_
    simp only [sectorSize] at *
    omega
  · rw [if_neg big] at chunk_
    simp only [sectorSize] at *
    omega

/-- The buffer of a round: the bytes that were read, and zeros. -/
theorem Carries.round (carries : Carries fs sector f) {done chunk : Nat}
    (within : done + chunk ≤ f.length) (last : chunk = sectorSize ∨ done + chunk = f.length)
    (buffer : Nat → BitVec 8) {i : Nat} (below : i < sectorSize) :
    splice (splice buffer 0 chunk fun i => fs.content sector (done + i)) chunk
      (sectorSize - chunk) (fun _ => 0) i = f.padded (done + i) := by
  by_cases read : i < chunk
  · have byte : splice buffer 0 chunk (fun i => fs.content sector (done + i)) (0 + i) = _ :=
      splice_inside read
    rw [Nat.zero_add] at byte
    rw [splice_outside (.inl read), byte, Archived.padded, if_pos (by omega),
      carries.content _ (by omega)]
  · rw [Archived.padded, if_neg (by omega), splice, if_pos (by omega)]

/-- The copy loop, by induction on its rounds: `done` bytes have been copied. -/
theorem appendLoop_eq (carries : Carries fs sector f) (fileName : CString) {fuel : Nat} :
    ∀ {u : Fsutil} {size done : Nat} {buffer : Nat → BitVec 8}, u.fs = fs → size ≤ fuel →
      done + size = f.length → u.appendSector + (size + 511) / sectorSize ≤ u.scratch.size →
      sectorSize ≤ u.bufferRead →
      ∃ buffer', appendLoop fileName fuel u size buffer ⟨sector, done, false⟩ =
          .ok (u.wrote ((size + 511) / sectorSize) (fun i => f.padded (done + i)), buffer',
            ⟨sector, f.length, false⟩) ∧
        ∀ i, sectorSize ≤ i → buffer' i = buffer i := by
  induction fuel with
  | zero =>
    intro u size done buffer same enough position room far
    obtain rfl : size = 0 := by omega
    obtain rfl : done = f.length := position
    exact ⟨buffer, by rw [show (0 + 511) / sectorSize = 0 from rfl, wrote_zero]; rfl,
      fun _ _ => rfl⟩
  | succ fuel ih =>
    intro u size done buffer same enough position room far
    unfold appendLoop
    by_cases none_ : size = 0
    · subst none_
      obtain rfl : done = f.length := position
      exact ⟨buffer, by rw [show (0 + 511) / sectorSize = 0 from rfl, wrote_zero]; rfl,
        fun _ _ => rfl⟩
    have some_ : 0 < size := by omega
    rw [if_pos some_]
    dsimp only
    generalize chunk_ : (if size > sectorSize then sectorSize else size) = chunk
    obtain ⟨part, positive, small, last, rounds⟩ := chunkSize_bounds some_ chunk_
    rw [rounds] at room ⊢
    have done_ : chunk = sectorSize ∨ done + chunk = f.length := by omega
    have within : done + chunk ≤ f.length := by omega
    have bytes := fun i => carries.round within done_ buffer (i := i)
    have inside : u.appendSector < u.scratch.size := by
      have rest := Nat.zero_le ((size - chunk + 511) / sectorSize)
      omega
    rw [if_neg (by omega), same, carries.fileRead (by omega), ok_bind]
    rw [if_neg (not_not.mpr rfl), writeNext_eq inside, ok_bind]
    generalize written : splice (splice buffer 0 chunk fun i => fs.content sector (done + i)) chunk
      (sectorSize - chunk) (fun _ => 0) = buffer₁ at bytes
    have outside : ∀ i, sectorSize ≤ i → buffer₁ i = buffer i := by
      intro i beyond
      rw [← written, splice_outside (by omega), splice_outside (by omega)]
    have state : { u.wrote 1 buffer₁ with bufferRead := max u.bufferRead sectorSize } =
        u.wrote 1 buffer₁ := by
      rw [max_eq_left far]
      rfl
    rw [state]
    have room' : (u.wrote 1 buffer₁).appendSector + (size - chunk + 511) / sectorSize ≤
        (u.wrote 1 buffer₁).scratch.size := by
      change u.appendSector + 1 + _ ≤ u.scratch.size
      omega
    obtain ⟨buffer₂, rest, kept⟩ := @ih (u.wrote 1 buffer₁) (size - chunk) (done + chunk) buffer₁
      same (by omega) (by omega) room' far
    refine ⟨buffer₂, ?_, fun i beyond => (kept i beyond).trans (outside i beyond)⟩
    rw [rest, wrote_wrote bytes fun i => ?_]
    rcases done_ with full | done_
    · rw [full, Nat.add_assoc]
    · rw [Archived.padded, Archived.padded, if_neg (by omega), if_neg (by omega)]

/-- The header, then the data. -/
theorem copies_eq (carries : Carries fs sector f) (fileName : CString) (same : u.fs = fs)
    (room : u.appendSector + 1 + f.sectors ≤ u.scratch.size) (h memory : Nat → BitVec 8) :
    ∃ middle buffer, u.writeNext (splice memory 0 sectorSize h) = .ok middle ∧
      appendLoop fileName f.length middle f.length (splice memory 0 sectorSize h)
        ⟨sector, 0, false⟩ = .ok ({ u.wrote (1 + f.sectors) (f.bytes h) with
          bufferRead := max u.bufferRead sectorSize }, buffer, ⟨sector, f.length, false⟩) ∧
      buffer sectorSize = memory sectorSize := by
  have header := writeNext_eq (u := u) (by omega) (splice memory 0 sectorSize h)
  obtain ⟨buffer, copied, kept⟩ := @appendLoop_eq sector fs f carries fileName f.length
    { u.wrote 1 (splice memory 0 sectorSize h) with bufferRead := max u.bufferRead sectorSize }
    f.length 0 (splice memory 0 sectorSize h) same (le_refl _) (Nat.zero_add _) room
    (le_max_right _ _)
  have whole : (u.wrote 1 (splice memory 0 sectorSize h)).wrote f.sectors
      (fun i => f.padded (0 + i)) = u.wrote (1 + f.sectors) (f.bytes h) := by
    refine wrote_wrote (fun i below => ?_) fun i => ?_
    · rw [Archived.bytes, if_pos below, splice, if_pos (by omega), Nat.sub_zero]
    · rw [Archived.bytes, if_neg (by omega), Nat.add_sub_cancel_left, Nat.zero_add]
  refine ⟨_, buffer, header, copied.trans ?_, ?_⟩
  · rw [← whole]
    rfl
  · rw [kept _ (le_refl _), splice_outside (by omega)]

/-! ## One call -/

/-- The file with the name, as it is to be archived. -/
def archived (fs : FileSys) (name : CString) (sector : Nat) : Archived :=
  ⟨name, (fs.inodeAt sector).length.toNat, fs.content sector⟩

theorem Carries.of_open {fs₁ : FileSys} {refs : Nat → Nat} (ok : fs₁.Consistent refs)
    (device : fs₁.device = fs.device) (held : refs sector ≠ 0) (name : CString) :
    Carries fs₁ sector (archived fs name sector) := by
  obtain ⟨node, open_, -, -, -, data, owner⟩ := ok.node held
  have inode : fs₁.inodeAt sector = fs.inodeAt sector := by
    unfold FileSys.inodeAt
    rw [device]
  refine ⟨⟨node, open_, data⟩, (ok.sound.inside sector owner).2,
    by simp only [archived, inode], fun i _ => ?_⟩
  unfold archived FileSys.content
  rw [inode, device]

/-- What `fsutil_append` leaves. -/
structure Appended (u : Fsutil) (refs : Nat → Nat) (f : Archived) (memory : Nat → BitVec 8)
    (after : Fsutil) : Prop where
  consistent : after.fs.Consistent refs
  device : after.fs.device = u.fs.device
  size : after.scratch.size = u.scratch.size
  sector : after.appendSector = u.appendSector + 1 + f.sectors
  before : ∀ x < sectorSize * u.appendSector, after.scratch.data x = u.scratch.data x
  file : f.At after.scratch u.appendSector
  /-- Of the marker, the first sector is zeros but for its last byte. -/
  marker : ∀ i < 511, after.scratch.data (sectorSize * after.appendSector + i) = 0
  last : after.scratch.data (sectorSize * after.appendSector + 511) = memory sectorSize
  behind : ∀ x, sectorSize * (after.appendSector + 1) ≤ x →
    after.scratch.data x = u.scratch.data x
  read : after.bufferRead = max u.bufferRead (sectorSize + 1)

/-- The last two writes go to the same sector, and the second one reads a byte behind the
buffer. -/
theorem marker_eq (inside : u.appendSector < u.scratch.size) (buffer : Nat → BitVec 8)
    (zeros : ∀ i < sectorSize, buffer i = 0) :
    ∃ middle after, u.writeFrom u.appendSector buffer 0 = .ok middle ∧
      middle.writeFrom middle.appendSector buffer 1 = .ok after ∧ after.fs = u.fs ∧
      after.appendSector = u.appendSector ∧ after.scratch.size = u.scratch.size ∧
      after.bufferRead = max u.bufferRead (sectorSize + 1) ∧
      (∀ i < 511, after.scratch.data (sectorSize * u.appendSector + i) = 0) ∧
      after.scratch.data (sectorSize * u.appendSector + 511) = buffer sectorSize ∧
      ∀ x, (x < sectorSize * u.appendSector ∨ sectorSize * (u.appendSector + 1) ≤ x) →
        after.scratch.data x = u.scratch.data x := by
  refine ⟨_, _, writeFrom_eq inside buffer 0, writeFrom_eq (by exact inside) buffer 1, rfl, rfl,
    rfl, ?_, fun i below => ?_, ?_, fun x outside => ?_⟩
  · simp only [sectorSize]
    omega
  · dsimp only
    rw [splice_inside (by simp only [sectorSize]; omega),
      zeros _ (by simp only [sectorSize]; omega)]
  · dsimp only
    rw [splice_inside (show 511 < sectorSize by decide)]
    rfl
  · dsimp only
    rw [splice_outside (by simp only [sectorSize] at outside ⊢; omega),
      splice_outside (by simp only [sectorSize] at outside ⊢; omega)]

/-- A name in the directory fits into a header. -/
theorem makeHeader_eq {name : CString} (short : name.bytes.length ≤ nameMax) (size : Int) :
    ∃ h, Ustar.makeHeader name .regular size = .ok (some h) := by
  have fits : ¬ (Ustar.stripAntisocialPrefixes name).bytes.length > 99 := by
    have strip := Ustar.length_strip name
    simp only [nameMax] at short
    omega
  unfold Ustar.makeHeader
  rw [ensure_bind (.inl rfl)]
  rw [if_neg fits]
  exact ⟨_, rfl⟩

/-- The archive behind the header, the data and the marker. -/
theorem written_eq {after : Fsutil} {h : Nat → BitVec 8}
    (made : Ustar.makeHeader f.name .regular f.length = .ok (some h))
    (others : ∀ x, (x < sectorSize * (u.appendSector + 1 + f.sectors) ∨
      sectorSize * (u.appendSector + 1 + f.sectors + 1) ≤ x) → after.scratch.data x =
        splice u.scratch.data (sectorSize * u.appendSector) (sectorSize * (1 + f.sectors))
          (f.bytes h) x) :
    (∀ x < sectorSize * u.appendSector, after.scratch.data x = u.scratch.data x) ∧
      f.At after.scratch u.appendSector ∧
      ∀ x, sectorSize * (u.appendSector + 1 + f.sectors + 1) ≤ x →
        after.scratch.data x = u.scratch.data x := by
  refine ⟨fun x below => ?_, .of_bytes made fun i below => ?_, fun x above => ?_⟩
  · rw [others x (by simp only [sectorSize] at below ⊢; omega), splice_outside (.inl below)]
  · rw [others _ (by simp only [sectorSize] at below ⊢; omega), splice_inside below]
  · rw [others x (.inr above), splice_outside (by simp only [sectorSize] at above ⊢; omega)]

/-- `fsutil_append` of a file that exists, on a device with room for it and one more sector. -/
theorem append_spec {refs : Nat → Nat} (ok : u.fs.Consistent refs) (none_ : refs rootDirSector = 0)
    {name : CString} (found : u.fs.Finds name sector)
    (room : u.appendSector + 1 + (archived u.fs name sector).sectors < u.scratch.size)
    (memory : Nat → BitVec 8) : ∃ after, u.append name memory = .ok after ∧
      Appended u refs (archived u.fs name sector) memory after := by
  -- the file is opened
  obtain ⟨file, fs₁, opened, device₁, owners₁, cases_⟩ := ok.filesysOpen none_ name
  rcases cases_ with ⟨sector', rfl, found', notMap, notRoot, ok₁⟩ | ⟨-, absent, -⟩
  swap
  · exact absurd found (absent sector)
  obtain rfl := ok.entries.finds_unique found found'
  have held : update refs sector (refs sector + 1) sector ≠ 0 := by
    rw [update_self]
    exact Nat.succ_ne_zero _
  have carried := Carries.of_open ok₁ device₁ held name
  have named : fs₁.Named sector := by
    obtain ⟨k, below, used, -, leads⟩ := found
    exact ((SameRoot.of_device_eq device₁).named sector).mpr ⟨k, below, used, leads⟩
  have length := carried.inodeLength
  obtain ⟨h, made⟩ := makeHeader_eq (ok.entries.length_of_finds found)
    (archived u.fs name sector).length
  have name_ : (archived u.fs name sector).name = name := rfl
  generalize archived u.fs name sector = f at *
  -- the header and the data, then the marker
  obtain ⟨u₂, buffer, header, copied, byte⟩ :=
    copies_eq (u := { u with fs := fs₁ }) carried name rfl room.le h memory
  have zero : ∀ i < sectorSize, splice buffer 0 sectorSize (fun _ => 0) i = 0 := fun i below =>
    if_pos (by omega)
  have sector₃ : u.appendSector + (1 + f.sectors) = u.appendSector + 1 + f.sectors :=
    (Nat.add_assoc _ _ _).symm
  obtain ⟨u₄, u₅, wrote₄, wrote₅, fs₅, sector₅, size₅, read₅, zeros, last, others⟩ :=
    marker_eq (u := { Fsutil.wrote { u with fs := fs₁ } (1 + f.sectors) (f.bytes h) with
      bufferRead := max u.bufferRead sectorSize }) (sector₃.trans_lt room) _ zero
  simp only [wrote, sector₃] at fs₅ sector₅ size₅ read₅ zeros last others
  obtain ⟨before, stored, behind⟩ := written_eq (name_.symm ▸ made) others
  -- the file is closed
  obtain ⟨fs₆, closed, ok₆, -, -, device₆⟩ := ok₁.inodeClose held notMap
  have counts : update (update refs sector (refs sector + 1)) sector
      (update refs sector (refs sector + 1) sector - 1) = refs := by
    rw [update_self, Nat.add_sub_cancel, update_idem, update_eq_self]
  rw [counts] at ok₆
  have executed : u.append name memory = .ok { u₅ with fs := fs₆ } := by
    unfold Fsutil.append
    rw [opened, ok_bind]
    dsimp only
    rw [length, ok_bind, made, ok_bind]
    dsimp only
    rw [header, ok_bind, Int.toNat_natCast, copied, ok_bind]
    rw [wrote₄, ok_bind, wrote₅, ok_bind, fs₅]
    change (fs₁.inodeClose (some sector) >>= _) = _
    rw [closed]
    rfl
  exact ⟨_, executed,
    { consistent := ok₆
      device := (device₆ named).trans device₁
      size := size₅
      sector := sector₅
      before
      file := stored
      marker := by
        rw [sector₅]
        exact zeros
      last := by
        rw [sector₅]
        exact last.trans ((splice_outside (by omega)).trans byte)
      behind := by
        rw [sector₅]
        exact behind
      read := by rw [read₅, max_assoc, max_eq_right (Nat.le_succ sectorSize)] }⟩

end Fsutil
end Calendarizador.Source
