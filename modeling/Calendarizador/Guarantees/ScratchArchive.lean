import Calendarizador.Guarantees.FileSystem
import Calendarizador.Invariant.Archive

/-!
# The archive on the scratch device

Every call of `fsutil_append` puts its file behind those of the earlier calls, but the
end-of-archive marker behind them is one sector instead of two, and its last byte is the byte
that lies behind the buffer in memory.
-/
namespace Calendarizador.Guarantees
open Foundation Source FileSys Fsutil List

/-- The calls name files that exist, and `files` are these files. -/
def Names (fs : FileSys) (calls : List (CString × (Nat → BitVec 8))) (files : List Archived) :
    Prop :=
  List.Forall₂ (fun call f => ∃ sector, fs.Finds call.1 sector ∧ f = archived fs call.1 sector)
    calls files

/-- Extracting the device into an empty file system with room for the files makes exactly
these files. -/
def Extracts (scratch : Block) (files : List Archived) : Prop :=
  ∀ v : Volume, v.Formatted → files.length ≤ 16 →
    Archived.stop (3 + bytesToSectors (Bitmap.byteCnt v.fs.device.size)) files ≤
      v.fs.device.size →
    ∃ after, Fsutil.extract ⟨v.fs, scratch, 0, 0, 0⟩ = .ok after ∧
      (∀ name, (∃ sector, after.fs.Finds name sector) ↔ ∃ f ∈ files, f.name = name) ∧
      ∀ f ∈ files, ∃ sector, after.fs.Finds f.name sector ∧
        (after.fs.inodeAt sector).length = f.length ∧
        ∀ i < f.length, after.fs.content sector i = f.content i

/-- What the device and the calls so far should be like. -/
structure ArchiveOk (u : Fsutil) (files : List Archived) : Prop where
  holds : Archived.Holds u.scratch 0 files
  marker : ∀ i < 2 * sectorSize, u.scratch.data (sectorSize * Archived.stop 0 files + i) = 0
  read : u.bufferRead ≤ sectorSize
  extracts : Extracts u.scratch files

/-- The state after some calls. -/
structure Archives (v : Volume) (scratch : Block) (files : List Archived) (u : Fsutil) : Prop where
  consistent : u.fs.Consistent v.refs
  device : u.fs.device = v.fs.device
  size : u.scratch.size = scratch.size
  sector : u.appendSector = Archived.stop 0 files
  holds : Archived.Holds u.scratch 0 files
  behind : ∀ x, sectorSize * (Archived.stop 0 files + 1) ≤ x → u.scratch.data x = scratch.data x

/-- After the last call its marker is there, and a byte behind its buffer has been read. -/
structure Marked (files : List Archived) (memory : Nat → BitVec 8) (u : Fsutil) : Prop where
  zeros : ∀ i < 511, u.scratch.data (sectorSize * Archived.stop 0 files + i) = 0
  last : u.scratch.data (sectorSize * Archived.stop 0 files + 511) = memory sectorSize
  read : sectorSize < u.bufferRead

section
variable {v : Volume} {scratch : Block}

theorem archived_congr {fs fs' : FileSys} (device : fs'.device = fs.device) (name : CString)
    (sector : Nat) : archived fs' name sector = archived fs name sector := by
  have inode : fs'.inodeAt sector = fs.inodeAt sector := by
    unfold FileSys.inodeAt
    rw [device]
  have content : fs'.content sector = fs.content sector := by
    funext i
    unfold FileSys.content
    rw [inode, device]
  unfold archived
  rw [inode, content]

theorem finds_congr {fs fs' : FileSys} (device : fs'.device = fs.device) {name : CString}
    {sector : Nat} (found : fs.Finds name sector) : fs'.Finds name sector := by
  unfold Finds rootEntry FileSys.content FileSys.inodeAt at found ⊢
  rw [device]
  exact found

/-- One more call. -/
theorem Archives.append (ok : v.Ok) {done : List Archived} {u : Fsutil}
    (archives : Archives v scratch done u) {name : CString} {sector : Nat}
    (found : v.fs.Finds name sector) (memory : Nat → BitVec 8)
    (room : Archived.stop 0 (done ++ [archived v.fs name sector]) < scratch.size) :
    ∃ after, u.append name memory = .ok after ∧
      Archives v scratch (done ++ [archived v.fs name sector]) after ∧
      Marked (done ++ [archived v.fs name sector]) memory after := by
  have same := archived_congr archives.device name sector
  obtain ⟨after, executed, appended⟩ := append_spec archives.consistent ok.refs_root
    (finds_congr archives.device found)
    (by rwa [same, archives.sector, archives.size, ← Archived.stop_concat]) memory
  rw [same] at appended
  have stop : after.appendSector = Archived.stop 0 (done ++ [archived v.fs name sector]) := by
    rw [appended.sector, archives.sector, Archived.stop_concat]
  have before := appended.before
  rw [archives.sector] at before
  refine ⟨after, executed, ⟨appended.consistent, appended.device.trans archives.device,
    appended.size.trans archives.size, stop, ?_, fun x beyond => ?_⟩, ?_, ?_, ?_⟩
  · exact Archived.holds_concat.mpr ⟨archives.holds.congr before, archives.sector ▸ appended.file⟩
  · rw [appended.behind x (stop ▸ beyond)]
    refine archives.behind x (le_trans (Nat.mul_le_mul_left _ ?_) beyond)
    rw [Archived.stop_concat]
    omega
  · exact stop ▸ appended.marker
  · exact stop ▸ appended.last
  · rw [appended.read]
    exact lt_of_lt_of_le (Nat.lt_succ_self sectorSize) (le_max_right _ _)

/-- All calls, by induction on their list; `done` are the files that are there already. -/
theorem Archives.appends (ok : v.Ok) {calls : List (CString × (Nat → BitVec 8))} :
    ∀ {done files : List Archived} {u : Fsutil}, Archives v scratch done u →
      Names v.fs calls files → Archived.stop 0 (done ++ files) < scratch.size →
      ∃ after, u.appends calls = .ok after ∧ Archives v scratch (done ++ files) after ∧
        ∀ call ∈ calls.getLast?, Marked (done ++ files) call.2 after := by
  induction calls with
  | nil =>
    intro done files u archives names room
    cases names
    rw [append_nil]
    exact ⟨u, rfl, archives, nofun⟩
  | cons call calls ih =>
    intro done files u archives names room
    cases names with
    | cons named names =>
      rename_i f files
      obtain ⟨sector, found, rfl⟩ := named
      have whole : done ++ archived v.fs call.1 sector :: files =
          done ++ [archived v.fs call.1 sector] ++ files := by simp
      rw [whole] at room ⊢
      have part : Archived.stop 0 (done ++ [archived v.fs call.1 sector]) < scratch.size :=
        lt_of_le_of_lt (Archived.stop_append_le ..) room
      obtain ⟨middle, first, archives', marked⟩ := archives.append ok found call.2 part
      obtain ⟨after, rest, archived, marks⟩ := ih archives' names room
      refine ⟨after, ?_, archived, ?_⟩
      · unfold Fsutil.appends at rest ⊢
        rw [foldlM_cons, first]
        exact rest
      · cases calls with
        | nil =>
          cases names
          cases rest
          rintro _ ⟨⟩
          rw [append_nil]
          exact marked
        | cons next calls =>
          rw [List.getLast?_cons_cons]
          exact marks

/-- The second sector of the marker is not written at all. -/
theorem Marked.marker_iff {files : List Archived} {memory : Nat → BitVec 8} {u : Fsutil}
    (marked : Marked files memory u) (archives : Archives v scratch files u) :
    (∀ i < 2 * sectorSize, u.scratch.data (sectorSize * Archived.stop 0 files + i) = 0) ↔
      memory sectorSize = 0 ∧ ∀ i < sectorSize,
        scratch.data (sectorSize * (Archived.stop 0 files + 1) + i) = 0 := by
  have next (i : Nat) : u.scratch.data (sectorSize * Archived.stop 0 files + (sectorSize + i)) =
      scratch.data (sectorSize * (Archived.stop 0 files + 1) + i) := by
    rw [← Nat.add_assoc, ← Nat.mul_succ]
    exact archives.behind _ (Nat.le_add_right _ _)
  constructor
  · intro zeros
    refine ⟨marked.last ▸ zeros 511 (by decide), fun i below => ?_⟩
    rw [← next]
    exact zeros _ (by omega)
  · rintro ⟨last, rest⟩ i below
    rcases Nat.lt_trichotomy i 511 with inner | rfl | beyond
    · exact marked.zeros i inner
    · rw [marked.last, last]
    · obtain ⟨j, rfl⟩ := Nat.exists_eq_add_of_le (show sectorSize ≤ i from beyond)
      rw [next]
      exact rest j (by omega)

end

/-- The calls run on an arbitrary scratch device, from the beginning of it. -/
def scratchStart (v : Volume) (scratch : Block) : Fsutil := ⟨v.fs, scratch, 0, 0, 0⟩

theorem archives_start {v : Volume} (ok : v.Ok) (scratch : Block) :
    Archives v scratch [] (scratchStart v scratch) :=
  ⟨ok.consistent, rfl, rfl, rfl, trivial, fun _ _ => rfl⟩

/-- After every sequence of calls the files are on the device one behind the other; the marker
behind them is right exactly if the byte behind the buffer was zero and the next sector was
zeros before. But every call reads that byte, so after no call everything is as it should
be. -/
theorem archive_marker (v : Volume) (h : ReachableWhile volumeSystem Volume.Permitted v)
    (scratch : Block) (calls : List (CString × (Nat → BitVec 8))) (files : List Archived)
    (names : Names v.fs calls files) (room : Archived.stop 0 files + 2 ≤ scratch.size) :
    (∃ after, (scratchStart v scratch).appends calls = .ok after ∧
      Archived.Holds after.scratch 0 files ∧
      ∀ call ∈ calls.getLast?,
        ((∀ i < 2 * sectorSize,
            after.scratch.data (sectorSize * Archived.stop 0 files + i) = 0) ↔
          call.2 sectorSize = 0 ∧ ∀ i < sectorSize,
            scratch.data (sectorSize * (Archived.stop 0 files + 1) + i) = 0) ∧
        sectorSize < after.bufferRead) ∧
    ((∀ n, 0 < n → n ≤ calls.length →
        ∃ after, (scratchStart v scratch).appends (calls.take n) = .ok after ∧
          ArchiveOk after (files.take n)) ↔ calls = []) := by
  have ok := Volume.reachable_ok h
  have start := archives_start ok scratch
  obtain ⟨after, executed, archives, marks⟩ := start.appends ok names (by
    rw [nil_append]
    omega)
  rw [nil_append] at archives marks
  refine ⟨⟨after, executed, archives.holds, fun call last =>
    ⟨(marks call last).marker_iff archives, (marks call last).read⟩⟩, fun all => ?_, ?_⟩
  · by_contra some_
    obtain ⟨after', executed', good⟩ :=
      all calls.length (length_pos_iff.mpr some_) (le_refl _)
    rw [take_length] at executed'
    cases executed.symm.trans executed'
    obtain ⟨call, last⟩ : ∃ call, calls.getLast? = some call :=
      Option.ne_none_iff_exists'.mp (mt List.getLast?_eq_none_iff.mp some_)
    exact absurd good.read (Nat.not_le.mpr (marks call last).read)
  · rintro rfl n positive most
    exact absurd positive (Nat.not_lt.mpr most)

/-- A file `a` with three bytes. -/
def threeBytes : List FileEvent :=
  [.create nameA 3, .openFile nameA, .write 0 (fun _ => 7) 3, .close 0]

/-- A scratch device of four sectors full of nines. -/
def nines : Block := ⟨4, fun _ => 9⟩

theorem one_file_room {f : Archived} (one : f.sectors = 1) :
    Archived.stop 0 [f] + 2 ≤ nines.size := by
  simp only [Archived.stop, foldl_cons, foldl_nil, one]
  decide

/-- The file is on the device from its first sector on, but the sector behind the marker is
not part of it. -/
theorem archive_marker_one : ∃ (v : Volume) (after : Fsutil),
    (scratchStart v nines).appends [(nameA, fun _ => 0)] = .ok after ∧
    Archived.Holds after.scratch 0 [archived v.fs nameA 4] ∧ sectorSize < after.bufferRead := by
  have ran : onSmallDisk threeBytes (fun v => decide (v.fs.Finds nameA 4 ∧
      (archived v.fs nameA 4).sectors = 1)) = some true := by
    decide +kernel
  obtain ⟨v, reached, facts⟩ := onSmallDisk_reachable ran
  obtain ⟨found, one⟩ := of_decide_eq_true facts
  obtain ⟨⟨after, executed, holds, marks⟩, -⟩ := archive_marker v reached nines
    [(nameA, fun _ => 0)] [archived v.fs nameA 4] (.cons ⟨4, found, rfl⟩ .nil) (one_file_room one)
  exact ⟨v, after, executed, holds, (marks _ rfl).2⟩

/-- The byte behind the buffer is one: the call reads it and writes it to the device, the next
sector keeps its nines, and the archive cannot be extracted into an empty file system. -/
theorem archive_marker_overread : ∃ (v w : Volume) (after : Fsutil),
    ReachableWhile volumeSystem Volume.Permitted v ∧ v.fs.Finds nameA 4 ∧
    Archived.stop 0 [archived v.fs nameA 4] + 2 ≤ nines.size ∧
    (scratchStart v nines).appends [(nameA, fun _ => 1)] = .ok after ∧
    ¬ ArchiveOk after [archived v.fs nameA 4] ∧ after.bufferRead = 513 ∧
    after.scratch.data (512 * 2 + 511) = 1 ∧ after.scratch.data (512 * 3) = 9 ∧
    w.Formatted ∧ (Fsutil.extract ⟨w.fs, after.scratch, 0, 0, 0⟩).toOption.isNone := by
  have ran : onSmallDisk threeBytes (fun v => do
      let after ← ((scratchStart v nines).appends [(nameA, fun _ => 1)]).toOption
      let fs ← (smallDisk.filesysInit true fun _ => 5).toOption
      some (decide ((v.fs.Finds nameA 4 ∧ (archived v.fs nameA 4).sectors = 1) ∧
        after.bufferRead = 513 ∧ after.scratch.data (512 * 2 + 511) = 1 ∧
        after.scratch.data (512 * 3) = 9 ∧
        (Fsutil.extract ⟨fs, after.scratch, 0, 0, 0⟩).toOption.isNone))) =
      some (some true) := by
    decide +kernel
  obtain ⟨v, reached, facts⟩ := onSmallDisk_reachable ran
  obtain ⟨after, executed, rest⟩ := Option.bind_eq_some_iff.mp facts
  obtain ⟨fs, formatted, facts⟩ := Option.bind_eq_some_iff.mp rest
  obtain ⟨⟨found, one⟩, read, byte, next, fails⟩ := of_decide_eq_true (Option.some.inj facts)
  have bad : ¬ ArchiveOk after [archived v.fs nameA 4] := fun good =>
    absurd good.read (read ▸ by decide)
  exact ⟨v, ⟨fs, []⟩, after, reached, found, one_file_room one, toOption_eq_some executed, bad,
    read, byte, next, ⟨rfl, smallDisk, _, rfl, by decide, toOption_eq_some formatted⟩, fails⟩

end Calendarizador.Guarantees
