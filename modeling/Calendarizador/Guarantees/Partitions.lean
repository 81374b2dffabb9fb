import Calendarizador.Source.Partition

/-!
# Partition tables

`read_partition_table` reads sector 0 at every level, so at an extended entry of the MBR it
goes through the MBR once more. The scan is right on a device without extended partitions. On
others it ends only if no two extended offsets add up to a sector of the device, and then it
finds the entries of the MBR in place of those of the extended tables.

`found_partition` checks the sum of start and size for overflow, so what it registers lies
inside the device.
-/
namespace Calendarizador.Guarantees
open Foundation Source List

/-- The bytes of a sector. -/
def sectorOf (block : Block) (sector : Nat) : Nat → BitVec 8 :=
  fun i => block.data (sectorSize * sector + i)

/-- The entries of the MBR. -/
def masterEntries (block : Block) : List PartitionEntry := tableEntries (sectorOf block 0)

section
variable {block : Block}
variable {sector fuel primary : Nat} {scan : Scan} {e : PartitionEntry}

theorem read_of_lt (inside : sector < block.size) :
    block.read sector = .ok (sectorOf block sector) := by
  unfold Block.read Block.checkSector
  rw [if_neg (Nat.not_le.mpr inside)]
  rfl

theorem readPartitionTable_past (past : block.size ≤ sector) :
    readPartitionTable block (fuel + 1) sector primary scan = .ok scan := by
  rw [readPartitionTable, if_pos past]

theorem readPartitionTable_inside (inside : sector < block.size) :
    readPartitionTable block (fuel + 1) sector primary scan =
      if tableSignature (sectorOf block 0) ≠ 0xaa55 then .ok scan
      else (masterEntries block).foldlM
        (scanEntry (readPartitionTable block fuel) sector primary) scan := by
  rw [readPartitionTable, if_neg (Nat.not_le.mpr inside), read_of_lt (Nat.zero_lt_of_lt inside)]
  rfl

/-! ## Registered partitions -/

theorem wordAt_bound (f : Nat → BitVec 8) (a : Nat) : wordAt f a < 4294967296 := by
  have h0 := (f a).isLt
  have h1 := (f (a + 1)).isLt
  have h2 := (f (a + 2)).isLt
  have h3 := (f (a + 3)).isLt
  unfold wordAt
  omega

theorem offset_bound (member : e ∈ masterEntries block) :
    e.offset < 4294967296 ∧ e.size < 4294967296 := by
  obtain ⟨i, _, rfl⟩ := mem_map.mp member
  exact ⟨wordAt_bound _ _, wordAt_bound _ _⟩

/-- Start and size of each call are 32-bit numbers. -/
def Words (scan : Scan) : Prop :=
  ∀ call ∈ scan.found, call.1.start < 4294967296 ∧ call.1.size < 4294967296

theorem readPartitionTable_words : ∀ {sector primary : Nat} {scan after : Scan},
    Words scan → readPartitionTable block fuel sector primary scan = .ok after → Words after := by
  induction fuel with
  | zero =>
    intro sector primary scan after words done
    cases done
  | succ fuel ih =>
    intro sector primary scan after words done
    by_cases inside : sector < block.size
    · rw [readPartitionTable_inside inside] at done
      split at done
      · cases done
        exact words
      · apply foldlM_invariant _ _ words done
        intro scan e after member words step
        unfold scanEntry at step
        split at step
        · cases step
          exact words
        split at step
        · split at step
          · exact ih words step
          · exact ih words step
        · cases step
          intro call found
          rcases mem_append.mp found with old | new
          · exact words call old
          · cases mem_singleton.mp new
            exact ⟨Nat.mod_lt _ (by decide), (offset_bound member).2⟩
    · rw [readPartitionTable_past (Nat.le_of_not_lt inside)] at done
      cases done
      exact words

theorem foundPartition_inside {call : Found} {p : Partition} (start : call.start < 4294967296)
    (size : call.size < 4294967296) (registered : foundPartition block call = some p) :
    p.block = block ∧ p.start + p.size ≤ block.size ∧ p.start + p.size < 4294967296 := by
  unfold foundPartition at registered
  split at registered
  · cases registered
  split at registered
  · cases registered
  · next fits =>
    cases registered
    simp only [sizeT, not_or, Nat.not_lt] at fits ⊢
    exact ⟨trivial, by omega, by omega⟩

/-- Sectors that hold these bytes and zeros. -/
def diskBytes (bytes : List (Nat × Nat)) : Nat → BitVec 8 :=
  fun i => BitVec.ofNat 8 ((bytes.lookup i).getD 0)

/-- Four sectors with one file system partition in the MBR. -/
def plainDisk : Block :=
  ⟨4, diskBytes [(450, 0x21), (454, 1), (458, 2), (510, 0x55), (511, 0xaa)]⟩

/-- Four sectors with an extended partition in the MBR, whose table in sector 1 has a file system
partition. -/
def logicalDisk : Block :=
  ⟨4, diskBytes [(450, 0x05), (454, 1), (458, 3), (510, 0x55), (511, 0xaa),
    (962, 0x21), (966, 1), (970, 1), (1022, 0x55), (1023, 0xaa)]⟩

/-- A partition that the scan registers lies inside its device, as natural numbers, and an
access that passes the check of the partition passes that of the device, at the sector that
lies that far behind the start. -/
theorem registered_partition_inside (block : Block) (fuel : Nat) (scan : Scan)
    (scanned : partitionScan fuel block = .ok scan) (p : Partition)
    (registered : p ∈ scan.registered block) :
    p.block = block ∧ p.start + p.size ≤ block.size ∧ p.start + p.size < 4294967296 ∧
      ∀ sector, p.checkSector sector = .ok () →
        sizeT (p.start + sector) = p.start + sector ∧
        block.checkSector (p.start + sector) = .ok () ∧
        p.read sector = .ok (sectorOf block (p.start + sector)) ∧
        ∀ buffer, p.write sector buffer = .ok { block with
          data := splice block.data (sectorSize * (p.start + sector)) sectorSize buffer } := by
  obtain ⟨call, found, known⟩ := mem_filterMap.mp registered
  have words := readPartitionTable_words (by intro call none; cases none) scanned call found
  obtain ⟨device, inside, noWrap⟩ := foundPartition_inside words.1 words.2 known
  refine ⟨device, inside, noWrap, fun sector passes => ?_⟩
  have within : sector < p.size := by
    unfold Partition.checkSector at passes
    split at passes
    · cases passes
    · omega
  have same : sizeT (p.start + sector) = p.start + sector := sizeT_of_lt (by omega)
  have checked : block.checkSector (p.start + sector) = .ok () := if_neg (by omega)
  refine ⟨same, checked, ?_, fun buffer => ?_⟩
  · unfold Partition.read
    rw [device, same]
    exact read_of_lt (by omega)
  · unfold Partition.write Block.write
    rw [device, same, checked]
    rfl

theorem registered_partition_inside_plain :
    ∃ p : Partition, p.start = 1 ∧ p.size = 2 ∧ p.checkSector 1 = .ok () ∧
      p.read 1 = .ok (sectorOf plainDisk 2) :=
  ⟨_, rfl, rfl, rfl, ((registered_partition_inside plainDisk 1 ⟨1, [(⟨0x21, 1, 2⟩, 1)]⟩ rfl
    ⟨plainDisk, 1, 2, .filesys⟩ mem_cons_self).2.2.2 1 rfl).2.2.1⟩

/-! ## The enumeration -/

/-- The table in the sector and the extended tables that it leads to are a finite tree of
valid tables inside the device, with these calls for its entries in depth-first order. Offsets
of extended entries count from the start of the device in the MBR and from the sector of the
first extended table below it. -/
inductive TableTree (block : Block) : Nat → Nat → List Found → Prop
  | table {sector primary : Nat} (inside : sector < block.size)
      (valid : tableSignature (sectorOf block sector) = 0xaa55)
      (calls : PartitionEntry → List Found)
      (empty : ∀ e ∈ tableEntries (sectorOf block sector), e.isEmpty → calls e = [])
      (plain : ∀ e ∈ tableEntries (sectorOf block sector), e.isEmpty = false →
        e.isExtended = false → calls e = [⟨e.type, e.offset + sector, e.size⟩])
      (extended : ∀ e ∈ tableEntries (sectorOf block sector), e.isEmpty = false →
        e.isExtended → TableTree block (if sector = 0 then e.offset else e.offset + primary)
          (if sector = 0 then e.offset else primary) (calls e)) :
      TableTree block sector primary ((tableEntries (sectorOf block sector)).flatMap calls)

theorem TableTree.inside {calls : List Found} (tree : TableTree block sector primary calls) :
    sector < block.size := by
  cases tree with
  | table inside => exact inside

/-- A table without extended entries. -/
theorem TableTree.leaf (inside : sector < block.size)
    (valid : tableSignature (sectorOf block sector) = 0xaa55)
    (leaf : ∀ e ∈ tableEntries (sectorOf block sector), e.isEmpty = false → e.isExtended = false) :
    TableTree block sector primary ((tableEntries (sectorOf block sector)).flatMap fun e =>
      if e.isEmpty then [] else [⟨e.type, e.offset + sector, e.size⟩]) := by
  apply TableTree.table inside valid
  · intro e member isEmpty
    rw [if_pos isEmpty]
  · intro e member full isPlain
    rw [if_neg (Bool.eq_false_iff.mp full)]
  · intro e member full isExtended
    exact absurd isExtended (Bool.eq_false_iff.mp (leaf e member full))

/-- The scan ends and makes these calls in order, numbered from 1. -/
def Enumerates (block : Block) (calls : List Found) : Prop :=
  ∃ fuel scan, partitionScan fuel block = .ok scan ∧ scan.found = calls.zipIdx 1

/-- The extended entries of the MBR. -/
def extendedEntries (block : Block) : List PartitionEntry :=
  (masterEntries block).filter fun e => !e.isEmpty && e.isExtended

/-- The calls for the plain entries of the MBR as if it were in the sector. -/
def plainCalls (block : Block) (sector : Nat) : List Found :=
  (masterEntries block).flatMap fun e =>
    if e.isEmpty then [] else if e.isExtended then [] else [e.call sector]

/-- The calls of a scan that finds the MBR again at every extended entry. -/
def rereadCalls (block : Block) : List Found :=
  (masterEntries block).flatMap fun e =>
    if e.isEmpty then []
    else if e.isExtended then plainCalls block e.offset
    else [e.call 0]

theorem foldl_count (calls : List Found) (scan : Scan) :
    (calls.foldl Scan.count scan).found = scan.found ++ calls.zipIdx (scan.partNr + 1) := by
  induction calls generalizing scan with
  | nil => simp
  | cons call rest ih =>
    rw [foldl_cons, ih, zipIdx_cons]
    simp [Scan.count]

/-- A scan whose rounds add calls adds the calls of all entries. -/
theorem foldlM_count {read : Nat → Nat → Scan → Except Halt Scan}
    {calls : PartitionEntry → List Found} (entries : List PartitionEntry)
    (round : ∀ e ∈ entries, ∀ scan,
      scanEntry read sector primary scan e = .ok ((calls e).foldl Scan.count scan)) (scan : Scan) :
    entries.foldlM (scanEntry read sector primary) scan =
      .ok ((entries.flatMap calls).foldl Scan.count scan) := by
  induction entries generalizing scan with
  | nil => rfl
  | cons e rest ih =>
    rw [foldlM_cons, round e mem_cons_self, ok_bind,
      ih fun e member => round e (mem_cons_of_mem _ member), flatMap_cons,
      foldl_append]

theorem mem_extendedEntries : e ∈ extendedEntries block ↔
    e ∈ masterEntries block ∧ e.isEmpty = false ∧ e.isExtended = true := by
  simp [extendedEntries]

theorem scanEntry_extended {read : Nat → Nat → Scan → Except Halt Scan}
    (known : e ∈ extendedEntries block) : scanEntry read sector primary scan e =
      if sector = 0 then read e.offset e.offset scan
      else read (sizeT (e.offset + primary)) primary scan := by
  obtain ⟨_, full, extended⟩ := mem_extendedEntries.mp known
  simp only [scanEntry, full, extended, if_true, Bool.false_eq_true, if_false]

section
variable (valid : tableSignature (sectorOf block 0) = 0xaa55)
include valid

/-- With extended offsets that lead past the end of the device, a nested call makes the calls of
the plain entries. -/
theorem reads_plain {a : PartitionEntry} (inside : a.offset < block.size) (nonzero : a.offset ≠ 0)
    (past : ∀ b ∈ extendedEntries block, block.size ≤ sizeT (b.offset + a.offset)) (fuel : Nat)
    (scan : Scan) : readPartitionTable block (fuel + 2) a.offset a.offset scan =
      .ok ((plainCalls block a.offset).foldl Scan.count scan) := by
  rw [readPartitionTable_inside inside, if_neg (not_not.mpr valid)]
  apply foldlM_count
  intro e member scan
  unfold scanEntry
  split
  · rfl
  · next full =>
    split
    · next extended =>
      apply readPartitionTable_past
      exact past e (mem_extendedEntries.mpr ⟨member, Bool.eq_false_iff.mpr full, extended⟩)
    · rfl

/-- With extended offsets that lead past the end of the device in pairs the scan ends. -/
theorem scans_again (inside : ∀ a ∈ extendedEntries block, a.offset < block.size)
    (past : ∀ a ∈ extendedEntries block, ∀ b ∈ extendedEntries block,
      block.size ≤ sizeT (b.offset + a.offset)) (size : 0 < block.size) (fuel : Nat) :
    partitionScan (fuel + 3) block = .ok ((rereadCalls block).foldl Scan.count ⟨0, []⟩) := by
  unfold partitionScan
  rw [readPartitionTable_inside size, if_neg (not_not.mpr valid)]
  apply foldlM_count
  intro e member scan
  unfold scanEntry
  split
  · rfl
  · next full =>
    split
    · next extended =>
      have known := mem_extendedEntries.mpr ⟨member, Bool.eq_false_iff.mpr full, extended⟩
      rw [if_pos rfl]
      apply reads_plain valid (inside e known)
      · intro zero
        have wrapped := past e known e known
        rw [zero] at wrapped
        exact absurd size (Nat.not_lt.mpr wrapped)
      · exact past e known
    · rfl

/-- Two extended offsets that add up to a sector of the device lead from table to table without
end. -/
theorem scan_unfinished {a b : PartitionEntry} (first : a ∈ extendedEntries block)
    (second : b ∈ extendedEntries block) (inside : a.offset < block.size)
    (again : sizeT (b.offset + a.offset) < block.size) (fuel : Nat) :
    ∀ (sector primary : Nat) (scan after : Scan), sector < block.size →
      (sector ≠ 0 → primary = a.offset) →
      readPartitionTable block fuel sector primary scan ≠ .ok after := by
  induction fuel with
  | zero =>
    intro sector primary scan after here base done
    cases done
  | succ fuel ih =>
    intro sector primary scan after here base done
    rw [readPartitionTable_inside here, if_neg (not_not.mpr valid)] at done
    -- In the MBR the round of `a` does not end, below it the round of `b`.
    by_cases zero : sector = 0
    · obtain ⟨scan, after, round⟩ := foldlM_round (mem_extendedEntries.mp first).1 done
      rw [scanEntry_extended first, if_pos zero] at round
      exact ih _ _ scan after inside (fun _ => rfl) round
    · obtain ⟨scan, after, round⟩ := foldlM_round (mem_extendedEntries.mp second).1 done
      rw [scanEntry_extended second, if_neg zero, base zero] at round
      exact ih _ _ scan after again (fun _ => rfl) round

end

/-- More nested calls do not change the result. -/
theorem readPartitionTable_mono {fuel : Nat} : ∀ {sector primary : Nat} {scan after : Scan},
    readPartitionTable block fuel sector primary scan = .ok after →
    readPartitionTable block (fuel + 1) sector primary scan = .ok after := by
  induction fuel with
  | zero =>
    intro sector primary scan after done
    cases done
  | succ fuel ih =>
    intro sector primary scan after done
    by_cases inside : sector < block.size
    · rw [readPartitionTable_inside inside] at done ⊢
      split at done
      · next invalid =>
        rw [if_pos invalid]
        exact done
      · next valid =>
        rw [if_neg valid]
        apply foldlM_mono _ _ done
        intro scan e after round
        unfold scanEntry at round ⊢
        split at round
        · next empty => rw [if_pos empty, round]
        · next full =>
          rw [if_neg full]
          split at round
          · next extended =>
            rw [if_pos extended]
            split at round
            · next zero => rw [if_pos zero, ih round]
            · next below => rw [if_neg below, ih round]
          · next plain => rw [if_neg plain, round]
    · rw [readPartitionTable_past (Nat.le_of_not_lt inside)] at done ⊢
      exact done

theorem readPartitionTable_add {fuel sector primary : Nat} {scan after : Scan}
    (done : readPartitionTable block fuel sector primary scan = .ok after) (more : Nat) :
    readPartitionTable block (fuel + more) sector primary scan = .ok after := by
  induction more with
  | zero => exact done
  | succ more ih => exact readPartitionTable_mono ih

theorem zipIdx_injective {α : Type} {l m : List α} {n : Nat} (same : l.zipIdx n = m.zipIdx n) :
    l = m := by
  rw [← zipIdx_map_fst n l, same, zipIdx_map_fst]

/-- On a device whose tables are a finite tree of valid ones, the scan ends with the calls of
the tree exactly if the MBR has no extended entry, or if the extended offsets add up to sectors
past the end of the device and the plain entries of the MBR, read again for each extended entry,
happen to be those of the tree. -/
theorem partitionScan_enumerates_iff (block : Block) (calls : List Found)
    (tree : TableTree block 0 0 calls) :
    Enumerates block calls ↔ extendedEntries block = [] ∨
      (∀ a ∈ extendedEntries block, ∀ b ∈ extendedEntries block,
        block.size ≤ sizeT (b.offset + a.offset)) ∧ calls = rereadCalls block := by
  cases tree with
  | table size valid parts empty plain extended =>
  have inside : ∀ a ∈ extendedEntries block, a.offset < block.size := by
    intro a known
    obtain ⟨member, full, isExtended⟩ := mem_extendedEntries.mp known
    have nested := extended a member full isExtended
    exact nested.inside
  have none : extendedEntries block = [] →
      (tableEntries (sectorOf block 0)).flatMap parts = rereadCalls block := by
    intro none
    apply congrArg List.flatten
    apply map_congr_left
    intro e member
    split
    · next isEmpty => exact empty e member isEmpty
    · next full =>
      have full := Bool.eq_false_iff.mpr full
      split
      · next isExtended =>
        have known := mem_extendedEntries.mpr ⟨member, full, isExtended⟩
        rw [none] at known
        cases known
      · next isPlain =>
        rw [plain e member full (Bool.eq_false_iff.mpr isPlain), PartitionEntry.call,
          Nat.add_zero, sizeT_of_lt (offset_bound member).1]
  have again := scans_again valid inside
  constructor
  · intro enumerates
    obtain ⟨fuel, scan, done, found⟩ := enumerates
    right
    have past : ∀ a ∈ extendedEntries block, ∀ b ∈ extendedEntries block,
        block.size ≤ sizeT (b.offset + a.offset) := by
      intro a first b second
      by_contra inner
      exact scan_unfinished valid first second (inside a first) (Nat.lt_of_not_le inner) fuel 0 0
        _ _ size (fun nonzero => absurd rfl nonzero) done
    refine ⟨past, ?_⟩
    have same := (readPartitionTable_add done 3).symm.trans (again past size fuel)
    cases same
    rw [foldl_count] at found
    exact (zipIdx_injective found).symm
  · intro condition
    have ready : (∀ a ∈ extendedEntries block, ∀ b ∈ extendedEntries block,
        block.size ≤ sizeT (b.offset + a.offset)) ∧
        (tableEntries (sectorOf block 0)).flatMap parts = rereadCalls block := by
      rcases condition with nothing | ready
      · refine ⟨fun a known => ?_, none nothing⟩
        rw [nothing] at known
        cases known
      · exact ready
    exact ⟨3, _, again ready.1 size 0, by rw [foldl_count, ready.2]; rfl⟩

end

theorem plainDisk_tree : TableTree plainDisk 0 0 [⟨0x21, 1, 2⟩] :=
  TableTree.leaf (by decide) (by decide) (by decide)

theorem partitionScan_enumerates_iff_plain :
    TableTree plainDisk 0 0 [⟨0x21, 1, 2⟩] ∧ Enumerates plainDisk [⟨0x21, 1, 2⟩] :=
  ⟨plainDisk_tree, (partitionScan_enumerates_iff plainDisk _ plainDisk_tree).mpr (.inl rfl)⟩

theorem logicalDisk_tree : TableTree logicalDisk 0 0 [⟨0x21, 2, 1⟩] := by
  apply TableTree.table (by decide) (by decide) fun e =>
    if e.isEmpty then [] else [⟨0x21, 2, 1⟩]
  · intro e member isEmpty
    rw [if_pos isEmpty]
  · decide
  · have only : ∀ e ∈ tableEntries (sectorOf logicalDisk 0), e.isEmpty = false → e.offset = 1 := by
      decide
    intro e member full isExtended
    rw [if_pos rfl, if_pos rfl, if_neg (Bool.eq_false_iff.mp full), only e member full]
    exact TableTree.leaf (by decide) (by decide) (by decide)

/-- The extended entry at offset 1 leads back to the MBR at sector 2, and from there again. -/
theorem partitionScan_rereads : TableTree logicalDisk 0 0 [⟨0x21, 2, 1⟩] ∧
    (∀ fuel scan, partitionScan fuel logicalDisk ≠ .ok scan) ∧
    ¬ Enumerates logicalDisk [⟨0x21, 2, 1⟩] := by
  have endless : ∀ fuel scan, partitionScan fuel logicalDisk ≠ .ok scan := by
    intro fuel scan
    have known : (⟨5, 1, 3⟩ : PartitionEntry) ∈ extendedEntries logicalDisk :=
      mem_extendedEntries.mpr ⟨mem_cons_self, rfl, rfl⟩
    exact scan_unfinished (by decide) known known (by decide) (by decide) fuel 0 0 _ _ (by decide)
      (fun nonzero => absurd rfl nonzero)
  refine ⟨logicalDisk_tree, endless, fun enumerates => ?_⟩
  obtain ⟨fuel, scan, done, _⟩ := enumerates
  exact endless fuel scan done

end Calendarizador.Guarantees
