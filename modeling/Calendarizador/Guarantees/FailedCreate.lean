import Calendarizador.Guarantees.FileSystem

/-!
# A creation that fails

A call of `filesys_create` that returns false leaves the free map, the root directory and the
open inodes as they were, unless the directory is what did not take the file: the sectors of
the data are allocated then and stay allocated.
-/
namespace Calendarizador.Guarantees
open Foundation Source FileSys

/-- The free map, the bytes of the root directory and the open inodes are as they were. -/
structure SameAllocation (s after : FileSys) : Prop where
  freeMap : after.freeMap.bitCnt = s.freeMap.bitCnt ∧
    ∀ j, after.freeMap.bit j = s.freeMap.bit j
  root : SameRoot s after
  openInodes : after.openInodes = s.openInodes

/-- Sectors for the data are taken before the directory refuses the name. -/
def LeaksData (s : FileSys) (name : CString) (initialSize : Int) : Prop :=
  0 < bytesToSectors initialSize ∧ s.Room (bytesToSectors initialSize) ∧
    s.Refuses (s.inodeAt rootDirSector) 16 name

/-- Nothing has changed if and only if no data sector was lost. -/
theorem sameAllocation_iff {s after : FileSys} {name : CString} {initialSize : Int}
    (left : s.Leftover after name (bytesToSectors initialSize)) :
    SameAllocation s after ↔ ¬ LeaksData s name initialSize := by
  obtain ⟨lost, bits, clear, reason⟩ := left.lost
  constructor
  · rintro same ⟨some_, room, -⟩
    rcases reason with ⟨-, none_⟩ | ⟨all, -⟩
    · exact none_ room
    · have first : lost.start ∈ lost := by
        simp only [Span.mem_iff, Span.stop]
        omega
      have marked := bits lost.start
      rw [if_pos first, same.freeMap.2, clear _ first] at marked
      cases marked
  · intro kept
    have none_ : lost.count = 0 := by
      rcases reason with ⟨none_, -⟩ | ⟨all, room, refuses⟩
      · exact none_
      · by_contra some_
        exact kept ⟨by omega, room, refuses⟩
    refine ⟨⟨left.count, fun j => ?_⟩, left.root, left.table⟩
    rw [bits, if_neg (Span.not_mem_of_count none_ j)]

/-- In every state that calls lead to, a creation that fails leaves everything as it was,
exactly if it does not take data sectors for a name that the directory refuses. -/
theorem failed_create_unchanged (v : Volume) (h : ReachableWhile volumeSystem Volume.Permitted v)
    (name : CString) (initialSize : Int) (low : 0 ≤ initialSize) (high : initialSize < 2147483648) :
    ∃ success after, v.fs.filesysCreate name initialSize = .ok (success, after) ∧
      ((success = false → SameAllocation v.fs after) ↔ ¬ LeaksData v.fs name initialSize) := by
  have ok := Volume.reachable_ok h
  rcases ok.consistent.filesysCreate ok.refs_root name high with
    ⟨success, after, created, -, -, -, taken, failed⟩ | ⟨negative, -⟩
  swap
  · omega
  refine ⟨success, after, created, ?_⟩
  cases success with
  | true => exact iff_of_true nofun fun leaks => taken rfl leaks.2.2
  | false =>
    have iff := sameAllocation_iff (failed rfl)
    exact ⟨fun same => iff.mp (same rfl), fun kept _ => iff.mpr kept⟩

/-- The second file of the name is empty. -/
theorem failed_create_unchanged_empty : ∃ (v : Volume) (after : FileSys),
    v.fs.filesysCreate nameA 0 = .ok (false, after) ∧ SameAllocation v.fs after := by
  have ran : onSmallDisk [.create nameA 1]
      (fun v => (v.fs.filesysCreate nameA 0).toOption.map Prod.fst) = some (some false) := by
    decide +kernel
  obtain ⟨v, reached, result⟩ := onSmallDisk_reachable ran
  obtain ⟨success, after, created, same⟩ :=
    failed_create_unchanged v reached nameA 0 (by decide) (by decide)
  rw [created] at result
  obtain rfl : success = false := Option.some.inj result
  exact ⟨v, after, created, same.mpr (fun leaks => absurd leaks.1 (by decide)) rfl⟩

/-- The second file of the name has a byte: its data sector is lost. -/
theorem failed_create_leak : ∃ (v : Volume) (after : FileSys),
    ReachableWhile volumeSystem Volume.Permitted v ∧
    v.fs.filesysCreate nameA 1 = .ok (false, after) ∧ v.fs.freeMap.bit 7 = false ∧
    after.freeMap.bit 7 = true ∧ ¬ SameAllocation v.fs after := by
  have ran : onSmallDisk [.create nameA 1] (fun v => (v.fs.filesysCreate nameA 1).toOption.map
      fun r => (r.1, v.fs.freeMap.bit 7, r.2.freeMap.bit 7)) =
      some (some (false, false, true)) := by
    decide +kernel
  obtain ⟨v, reached, result⟩ := onSmallDisk_reachable ran
  cases created : v.fs.filesysCreate nameA 1 with
  | error halt =>
    rw [created] at result
    cases result
  | ok r =>
    obtain ⟨success, after⟩ := r
    rw [created] at result
    have facts := Option.some.inj result
    simp only [Prod.mk.injEq] at facts
    obtain ⟨rfl, clear, marked⟩ := facts
    refine ⟨v, after, reached, created, clear, marked, fun same => ?_⟩
    rw [same.freeMap.2, clear] at marked
    cases marked

end Calendarizador.Guarantees
