import Calendarizador.Invariant.HandleRuns
import Mathlib.Data.List.Nodup

/-!
# The table of open inodes

In every run of calls on inodes, files and directories, with allocations that fail or not, the
list of open inodes has one structure for each inode somebody points to, and its counts are
the numbers of pointers and of files that deny writes. The counts are of type `int`: the
2^31st pointer to an inode makes its `open_cnt` negative.
-/
namespace Calendarizador.Guarantees
open Foundation Source List

/-- What holds of `open_inodes`, and that no assertion of `inode_deny_write` or
`inode_allow_write` fails for a file that is open. -/
structure OpenInodesOk (v : Handles) : Prop where
  sectors : (v.table.openInodes.map fun a => (v.table.cell a).sector).Nodup
  listed : ∀ a, a ∈ v.table.openInodes ↔ v.refs a ≠ 0
  opened : ∀ a ∈ v.table.openInodes, (v.table.cell a).inode.openCnt = v.refs a
  denied : ∀ a ∈ v.table.openInodes, (v.table.cell a).inode.denyWriteCnt = v.denials a ∧
    (v.table.cell a).inode.denyWriteCnt ≤ (v.table.cell a).inode.openCnt
  deny : ∀ file ∈ v.files, ∃ after,
    v.table.fileDenyWrite file = .ok ({ file with denyWrite := true }, after)
  allow : ∀ file ∈ v.files, ∃ after,
    v.table.fileAllowWrite file = .ok ({ file with denyWrite := false }, after)

theorem openInodesOk_of_ok {v : Handles} (ok : v.Ok) : OpenInodesOk v := by
  have tallies : v.table.Tallies v.refs v.denials := ok
  refine ⟨?_, tallies.listed, tallies.opened, fun a listed => ⟨tallies.denied a listed, ?_⟩,
    fun file member => ?_, fun file member => ?_⟩
  · exact List.Nodup.map_on tallies.sectors tallies.nodup
  · rw [tallies.denied a listed, tallies.opened a listed]
    exact_mod_cast tallies.le a
  · obtain ⟨i, below, rfl⟩ := getElem_of_mem member
    obtain ⟨after, done, -⟩ := ok.fileDenyWrite below
    exact ⟨after, done⟩
  · obtain ⟨i, below, rfl⟩ := getElem_of_mem member
    obtain ⟨after, done, -⟩ := ok.fileAllowWrite below
    exact ⟨after, done⟩

/-- Every run in which no inode gets more than 2^31 - 1 pointers. -/
theorem open_inodes_counted (v : Handles)
    (h : ReachableWhile handleSystem (fun v e => v.Callable e ∧ v.Fits e) v) : OpenInodesOk v :=
  openInodesOk_of_ok (Handles.reachable_ok h)

/-- No inode is open; the device has eight sectors. -/
def nothingOpen : Handles :=
  ⟨⟨[], fun _ => ⟨0, ⟨0, false, 0, ⟨0, 0, 0⟩⟩⟩, ⟨8, fun _ => 0⟩, ⟨0, fun _ => 0⟩, none⟩, [], [], []⟩

/-- A file that denies writes, a directory of the same inode, a file that is not opened again
for want of memory, and an inode that is closed. -/
theorem open_inodes_counted_shared : ∃ v, OpenInodesOk v ∧ v.table.openInodes = [7] ∧ v.refs 7 = 2 ∧
    v.denials 7 = 1 := by
  obtain ⟨v, reached, facts⟩ := runWhile_holds handleSystem (fun v e => v.Callable e ∧ v.Fits e)
    nothingOpen ⟨rfl, rfl, rfl, rfl⟩
    [.inodeOpen 3 (some 7), .inodeOpen 3 none, .fileOpen (some 0) true, .dirOpen (some 0) true,
      .fileDenyWrite 0, .fileReopen 0 false, .inodeOpen 5 (some 9), .inodeClose (some 0)]
    (P := fun v => v.table.openInodes = [7] ∧ v.refs 7 = 2 ∧ v.denials 7 = 1) (by decide +kernel)
  exact ⟨v, open_inodes_counted v reached, facts⟩

/-- `inode_reopen` called `n` times. -/
theorem reopen_times {v : Handles} {a : Nat} (n : Nat)
    (reached : ReachableWhile handleSystem Handles.Callable v) (listed : a ∈ v.table.openInodes)
    (range : i32 (v.table.cell a).inode.openCnt = (v.table.cell a).inode.openCnt) :
    ∃ after, ReachableWhile handleSystem Handles.Callable after ∧
      after.table.openInodes = v.table.openInodes ∧
      (after.table.cell a).inode = { (v.table.cell a).inode with
        openCnt := i32 ((v.table.cell a).inode.openCnt + n) } ∧
      after.inodes = List.replicate n a ++ v.inodes ∧ after.files = v.files ∧
      after.dirs = v.dirs := by
  induction n with
  | zero =>
    refine ⟨v, reached, rfl, ?_, rfl, rfl, rfl⟩
    rw [Nat.cast_zero, Int.add_zero, range]
  | succ n ih =>
    obtain ⟨after, reached', list, inode, inodes, files, dirs⟩ := ih
    refine ⟨_, reached'.step (.inodeReopen (some a)) ?_ rfl, list, ?_, ?_, files, dirs⟩
    · rintro b ⟨⟩
      rwa [list]
    · rw [InodeList.inodeReopen, InodeList.setInode_inode, if_pos rfl, inode]
      have once : i32 (i32 ((v.table.cell a).inode.openCnt + n) + 1) =
          i32 ((v.table.cell a).inode.openCnt + (n + 1 : Nat)) := by
        simp only [i32]
        omega
      rw [once]
    · rw [inodes]
      rfl

/-- With 2^31 pointers to an inode its count is negative, and a file cannot deny writes. -/
theorem open_inodes_overflow : ∃ v, ReachableWhile handleSystem Handles.Callable v ∧
    v.refs 7 = 2147483648 ∧ (v.table.cell 7).inode.openCnt = -2147483648 ∧
    v.step (.fileDenyWrite 0) = .error .assertion ∧ ¬ OpenInodesOk v := by
  obtain ⟨v, first, listed, opened, denied, inodes, files, dirs⟩ := runWhile_holds handleSystem
    Handles.Callable nothingOpen ⟨rfl, rfl, rfl, rfl⟩
    [.inodeOpen 3 (some 7), .inodeReopen (some 7), .fileOpen (some 0) true] (P := fun v =>
      7 ∈ v.table.openInodes ∧ (v.table.cell 7).inode.openCnt = 2 ∧
        (v.table.cell 7).inode.denyWriteCnt = 0 ∧ v.inodes = [7] ∧ v.files = [⟨7, 0, false⟩] ∧
        v.dirs.length = 0) (by decide +kernel)
  obtain ⟨after, reached, list, inode, inodes', files', dirs'⟩ :=
    reopen_times 2147483646 first listed (by rw [opened]; decide)
  have refs : after.refs 7 = 2147483648 := by
    rw [Handles.refs, Handles.pointers, inodes', files', dirs', inodes, files,
      length_eq_zero_iff.mp dirs, count_append, count_append, count_append,
      count_replicate_self]
    decide
  have count : (after.table.cell 7).inode.openCnt = -2147483648 := by
    rw [inode, opened]
    rfl
  refine ⟨after, reached, refs, count, ?_, fun ok => ?_⟩
  · have file : after.files[0]? = some ⟨7, 0, false⟩ := by
      rw [files', files]
      rfl
    have none_ : (after.table.cell 7).inode.denyWriteCnt = 0 := by
      rw [inode]
      exact denied
    rw [Handles.step, Handles.get, file]
    change (after.table.fileDenyWrite ⟨7, 0, false⟩ >>= _) = _
    have fails : after.table.fileDenyWrite ⟨7, 0, false⟩ = .error .assertion := by
      rw [InodeList.fileDenyWrite, if_pos (by decide), InodeList.inodeDenyWrite]
      rw [none_, count]
      rfl
    rw [fails]
    rfl
  · have opened' := ok.opened 7 (list ▸ listed)
    rw [count, refs] at opened'
    exact absurd opened' (by decide)

end Calendarizador.Guarantees
