import Calendarizador.Invariant.Owners

/-!
# Opening and closing inodes
-/
namespace Calendarizador.Source
open Foundation

namespace FileSys
variable {s : FileSys} {live : Nat → Prop} {sector : Nat} {node : Inode}

/-- The structure of the inode after it was opened once more. -/
def reopened (s : FileSys) (sector : Nat) : Inode :=
  match s.openInodes sector with
  | some node => { node with openCnt := node.openCnt + 1 }
  | none => ⟨1, false, 0, s.inodeAt sector⟩

theorem inodeOpen_eq (below : sector < s.device.size) : s.inodeOpen sector true =
      .ok (some sector, s.setInode sector (some (s.reopened sector))) := by
  unfold inodeOpen reopened
  cases open_ : s.openInodes sector with
  | none =>
    rw [if_pos rfl, Block.read_eq below]
    rfl
  | some node =>
    unfold inodeReopen
    rw [inode_eq open_]
    rfl

theorem reopened_data (ok : s.Sound live) (sector : Nat) :
    (s.reopened sector).data = s.inodeAt sector := by
  unfold reopened
  cases open_ : s.openInodes sector with
  | none => rfl
  | some node => exact (ok.cached sector node open_).2

theorem Sound.reopened (ok : s.Sound live) (other : sector ≠ freeMapSector)
    (member : live sector) : (s.setInode sector (some (s.reopened sector))).Sound live := by
  refine ok.setInode _ other fun node same => ⟨member, ?_⟩
  rw [← Option.some.inj same]
  exact reopened_data ok sector

theorem inodeClose_more (open_ : s.openInodes sector = some node) (more : node.openCnt ≠ 1) :
    s.inodeClose (some sector) =
      .ok (s.setInode sector (some { node with openCnt := node.openCnt - 1 })) := by
  unfold inodeClose
  dsimp only
  rw [inode_eq open_, ok_bind, if_neg (by omega)]

theorem inodeClose_last (open_ : s.openInodes sector = some node) (last : node.openCnt = 1)
    (kept : node.removed = false) : s.inodeClose (some sector) = .ok (s.setInode sector none) := by
  unfold inodeClose
  dsimp only
  rw [inode_eq open_, ok_bind, if_pos (by omega)]
  rw [kept]
  rfl

/-- The last close of a removed file gives its sectors back. -/
theorem Sound.inodeClose_removed (ok : s.Sound live) (open_ : s.openInodes sector = some node)
    (last : node.openCnt = 1) (removed : node.removed = true) (other : sector ≠ freeMapSector) :
    ∃ after, s.inodeClose (some sector) = .ok after ∧
      after.Sound (fun owner => live owner ∧ owner ≠ sector) ∧
      Keeps (fun owner => live owner ∧ owner ≠ sector) (· = freeMapSector) s after ∧
      after.openInodes = Function.update s.openInodes sector none := by
  obtain ⟨member, data⟩ := ok.cached sector node open_
  obtain ⟨below, inside⟩ := ok.inside sector member
  -- the inode is off the list
  have off : (s.setInode sector none).Sound fun owner => live owner ∧ owner ≠ sector := by
    refine (ok.setInode none other (by simp)).mono (fun owner both => both.1)
      ⟨ok.free_map, other.symm⟩ ?_
    intro owner listed
    rw [setInode_openInodes, Function.update_apply] at listed
    split at listed
    · exact absurd rfl listed
    · next different =>
      obtain ⟨node', here⟩ := Option.ne_none_iff_exists'.mp listed
      exact ⟨(ok.cached owner node' here).1, different⟩
  have spared : ∀ owner n, live owner ∧ owner ≠ sector → s.Owns owner n → ¬ s.Owns sector n :=
    fun owner n both owns own => both.2 (ok.one owner sector n both.1 member owns own)
  -- its own sector goes first
  obtain ⟨middle, first, okMiddle, keeps, table, bits⟩ :=
    off.release sector 1 below
      (fun n here => by
        obtain rfl : n = sector := by
          simp only [Span.mem_iff, Span.stop] at here
          omega
        exact ok.used n n member (.inl rfl))
      (fun owner n both owns here => by
        obtain rfl : n = sector := by
          simp only [Span.mem_iff, Span.stop] at here
          omega
        exact spared owner n both owns (.inl rfl))
  have device : middle.device.size = s.device.size := keeps.size
  -- then its data
  obtain ⟨after, second, okAfter, keeps', table', -⟩ :=
    okMiddle.release node.data.start (bytesToSectors node.data.length)
      (by
        have stop := inside.stop
        rw [data, device]
        exact stop)
      (fun n here => by
        rw [data] at here
        rw [bits, if_neg]
        · exact ok.used sector n member (.inr here)
        · intro own
          obtain rfl : n = sector := by
            simp only [Span.mem_iff, Span.stop] at own
            omega
          exact ok.self n member here)
      (fun owner n both owns here => by
        rw [data] at here
        exact spared owner n both ((keeps.inode both).owns.mp owns) (.inr here))
  refine ⟨after, ?_, okAfter, ?_, ?_⟩
  · unfold FileSys.inodeClose
    dsimp only
    rw [inode_eq open_, ok_bind, if_pos (by omega)]
    rw [if_pos removed, first, ok_bind, second]
  · have both := keeps.trans keeps'
    exact ⟨both.size, both.same⟩
  · rw [table', table]
    rfl

end FileSys
end Calendarizador.Source
