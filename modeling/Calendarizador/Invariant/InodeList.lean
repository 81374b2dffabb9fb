import Calendarizador.Invariant.OpenInodes
import Calendarizador.Source.InodeList
import Mathlib.Data.List.Perm.Basic

/-!
# The counts of open inodes

`Tallies t refs denials`: the list has one structure for each inode with a pointer to it, and
its counts are the number of pointers and of files that deny writes. Each operation changes
the tallies at one inode.
-/
namespace Calendarizador.Source
open Foundation Function List

namespace InodeList

structure Tallies (t : InodeList) (refs denials : Nat → Nat) : Prop where
  nodup : t.openInodes.Nodup
  sectors : ∀ a ∈ t.openInodes, ∀ b ∈ t.openInodes, (t.cell a).sector = (t.cell b).sector → a = b
  listed : ∀ a, a ∈ t.openInodes ↔ refs a ≠ 0
  opened : ∀ a ∈ t.openInodes, (t.cell a).inode.openCnt = refs a
  denied : ∀ a ∈ t.openInodes, (t.cell a).inode.denyWriteCnt = denials a
  few : ∀ a, refs a < 2147483648
  le : ∀ a, denials a ≤ refs a

section
variable {t after : InodeList} {refs denials : Nat → Nat} {a : Nat} {node : Inode} {sector : Nat}

theorem setInode_sector (t : InodeList) (a : Nat) (node : Inode) (b : Nat) :
    ((t.setInode a node).cell b).sector = (t.cell b).sector := by
  rw [setInode_cell, update_apply]
  split
  · next same => rw [same]
  · rfl

theorem setInode_inode (t : InodeList) (a : Nat) (node : Inode) (b : Nat) :
    ((t.setInode a node).cell b).inode = if b = a then node else (t.cell b).inode := by
  rw [setInode_cell, update_apply]
  exact apply_ite _ _ _ _

theorem find_eq_some (found : t.find sector = some a) :
    a ∈ t.openInodes ∧ (t.cell a).sector = sector := by
  have holds := List.find?_some found
  exact ⟨mem_of_find?_eq_some found, by simpa using holds⟩

theorem find_eq_none (absent : t.find sector = none) {b : Nat} (listed : b ∈ t.openInodes) :
    (t.cell b).sector ≠ sector := by
  have not := List.find?_eq_none.mp absent b listed
  simpa using not

/-- The counts of an inode that is open change. -/
theorem Tallies.setInode (ok : t.Tallies refs denials) {r d : Nat} (open_ : r ≠ 0)
    (listed : a ∈ t.openInodes) (count : node.openCnt = r) (deny : node.denyWriteCnt = d)
    (few : r < 2147483648) (le : d ≤ r) :
    (t.setInode a node).Tallies (update refs a r) (update denials a d) := by
  refine ⟨ok.nodup, fun b first c second same => ?_, fun b => ?_, fun b member => ?_,
    fun b member => ?_, fun b => ?_, fun b => ?_⟩
  · rw [setInode_sector, setInode_sector] at same
    exact ok.sectors b first c second same
  · rw [setInode_openInodes, update_apply]
    split
    · next same => exact iff_of_true (same ▸ listed) open_
    · exact ok.listed b
  · rw [setInode_inode, update_apply]
    split
    · exact count
    · exact ok.opened b member
  · rw [setInode_inode, update_apply]
    split
    · exact deny
    · exact ok.denied b member
  · rw [update_apply]
    split
    · exact few
    · exact ok.few b
  · rw [update_apply, update_apply]
    split
    · exact le
    · exact ok.le b

theorem Tallies.inodeReopen (ok : t.Tallies refs denials) (listed : a ∈ t.openInodes)
    (fits : refs a < 2147483647) :
    (t.inodeReopen a).Tallies (update refs a (refs a + 1)) denials := by
  have count := ok.opened a listed
  have le := ok.le a
  have more : i32 ((t.cell a).inode.openCnt + 1) = (refs a + 1 : Nat) := by
    rw [count]
    simp only [i32]
    omega
  have result : (t.inodeReopen a).Tallies (update refs a (refs a + 1))
      (update denials a (denials a)) :=
    ok.setInode (Nat.succ_ne_zero (refs a)) listed more (ok.denied a listed) (by omega) (by omega)
  rwa [update_eq_self] at result

/-- A structure is put in front of the list. -/
theorem Tallies.push (ok : t.Tallies refs denials) (new : a ∉ t.openInodes)
    (absent : t.find sector = none) (data : InodeDisk) :
    (t.push a ⟨sector, ⟨1, false, 0, data⟩⟩).Tallies (update refs a (refs a + 1))
      denials := by
  have none_ : refs a = 0 := not_not.mp (mt (ok.listed a).mpr new)
  have kind : denials a = 0 := Nat.le_zero.mp (none_ ▸ ok.le a)
  have other {b : Nat} (listed : b ∈ t.openInodes) : b ≠ a := fun same => new (same ▸ listed)
  refine ⟨nodup_cons.mpr ⟨new, ok.nodup⟩, ?_, fun b => ?_, ?_, ?_, fun b => ?_, fun b => ?_⟩
  · intro b first c second same
    rw [push_cell, push_cell] at same
    rcases mem_cons.mp first with rfl | here <;>
      rcases mem_cons.mp second with rfl | here'
    · rfl
    · rw [update_self, update_of_ne (other here')] at same
      exact absurd same.symm (find_eq_none absent here')
    · rw [update_self, update_of_ne (other here)] at same
      exact absurd same (find_eq_none absent here)
    · rw [update_of_ne (other here), update_of_ne (other here')] at same
      exact ok.sectors b here c here' same
  · rw [push_openInodes, mem_cons, update_apply, ok.listed]
    split
    · next same => exact iff_of_true (.inl same) (Nat.succ_ne_zero _)
    · next different => exact or_iff_right different
  · intro b member
    rw [push_cell]
    rcases mem_cons.mp member with rfl | listed
    · rw [update_self, update_self, none_]
      rfl
    · rw [update_of_ne (other listed), update_of_ne (other listed)]
      exact ok.opened b listed
  · intro b member
    rw [push_cell]
    rcases mem_cons.mp member with rfl | listed
    · rw [update_self, kind]
      rfl
    · rw [update_of_ne (other listed)]
      exact ok.denied b listed
  · rw [update_apply, none_]
    split
    · decide
    · exact ok.few b
  · rw [update_apply]
    split
    · next same => exact same ▸ (ok.le a).trans (Nat.le_succ _)
    · exact ok.le b

/-- `inode_open` adds a pointer to the inode it returns. -/
theorem Tallies.inodeOpen (ok : t.Tallies refs denials) {memory found : Option Nat}
    (fresh : ∀ a ∈ memory, a ∉ t.openInodes) (fits : ∀ a ∈ t.find sector, refs a < 2147483647)
    (done : t.inodeOpen sector memory = .ok (found, after)) :
    (∃ a, found = some a ∧ after.Tallies (update refs a (refs a + 1)) denials) ∨
    (found = none ∧ after = t) := by
  unfold InodeList.inodeOpen at done
  cases there : t.find sector with
  | some a =>
    rw [there] at done
    cases done
    exact .inl ⟨a, rfl, ok.inodeReopen (find_eq_some there).1 (fits a there)⟩
  | none =>
    rw [there] at done
    cases memory with
    | none =>
      cases done
      exact .inr ⟨rfl, rfl⟩
    | some a =>
      obtain ⟨buffer, -, equal⟩ := bind_eq_ok.mp done
      cases equal
      exact .inl ⟨a, rfl, ok.push (fresh a rfl) there _⟩

/-- The last pointer to an inode is given up. -/
theorem Tallies.erase (ok : t.Tallies refs denials) (none_ : denials a = 0) :
    Tallies { t with openInodes := t.openInodes.erase a } (update refs a 0) denials := by
  have member (b : Nat) : b ∈ t.openInodes.erase a ↔ b ≠ a ∧ b ∈ t.openInodes :=
    ok.nodup.mem_erase_iff
  refine ⟨ok.nodup.erase a, fun b first c second => ?_, fun b => ?_, fun b here => ?_,
    fun b here => ?_, fun b => ?_, fun b => ?_⟩
  · exact ok.sectors b ((member b).mp first).2 c ((member c).mp second).2
  · rw [member, update_apply]
    split
    · next same => simp [same]
    · next other => simp only [ne_eq, other, not_false_eq_true, true_and, ok.listed b]
  · obtain ⟨other, listed⟩ := (member b).mp here
    rw [update_of_ne other]
    exact ok.opened b listed
  · exact ok.denied b ((member b).mp here).2
  · rw [update_apply]
    split
    · decide
    · exact ok.few b
  · rw [update_apply]
    split
    · next same => rw [same, none_]
    · exact ok.le b

/-- What does not touch the list does not touch the tallies. -/
theorem Tallies.congr (ok : t.Tallies refs denials) (list : after.openInodes = t.openInodes)
    (cell : after.cell = t.cell) : after.Tallies refs denials := by
  obtain ⟨nodup, sectors, listed, opened, denied, few, le⟩ := ok
  refine ⟨?_, ?_, ?_, ?_, ?_, few, le⟩
  all_goals rw [list]
  · exact nodup
  · rw [cell]
    exact sectors
  · exact listed
  · rw [cell]
    exact opened
  · rw [cell]
    exact denied

/-- `inode_close` gives up a pointer, which is not that of a file that denies writes. -/
theorem Tallies.inodeClose (ok : t.Tallies refs denials) (held : refs a ≠ 0)
    (spare : denials a ≤ refs a - 1) (done : t.inodeClose (some a) = .ok after) :
    after.Tallies (update refs a (refs a - 1)) denials := by
  have listed := (ok.listed a).mpr held
  have few := ok.few a
  have fewer : i32 ((t.cell a).inode.openCnt - 1) = (refs a - 1 : Nat) := by
    rw [ok.opened a listed]
    simp only [i32]
    omega
  unfold InodeList.inodeClose at done
  dsimp only at done
  rw [fewer] at done
  by_cases last : refs a = 1
  · have off : Tallies { t with openInodes := t.openInodes.erase a }
        (update refs a (refs a - 1)) denials := by
      rw [last]
      exact ok.erase (by omega)
    rw [if_pos (by omega)] at done
    split at done
    · obtain ⟨s, -, done⟩ := bind_eq_ok.mp done
      obtain ⟨s', -, done⟩ := bind_eq_ok.mp done
      cases done
      exact off.congr rfl rfl
    · cases done
      exact off
  · rw [if_neg (by omega)] at done
    cases done
    have result : (t.setInode a { (t.cell a).inode with openCnt := (refs a - 1 : Nat) }).Tallies
        (update refs a (refs a - 1)) (update denials a (denials a)) :=
      ok.setInode (by omega) listed rfl (ok.denied a listed) (by omega) spare
    rwa [update_eq_self] at result

theorem Tallies.inodeRemove (ok : t.Tallies refs denials) (listed : a ∈ t.openInodes) :
    (t.inodeRemove a).Tallies refs denials := by
  have result : (t.inodeRemove a).Tallies (update refs a (refs a))
      (update denials a (denials a)) :=
    ok.setInode ((ok.listed a).mp listed) listed (ok.opened a listed) (ok.denied a listed)
      (ok.few a) (ok.le a)
  rwa [update_eq_self, update_eq_self] at result

/-- The assertion of `inode_deny_write` holds while a pointer does not deny writes yet. -/
theorem Tallies.inodeDenyWrite (ok : t.Tallies refs denials) (spare : denials a < refs a) :
    ∃ after, t.inodeDenyWrite a = .ok after ∧
      after.Tallies refs (update denials a (denials a + 1)) := by
  have listed : a ∈ t.openInodes := (ok.listed a).mpr (by omega)
  have few := ok.few a
  have more : i32 ((t.cell a).inode.denyWriteCnt + 1) = (denials a + 1 : Nat) := by
    rw [ok.denied a listed]
    simp only [i32]
    omega
  have result : (t.setInode a { (t.cell a).inode with
      denyWriteCnt := i32 ((t.cell a).inode.denyWriteCnt + 1) }).Tallies
      (update refs a (refs a)) (update denials a (denials a + 1)) :=
    ok.setInode (by omega) listed (ok.opened a listed) more few spare
  rw [update_eq_self] at result
  refine ⟨_, ?_, result⟩
  unfold InodeList.inodeDenyWrite
  rw [ensure_bind]
  rw [more, ok.opened a listed]
  omega

/-- The assertions of `inode_allow_write` hold for an inode with a file that denies writes. -/
theorem Tallies.inodeAllowWrite (ok : t.Tallies refs denials) (some_ : denials a ≠ 0) :
    ∃ after, t.inodeAllowWrite a = .ok after ∧
      after.Tallies refs (update denials a (denials a - 1)) := by
  have le := ok.le a
  have listed : a ∈ t.openInodes := (ok.listed a).mpr (by omega)
  have few := ok.few a
  have count := ok.opened a listed
  have deny := ok.denied a listed
  have fewer : i32 ((t.cell a).inode.denyWriteCnt - 1) = (denials a - 1 : Nat) := by
    rw [deny]
    simp only [i32]
    omega
  have result : (t.setInode a { (t.cell a).inode with
      denyWriteCnt := i32 ((t.cell a).inode.denyWriteCnt - 1) }).Tallies
      (update refs a (refs a)) (update denials a (denials a - 1)) :=
    ok.setInode (by omega) listed count fewer few (by omega)
  rw [update_eq_self] at result
  refine ⟨_, ?_, result⟩
  unfold InodeList.inodeAllowWrite
  rw [ensure_bind (by omega), ensure_bind (by omega)]

end

end InodeList
end Calendarizador.Source
