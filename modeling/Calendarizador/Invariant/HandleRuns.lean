import Calendarizador.Invariant.InodeList

/-!
# Runs of calls on inodes, files and directories

The pointers of callers, files and directories are what the counts of the open inodes count,
whatever allocations fail.
-/
namespace Calendarizador.Source
open Foundation Function List

namespace Handles

section
variable {α : Type} {list : List α} {i : Nat} (below : i < list.length)
include below

theorem pick_eq : pick list (some i) = (some list[i], list.eraseIdx i) := by
  rw [pick, List.getElem?_eq_getElem below]

theorem get_eq : get list i = .ok list[i] := by
  rw [get, List.getElem?_eq_getElem below]

theorem countP_eraseIdx (p : α → Bool) :
    list.countP p = (list.eraseIdx i).countP p + if p list[i] then 1 else 0 := by
  rw [← (getElem_cons_eraseIdx_perm below).countP_eq p, countP_cons]

theorem countP_set (p : α → Bool) (x : α) :
    (list.set i x).countP p = (list.eraseIdx i).countP p + if p x then 1 else 0 := by
  rw [(set_perm_cons_eraseIdx below x).countP_eq p, countP_cons]

theorem count_map_eraseIdx (f : α → Nat) (b : Nat) : (list.map f).count b =
    ((list.eraseIdx i).map f).count b + if f list[i] = b then 1 else 0 := by
  simp only [List.count, countP_map, countP_eraseIdx below, Function.comp, beq_iff_eq]

end

variable {v v' : Handles} {a : Nat}

/-- One more at `a`. -/
theorem eq_update_of_more {f g : Nat → Nat} (more : ∀ b, f b = g b + if a = b then 1 else 0) :
    f = update g a (g a + 1) := by
  funext b
  rw [more, update_apply]
  by_cases same : b = a
  · rw [if_pos same, if_pos same.symm, same]
  · rw [if_neg same, if_neg (Ne.symm same), Nat.add_zero]

/-- One less at `a`. -/
theorem eq_update_of_less {f g : Nat → Nat} (less : ∀ b, g b = f b + if a = b then 1 else 0) :
    f = update g a (g a - 1) := by
  rw [eq_update_of_more less, update_self, update_idem, Nat.add_sub_cancel,
    update_eq_self]

theorem refs_eq (v : Handles) (b : Nat) : v.refs b =
    v.inodes.count b + (v.files.map File.inode).count b + (v.dirs.map Dir.inode).count b := by
  rw [refs, pointers, count_append, count_append]

/-- A file that denies writes is a pointer to its inode. -/
theorem denials_le (v : Handles) (b : Nat) : v.denials b ≤ v.refs b := by
  have files : v.denials b ≤ (v.files.map File.inode).count b := by
    rw [denials, List.count, countP_map]
    refine countP_mono_left fun file _ denies => ?_
    simp only [Bool.and_eq_true, decide_eq_true_eq] at denies
    simp [denies.1]
  rw [refs_eq]
  omega

/-- The counts in the list are those of the pointers. -/
def Ok (v : Handles) : Prop := v.table.Tallies v.refs v.denials

/-- The same pointers, in other hands. -/
theorem Ok.of_eq (ok : v.Ok) (table : v'.table = v.table) (refs : ∀ b, v'.refs b = v.refs b)
    (denials : v'.denials = v.denials) : v'.Ok := by
  have equal : v'.refs = v.refs := funext refs
  rw [Ok, table, equal, denials]
  exact ok

theorem Ok.listed (ok : v.Ok) (held : v.refs a ≠ 0) : a ∈ v.table.openInodes :=
  (InodeList.Tallies.listed ok a).mpr held

/-- One more pointer. -/
theorem ok_of_more (refs : ∀ b, v'.refs b = v.refs b + if a = b then 1 else 0)
    (denials : v'.denials = v.denials)
    (table : v'.table.Tallies (update v.refs a (v.refs a + 1)) v.denials) : v'.Ok := by
  rw [Ok, eq_update_of_more refs, denials]
  exact table

/-- A pointer is given to `inode_close`. -/
theorem Ok.close (ok : v.Ok) (refs : ∀ b, v.refs b = v'.refs b + if a = b then 1 else 0)
    (denials : v'.denials = v.denials) (done : v.table.inodeClose (some a) = .ok v'.table) :
    v'.Ok := by
  have here := refs a
  rw [if_pos rfl] at here
  have le := denials_le v' a
  rw [denials] at le
  rw [Ok, eq_update_of_less refs, denials]
  exact InodeList.Tallies.inodeClose ok (by omega) (by omega) done

/-! ## Files that deny writes -/

section
variable {i : Nat} (below : i < v.files.length) (table : InodeList) (denyWrite : Bool)

/-- The file `i` denies writes or not. -/
def setDeny (v : Handles) (i : Nat) (file : File) (table : InodeList) (denyWrite : Bool) :
    Handles := { v with table, files := v.files.set i { file with denyWrite } }

include below

theorem refs_setDeny : (v.setDeny i v.files[i] table denyWrite).refs = v.refs := by
  funext b
  have inside : i < (v.files.map File.inode).length := by simpa using below
  have here : (v.files.map File.inode)[i] = v.files[i].inode := getElem_map _
  rw [refs_eq, refs_eq]
  unfold setDeny
  rw [map_set]
  rw [← here, set_getElem_self]

theorem denials_setDeny (b : Nat) : (v.setDeny i v.files[i] table denyWrite).denials b +
      (if v.files[i].inode = b ∧ v.files[i].denyWrite = true then 1 else 0) =
    v.denials b + if v.files[i].inode = b ∧ denyWrite = true then 1 else 0 := by
  unfold denials setDeny
  rw [countP_set below, countP_eraseIdx below]
  simp only [Bool.and_eq_true, decide_eq_true_eq]
  omega

/-- A file that allows writes adds nothing. -/
theorem denials_setDeny_false (table' : InodeList) : (v.setDeny i v.files[i] table false).denials =
      denials { v with table := table', files := v.files.eraseIdx i } := by
  funext b
  unfold denials setDeny
  rw [countP_set below, Bool.and_false]
  rfl

/-- A file that has its flag already. -/
theorem Ok.setDeny_self (ok : v.Ok) (same : v.files[i].denyWrite = denyWrite) :
    ({ v.files[i] with denyWrite } : File) = v.files[i] ∧
      (v.setDeny i v.files[i] v.table denyWrite).Ok := by
  refine ⟨by rw [← same], ok.of_eq rfl (congrFun (refs_setDeny below _ _)) (funext fun b => ?_)⟩
  have count := denials_setDeny below v.table denyWrite b
  rw [same] at count
  omega

theorem Ok.fileDenyWrite (ok : v.Ok) : ∃ table,
    v.table.fileDenyWrite v.files[i] = .ok ({ v.files[i] with denyWrite := true }, table) ∧
      (v.setDeny i v.files[i] table true).Ok := by
  unfold InodeList.fileDenyWrite
  cases flag : v.files[i].denyWrite with
  | true =>
    obtain ⟨same, result⟩ := ok.setDeny_self below true flag
    refine ⟨v.table, ?_, result⟩
    rw [if_neg (by simp), same]
  | false =>
    have counts (table : InodeList) (b : Nat) := denials_setDeny below table true b
    simp only [flag, Bool.false_eq_true, and_false, if_false, and_true, Nat.add_zero] at counts
    have spare : v.denials v.files[i].inode < v.refs v.files[i].inode := by
      have le := denials_le (v.setDeny i v.files[i] v.table true) v.files[i].inode
      rw [refs_setDeny below, counts, if_pos rfl] at le
      exact le
    obtain ⟨table, done, tallies⟩ := InodeList.Tallies.inodeDenyWrite ok spare
    refine ⟨table, ?_, ?_⟩
    · rw [if_pos (by simp), done]
      rfl
    · rw [Ok, refs_setDeny below, eq_update_of_more (counts table)]
      exact tallies

theorem Ok.fileAllowWrite (ok : v.Ok) : ∃ table,
    v.table.fileAllowWrite v.files[i] = .ok ({ v.files[i] with denyWrite := false }, table) ∧
      (v.setDeny i v.files[i] table false).Ok := by
  unfold InodeList.fileAllowWrite
  cases flag : v.files[i].denyWrite with
  | false =>
    obtain ⟨same, result⟩ := ok.setDeny_self below false flag
    refine ⟨v.table, ?_, result⟩
    rw [if_neg (by simp), same]
  | true =>
    have counts (table : InodeList) (b : Nat) := denials_setDeny below table false b
    simp only [flag, Bool.false_eq_true, and_false, if_false, and_true, Nat.add_zero] at counts
    have some_ : v.denials v.files[i].inode ≠ 0 := by
      rw [← counts v.table, if_pos rfl]
      exact Nat.succ_ne_zero _
    obtain ⟨table, done, tallies⟩ := InodeList.Tallies.inodeAllowWrite ok some_
    refine ⟨table, ?_, ?_⟩
    · rw [if_pos rfl, done]
      rfl
    · rw [Ok, refs_setDeny below, eq_update_of_less fun b => (counts table b).symm]
      exact tallies

end

/-! ## Pointers that come and go -/

section
variable {i : Nat} (v : Handles) (table : InodeList) (b : Nat)

theorem refs_cons_inode : refs { v with table, inodes := a :: v.inodes } b =
    v.refs b + if a = b then 1 else 0 := by
  simp only [refs_eq, count_cons, beq_iff_eq]
  omega

theorem refs_cons_file (file : File) : refs { v with table, files := file :: v.files } b =
    v.refs b + if file.inode = b then 1 else 0 := by
  simp only [refs_eq, map_cons, count_cons, beq_iff_eq]
  omega

theorem refs_cons_dir (dir : Dir) : refs { v with table, dirs := dir :: v.dirs } b =
    v.refs b + if dir.inode = b then 1 else 0 := by
  simp only [refs_eq, map_cons, count_cons, beq_iff_eq]
  omega

variable {v}

theorem refs_erase_inode (below : i < v.inodes.length) : v.refs b =
    refs { v with table, inodes := v.inodes.eraseIdx i } b +
      if v.inodes[i] = b then 1 else 0 := by
  have count := count_map_eraseIdx below id b
  simp only [map_id, id] at count
  simp only [refs_eq, count]
  omega

theorem refs_erase_file (below : i < v.files.length) : v.refs b =
    refs { v with table, files := v.files.eraseIdx i } b +
      if v.files[i].inode = b then 1 else 0 := by
  simp only [refs_eq, count_map_eraseIdx below]
  omega

theorem refs_erase_dir (below : i < v.dirs.length) : v.refs b =
    refs { v with table, dirs := v.dirs.eraseIdx i } b +
      if v.dirs[i].inode = b then 1 else 0 := by
  simp only [refs_eq, count_map_eraseIdx below]
  omega

end

theorem refs_file {i : Nat} (below : i < v.files.length) : v.refs v.files[i].inode ≠ 0 := by
  rw [refs_erase_file v.table _ below, if_pos rfl]
  exact Nat.succ_ne_zero _

theorem refs_dir {i : Nat} (below : i < v.dirs.length) : v.refs v.dirs[i].inode ≠ 0 := by
  rw [refs_erase_dir v.table _ below, if_pos rfl]
  exact Nat.succ_ne_zero _

/-- A new file does not deny writes. -/
theorem denials_cons_file (v : Handles) (table : InodeList) (inodes : List Nat) :
    denials { v with table, inodes, files := ⟨a, 0, false⟩ :: v.files } = v.denials := by
  funext b
  unfold denials
  rw [countP_cons, Bool.and_false]
  rfl

/-! ## One call -/

/-- A pointer that is found has been taken from those that are held. -/
theorem refs_pick {i : Option Nat} (callable : ∀ j ∈ i, j < v.inodes.length)
    (found : (pick v.inodes i).1 = some a) (table : InodeList) (b : Nat) :
    v.refs b = refs { v with table, inodes := (pick v.inodes i).2 } b +
      if a = b then 1 else 0 := by
  cases i with
  | none => cases found
  | some i =>
    have below := callable i rfl
    rw [pick_eq below] at found ⊢
    cases found
    exact refs_erase_inode table b below

section
variable {after : Handles} (ok : v.Ok)
include ok
variable {i : Option Nat} {memory : Bool}

/-- `inode_reopen` of an inode that somebody points to. -/
theorem Ok.reopen (held : v.refs a ≠ 0) (fits : v.refs a < 2147483647) :
    Ok { v with table := v.table.inodeReopen a, inodes := a :: v.inodes } :=
  ok_of_more (refs_cons_inode v _) rfl (InodeList.Tallies.inodeReopen ok (ok.listed held) fits)

theorem Ok.inodeClose (callable : ∀ j ∈ i, j < v.inodes.length) {table : InodeList}
    (done : v.table.inodeClose (pick v.inodes i).1 = .ok table) :
    Ok { v with table, inodes := (pick v.inodes i).2 } := by
  cases i with
  | none =>
    cases done
    exact ok
  | some i =>
    have below := callable i rfl
    rw [pick_eq below] at done ⊢
    exact ok.close (refs_erase_inode table · below) rfl done

theorem Ok.step_fileOpen (callable : ∀ j ∈ i, j < v.inodes.length)
    (taken : v.step (.fileOpen i memory) = .ok after) : after.Ok := by
  obtain ⟨⟨opened, table⟩, done, rfl⟩ := map_eq_ok.mp taken
  unfold InodeList.fileOpen at done
  split at done
  case h_1 a found =>
    -- the file has the pointer now
    cases done
    refine ok.of_eq rfl (fun b => ?_) (denials_cons_file v _ _)
    rw [refs_pick callable found v.table b]
    exact refs_cons_file { v with inodes := (pick v.inodes i).2 } v.table b ⟨a, 0, false⟩
  case h_2 =>
    obtain ⟨_, closed, equal⟩ := map_eq_ok.mp done
    cases equal
    exact ok.inodeClose callable closed

theorem Ok.step_dirOpen (callable : ∀ j ∈ i, j < v.inodes.length)
    (taken : v.step (.dirOpen i memory) = .ok after) : after.Ok := by
  obtain ⟨⟨opened, table⟩, done, rfl⟩ := map_eq_ok.mp taken
  unfold InodeList.dirOpen at done
  split at done
  case h_1 a found =>
    cases done
    refine ok.of_eq rfl (fun b => ?_) rfl
    rw [refs_pick callable found v.table b]
    exact refs_cons_dir { v with inodes := (pick v.inodes i).2 } v.table b ⟨a, 0⟩
  case h_2 =>
    obtain ⟨_, closed, equal⟩ := map_eq_ok.mp done
    cases equal
    exact ok.inodeClose callable closed

theorem Ok.step_fileReopen {i : Nat} (below : i < v.files.length)
    (fits : v.refs v.files[i].inode < 2147483647)
    (taken : v.step (.fileReopen i memory) = .ok after) : after.Ok := by
  have held := refs_file below
  rw [step, get_eq below, ok_bind] at taken
  obtain ⟨⟨opened, table⟩, done, equal⟩ := bind_eq_ok.mp taken
  cases equal
  cases memory with
  | true =>
    cases done
    exact ok_of_more (refs_cons_file v _ · ⟨_, 0, false⟩) (denials_cons_file v _ _)
      (InodeList.Tallies.inodeReopen ok (ok.listed held) fits)
  | false =>
    obtain ⟨_, closed, equal⟩ := map_eq_ok.mp done
    cases equal
    exact (ok.reopen held fits).close (refs_cons_inode v _) rfl closed

theorem Ok.step_dirReopen {i : Nat} (below : i < v.dirs.length)
    (fits : v.refs v.dirs[i].inode < 2147483647)
    (taken : v.step (.dirReopen i memory) = .ok after) : after.Ok := by
  have held := refs_dir below
  rw [step, get_eq below, ok_bind] at taken
  obtain ⟨⟨opened, table⟩, done, equal⟩ := bind_eq_ok.mp taken
  cases equal
  cases memory with
  | true =>
    cases done
    exact ok_of_more (refs_cons_dir v _ · ⟨_, 0⟩) rfl
      (InodeList.Tallies.inodeReopen ok (ok.listed held) fits)
  | false =>
    obtain ⟨_, closed, equal⟩ := map_eq_ok.mp done
    cases equal
    exact (ok.reopen held fits).close (refs_cons_inode v _) rfl closed

theorem Ok.step_fileClose (callable : ∀ j ∈ i, j < v.files.length)
    (taken : v.step (.fileClose i) = .ok after) : after.Ok := by
  obtain ⟨table, done, rfl⟩ := map_eq_ok.mp taken
  cases i with
  | none =>
    cases done
    exact ok
  | some i =>
    have below := callable i rfl
    rw [pick_eq below] at done ⊢
    obtain ⟨allowed, executed, ok'⟩ := ok.fileAllowWrite below
    unfold InodeList.fileClose at done
    dsimp only at done
    rw [executed, ok_bind] at done
    refine ok'.close (fun b => ?_) (denials_setDeny_false below allowed table).symm done
    rw [refs_setDeny below]
    exact refs_erase_file table b below

theorem Ok.step_dirClose (callable : ∀ j ∈ i, j < v.dirs.length)
    (taken : v.step (.dirClose i) = .ok after) : after.Ok := by
  obtain ⟨table, done, rfl⟩ := map_eq_ok.mp taken
  cases i with
  | none =>
    cases done
    exact ok
  | some i =>
    have below := callable i rfl
    rw [pick_eq below] at done ⊢
    exact ok.close (refs_erase_dir table · below) rfl done

/-- The counts are right after every call. -/
theorem Ok.step {e : HandleEvent} (callable : v.Callable e) (fits : v.Fits e)
    (taken : v.step e = .ok after) : after.Ok := by
  cases e with
  | inodeOpen sector memory =>
    obtain ⟨⟨found, table⟩, done, rfl⟩ := map_eq_ok.mp taken
    rcases InodeList.Tallies.inodeOpen ok callable fits done with ⟨a, rfl, tallies⟩ | ⟨rfl, rfl⟩
    · exact ok_of_more (refs_cons_inode v _) rfl tallies
    · exact ok
  | inodeReopen inode =>
    cases inode with
    | none =>
      cases taken
      exact ok
    | some a =>
      cases taken
      exact ok.reopen ((InodeList.Tallies.listed ok a).mp (callable a rfl)) (fits a rfl)
  | inodeClose i =>
    obtain ⟨table, done, rfl⟩ := map_eq_ok.mp taken
    exact ok.inodeClose callable done
  | inodeRemove a =>
    cases taken
    exact InodeList.Tallies.inodeRemove ok callable
  | fileOpen i memory => exact ok.step_fileOpen callable taken
  | fileReopen i memory =>
    exact ok.step_fileReopen callable (fits _ (List.getElem?_eq_getElem callable)) taken
  | fileDenyWrite i =>
    obtain ⟨table, done, ok'⟩ := ok.fileDenyWrite callable
    rw [Handles.step, get_eq callable, ok_bind, done, ok_bind] at taken
    cases taken
    exact ok'
  | fileAllowWrite i =>
    obtain ⟨table, done, ok'⟩ := ok.fileAllowWrite callable
    rw [Handles.step, get_eq callable, ok_bind, done, ok_bind] at taken
    cases taken
    exact ok'
  | fileClose i => exact ok.step_fileClose callable taken
  | dirOpen i memory => exact ok.step_dirOpen callable taken
  | dirReopen i memory =>
    exact ok.step_dirReopen callable (fits _ (List.getElem?_eq_getElem callable)) taken
  | dirClose i => exact ok.step_dirClose callable taken

end

theorem initial_ok (start : v.Initial) : v.Ok := by
  obtain ⟨list, inodes, files, dirs⟩ := start
  have none_ (b : Nat) : v.refs b = 0 := by
    rw [refs_eq, inodes, files, dirs]
    rfl
  refine ⟨by rw [list]; exact nodup_nil, ?_, fun b => ?_, ?_, ?_, fun b => ?_, denials_le v⟩
  · rw [list]
    nofun
  · rw [list, none_]
    simp
  · rw [list]
    nofun
  · rw [list]
    nofun
  · rw [none_]
    decide

theorem reachable_ok (h : ReachableWhile handleSystem (fun v e => v.Callable e ∧ v.Fits e) v) :
    v.Ok :=
  ReachableWhile.invariant (P := Ok) (fun _ start => initial_ok start)
    (fun _ _ _ ok fine taken => ok.step fine.1 fine.2 taken) h

end Handles
end Calendarizador.Source
