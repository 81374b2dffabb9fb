import Calendarizador.Invariant.FileCalls

/-!
# `filesys_create`

The call takes a sector for the inode, then sectors for the data, then an entry of the root
directory. If it stops on the way it gives back the sector of the inode and nothing else, so
the sectors of the data stay marked if it was the directory that did not take the name.
-/
namespace Calendarizador.Source
open Foundation Function

namespace FileSys
variable {s middle after : FileSys} {refs : Nat → Nat} {n cnt : Nat} {name : CString}

/-! ## The sector of the inode -/

/-- A sector that is marked and belongs to nobody. -/
structure Spare (s : FileSys) (n : Nat) : Prop where
  inside : n < s.device.size
  marked : s.freeMap.bit n = true
  free : ∀ o, s.Owner o → ¬ s.Owns o n

theorem Spare.not_owner (spare : s.Spare n) : ¬ s.Owner n :=
  fun owner => spare.free n owner (.inl rfl)

/-- Behind the first free sector there are `cnt` more in a row. -/
def Room (s : FileSys) (cnt : Nat) : Prop :=
  ∃ n start, s.freeMap.Group false 1 n ∧ (∀ k < n, ¬ s.freeMap.Group false 1 k) ∧
    s.freeMap.Group false cnt start ∧ n ∉ (⟨start, cnt⟩ : Span)

/-- The first free sector was taken. -/
structure Took (s after : FileSys) (n : Nat) : Prop where
  keeps : Keeps s.Owner (· = freeMapSector) s after
  table : after.openInodes = s.openInodes
  count : after.freeMap.bitCnt = s.freeMap.bitCnt
  group : s.freeMap.Group false 1 n
  first : ∀ k < n, ¬ s.freeMap.Group false 1 k
  bits : ∀ j, after.freeMap.bit j = if j = n then true else s.freeMap.bit j

theorem mem_singleton {j : Nat} : j ∈ (⟨n, 1⟩ : Span) ↔ j = n := by
  simp only [Span.mem_iff, Span.stop]
  omega

theorem Took.clear (took : s.Took after n) : s.freeMap.bit n = false :=
  took.group.2 n (mem_singleton.mpr rfl)

/-- The runs of free sectors that are left are those without the one that was taken. -/
theorem Took.group_iff (took : s.Took after n) (start : Nat) : after.freeMap.Group false cnt start ↔
      s.freeMap.Group false cnt start ∧ n ∉ (⟨start, cnt⟩ : Span) := by
  unfold Bitmap.Group
  rw [took.count, and_assoc]
  refine and_congr_right fun _ => ⟨fun free => ⟨fun j here => ?_, fun here => ?_⟩,
    fun free j here => ?_⟩
  · have bit := free j here
    rw [took.bits] at bit
    split at bit
    · cases bit
    · exact bit
  · have bit := free n here
    rw [took.bits, if_pos rfl] at bit
    cases bit
  · have other : j ≠ n := fun same => free.2 (same ▸ here)
    rw [took.bits, if_neg other]
    exact free.1 j here

theorem Took.room_iff (took : s.Took after n) :
    s.Room cnt ↔ ∃ start, after.freeMap.Group false cnt start := by
  simp only [took.group_iff]
  constructor
  · rintro ⟨n', start, group, first, rest⟩
    obtain rfl : n' = n := by
      rcases Nat.lt_trichotomy n' n with less | same | more
      · exact absurd group (took.first n' less)
      · exact same
      · exact absurd took.group (first n more)
    exact ⟨start, rest⟩
  · rintro ⟨start, rest⟩
    exact ⟨n, start, took.group, took.first, rest⟩

theorem Consistent.takeSector (ok : s.Consistent refs) :
    (∃ n after, s.freeMapAllocate 1 = .ok (some n, after) ∧ s.Took after n ∧
      after.Owner = s.Owner ∧ after.Consistent refs ∧ after.Spare n) ∨
    (s.freeMapAllocate 1 = .ok (none, s) ∧ ∀ k, ¬ s.freeMap.Group false 1 k) := by
  refine (ok.sound.allocate 1).imp_left ?_
  rintro ⟨n, after, allocated, sound, keeps, table, group, first, bits⟩
  simp only [mem_singleton] at bits
  obtain ⟨owners, ok'⟩ := ok.of_keeps keeps (by decide) table sound
  have count : after.freeMap.bitCnt = s.freeMap.bitCnt := by
    rw [sound.mounted.bits, ok.sound.mounted.bits, keeps.size]
  have took : s.Took after n := ⟨keeps, table, count, group, first, bits⟩
  refine ⟨n, after, allocated, took, owners, ok', ?_, by rw [bits, if_pos rfl],
    fun o owner owns => ?_⟩
  · rw [← sound.mounted.bits, count]
    exact group.1
  · rw [owners] at owner
    have bit := ok.sound.used o n owner ((keeps.inode owner).owns.mp owns)
    rw [took.clear] at bit
    cases bit

/-! ## The name -/

theorem SameRoot.refuses (same : SameRoot s after) (entries : s.Entries) :
    after.Refuses (after.inodeAt rootDirSector) 16 name ↔
      s.Refuses (s.inodeAt rootDirSector) 16 name := by
  have used (k : Nat) (below : k < 16) : (after.rootEntry k).inUse = (s.rootEntry k).inUse :=
    DirEntry.inUse_congr (same k below)
  refine or_congr_right (or_congr_right (or_congr ?_ ?_))
  · refine exists_congr fun k => and_congr_right fun below => ?_
    change (after.rootEntry k).inUse = true ∧ (after.rootEntry k).hasName name = true ↔ _
    rw [used k below]
    refine and_congr_right fun inUse => ?_
    rw [same.hasName below (entries.terminated k below inUse)]
    rfl
  · refine forall₂_congr fun k below => ?_
    change (after.rootEntry k).inUse = true ↔ _
    rw [used k below]
    rfl

/-! ## The call -/

/-- The marks of the free map after a call failed: of the `cnt` data sectors those in `lost`
stay marked, which are all of them if there was room and the directory did not take the
name. -/
structure Lost (s : FileSys) (marks : Nat → Bool) (name : CString) (cnt : Nat) (lost : Span) :
    Prop where
  bits : ∀ j, marks j = if j ∈ lost then true else s.freeMap.bit j
  clear : ∀ j ∈ lost, s.freeMap.bit j = false
  reason : lost.count = 0 ∧ ¬ s.Room cnt ∨
    lost.count = cnt ∧ s.Room cnt ∧ s.Refuses (s.inodeAt rootDirSector) 16 name

/-- What a call that failed leaves, before the sector `n` of the inode is given back; 0 if
none was taken. -/
structure Failed (s after : FileSys) (name : CString) (cnt n : Nat) : Prop where
  spare : n ≠ 0 → after.Spare n ∧ s.freeMap.bit n = false
  table : after.openInodes = s.openInodes
  root : SameRoot s after
  lost : ∃ lost, s.Lost (Function.update after.freeMap.bit n (s.freeMap.bit n)) name cnt lost

/-- There is no free sector. -/
theorem Failed.of_full (none_ : ∀ k, ¬ s.freeMap.Group false 1 k) : s.Failed s name cnt 0 := by
  refine ⟨fun some_ => absurd rfl some_, rfl, .of_device_eq rfl, ⟨0, 0⟩, fun j => ?_,
    fun j here => absurd here (Span.not_mem_of_count rfl j), .inl ⟨rfl, ?_⟩⟩
  · rw [if_neg (Span.not_mem_of_count rfl j), update_eq_self]
  · rintro ⟨n, -, group, -⟩
    exact none_ n group

/-- There is no room for the data. -/
theorem Took.failed (took : s.Took after n) (ok : s.Consistent refs) (spare : after.Spare n)
    (full : ∀ k, ¬ after.freeMap.Group false cnt k) : s.Failed after name cnt n := by
  refine ⟨fun _ => ⟨spare, took.clear⟩, took.table,
    took.keeps.sameRoot ok.sound (owner_root s) ok.length (by decide), ⟨0, 0⟩, fun j => ?_,
    fun j here => absurd here (Span.not_mem_of_count rfl j), .inl ⟨rfl, ?_⟩⟩
  · rw [if_neg (Span.not_mem_of_count rfl j), update_apply, took.bits]
    split
    · next same => rw [same]
    · rfl
  · rw [took.room_iff]
    rintro ⟨start, group⟩
    exact full start group

/-- The directory does not take the name. -/
theorem Took.failed_refused (took : s.Took middle n) (spare : after.Spare n)
    (table : after.openInodes = middle.openInodes) (root : SameRoot s after) {start : Nat}
    (data : middle.freeMap.Group false cnt start) (bits : ∀ j, after.freeMap.bit j =
      if j ∈ (⟨start, cnt⟩ : Span) then true else middle.freeMap.bit j)
    (refuses : s.Refuses (s.inodeAt rootDirSector) 16 name) : s.Failed after name cnt n := by
  obtain ⟨free, outside⟩ := (took.group_iff start).mp data
  refine ⟨fun _ => ⟨spare, took.clear⟩, table.trans took.table, root, ⟨start, cnt⟩, fun j => ?_,
    free.2, .inr ⟨rfl, took.room_iff.mpr ⟨start, data⟩, refuses⟩⟩
  rw [update_apply]
  split
  · next same => rw [same, if_neg outside]
  · next other => rw [bits, took.bits, if_neg other]

/-- The call behind `dir_open_root`: if it fails, the sector it took is still nobody's. A
negative size is an assertion failure of `inode_create`. -/
theorem Consistent.createIn (ok : s.Consistent refs) (one : refs rootDirSector = 1) (name : CString)
    {initialSize : Int} (high : initialSize < 2147483648) : (∃ success inodeSector after,
      s.createIn ⟨rootDirSector, 0⟩ name initialSize = .ok (success, inodeSector, after) ∧
      after.Consistent refs ∧ (∀ o, s.Owner o → after.Owner o) ∧
      Keeps s.Owner Internal s after ∧
      (success = true → ¬ s.Refuses (s.inodeAt rootDirSector) 16 name) ∧
      (success = false → s.Failed after name (bytesToSectors initialSize) inodeSector)) ∨
    (initialSize < 0 ∧ s.createIn ⟨rootDirSector, 0⟩ name initialSize = .error .assertion) := by
  unfold FileSys.createIn
  rcases ok.takeSector with ⟨n, s₁, allocated, took, owners₁, ok₁, spare⟩ | ⟨failed, none_⟩
  swap
  · exact .inl ⟨false, 0, s, by rw [failed]; rfl, ok, fun o h => h, .of_device_eq _ _ rfl, nofun,
      fun _ => .of_full none_⟩
  rw [allocated, ok_bind]
  dsimp only
  by_cases negative : initialSize < 0
  · refine .inr ⟨negative, ?_⟩
    have stops : s₁.inodeCreate n initialSize = .error .assertion := by
      unfold FileSys.inodeCreate ensure
      rw [if_neg (by omega)]
      rfl
    rw [stops]
    rfl
  have low : 0 ≤ initialSize := by omega
  left
  rcases ok₁.sound.inodeCreate spare.inside spare.marked spare.free low high with
    ⟨s₂, created, sound₂, keeps₂, table₂, -, -, start, data, bits⟩ | ⟨refused, full⟩
  swap
  · exact ⟨false, n, s₁, by rw [refused]; rfl, ok₁, fun o h => owners₁ ▸ h,
      took.keeps.mono (fun o h => h) fun o h => .inl h, nofun,
      fun _ => took.failed ok spare full⟩
  have fewer : s₂.Sound s₁.Owner := by
    refine sound₂.mono (fun o h => .inl h) (.inl rfl) fun o h => ?_
    rw [table₂] at h
    exact .inr (.inr (.inr h))
  obtain ⟨owners₂, ok₂⟩ := ok₁.of_keeps keeps₂ (by decide) table₂ fewer
  have keeps : Keeps s.Owner (· = freeMapSector) s s₂ := by
    rw [owners₁] at keeps₂
    exact took.keeps.trans keeps₂
  have root := keeps.sameRoot ok.sound (owner_root s) ok.length (by decide)
  have both : Keeps s.Owner Internal s s₂ := keeps.mono (fun o h => h) fun o h => .inl h
  rw [created, ok_bind]
  dsimp only
  rcases (ok₂.rootOpen one).dirAdd name n with
    ⟨k, e, added, inside, unused, some_, short, absent⟩ | ⟨rejected, refuses⟩
  · -- the file has its entry
    have sound : s₂.Sound fun o => s₂.Owner o ∨ o = n := by rwa [owners₂]
    obtain ⟨ok₃, owners₃, keeps₃⟩ :=
      ok₂.addEntry one sound (owners₂ ▸ spare.not_owner) inside unused short absent e
    refine ⟨true, n, _, by rw [added]; rfl, ok₃, fun o h => ?_, both.trans ?_, fun _ => ?_, nofun⟩
    · rw [owners₃, owners₂, owners₁]
      exact .inl h
    · rw [owners₂, owners₁] at keeps₃
      exact keeps₃.mono (fun o h => h) fun o h => .inr h
    · rw [← root.refuses ok.entries]
      exact not_refuses some_ short inside unused absent
  · have spare₂ : s₂.Spare n := by
      refine ⟨by rw [keeps₂.size]; exact spare.inside, ?_, fun o owner owns => ?_⟩
      · rw [bits, spare.marked, ite_self]
      · rw [owners₂] at owner
        exact spare.free o owner ((keeps₂.inode owner).owns.mp owns)
    refine ⟨false, n, s₂, by rw [rejected]; rfl, ok₂, fun o h => ?_, both, nofun, fun _ =>
      took.failed_refused spare₂ table₂ root data bits ((root.refuses ok.entries).mp refuses)⟩
    rwa [owners₂, owners₁]

/-- What a call that failed leaves. -/
structure Leftover (s after : FileSys) (name : CString) (cnt : Nat) : Prop where
  table : after.openInodes = s.openInodes
  root : SameRoot s after
  count : after.freeMap.bitCnt = s.freeMap.bitCnt
  lost : ∃ lost, s.Lost after.freeMap.bit name cnt lost

theorem Consistent.filesysCreate (ok : s.Consistent refs) (none_ : refs rootDirSector = 0)
    (name : CString) {initialSize : Int} (high : initialSize < 2147483648) :
    (∃ success after, s.filesysCreate name initialSize = .ok (success, after) ∧
      after.Consistent refs ∧ (∀ o, s.Owner o → after.Owner o) ∧
      Keeps s.Owner Internal s after ∧
      (success = true → ¬ s.Refuses (s.inodeAt rootDirSector) 16 name) ∧
      (success = false → s.Leftover after name (bytesToSectors initialSize))) ∨
    (initialSize < 0 ∧ s.filesysCreate name initialSize = .error .assertion) := by
  obtain ⟨s₁, opened, device₁, owners₁, ok₁⟩ := ok.dirOpenRoot none_
  cases ok.dirOpenRoot_eq.symm.trans opened
  unfold FileSys.filesysCreate
  rw [opened, ok_bind]
  dsimp only
  rcases ok₁.createIn (update_self ..) name high with
    ⟨success, n, s₂, created, ok₂, more, keeps₂, taken, failed⟩ | ⟨negative, stops⟩
  swap
  · exact .inr ⟨negative, by rw [stops]; rfl⟩
  left
  -- the sector is given back if the call fails
  obtain ⟨s₃, released, ok₃, owners₃, keeps₃, table₃, bits₃⟩ : ∃ s₃,
      (∀ next : FileSys → Except Halt (Bool × FileSys), (if ¬ success = true ∧ n ≠ 0 then
        s₂.freeMapRelease n 1 >>= next else .ok s₂ >>= next) = next s₃) ∧
      s₃.Consistent (update refs rootDirSector 1) ∧ s₃.Owner = s₂.Owner ∧
      Keeps s₂.Owner (· = freeMapSector) s₂ s₃ ∧ s₃.openInodes = s₂.openInodes ∧
      (success = false →
        s₃.freeMap.bit = update s₂.freeMap.bit n (s.freeMap.bit n)) := by
    by_cases gives : ¬ success = true ∧ n ≠ 0
    · have fails : success = false := Bool.eq_false_iff.mpr gives.1
      obtain ⟨⟨inside, marked, free⟩, clear⟩ := (failed fails).spare gives.2
      obtain ⟨s₃, released, sound, keeps, table, bits⟩ := ok₂.sound.release n 1 inside
        (fun m here => mem_singleton.mp here ▸ marked)
        fun o m owner owns here => free o owner (mem_singleton.mp here ▸ owns)
      obtain ⟨owners, ok₃⟩ := ok₂.of_keeps keeps (by decide) table sound
      refine ⟨s₃, fun next => by rw [if_pos gives, released, ok_bind], ok₃, owners, keeps, table,
        fun _ => funext fun j => ?_⟩
      change s.freeMap.bit n = false at clear
      rw [bits, update_apply, clear]
      simp only [mem_singleton]
    · refine ⟨s₂, fun next => if_neg gives, ok₂, rfl, .of_device_eq _ _ rfl, rfl, fun fails => ?_⟩
      obtain rfl : n = 0 := by
        by_contra some_
        exact gives ⟨by simp [fails], some_⟩
      have marked : s.freeMap.bit freeMapSector = true :=
        ok.sound.used _ _ ok.sound.free_map (.inl rfl)
      have marked₂ : s₂.freeMap.bit freeMapSector = true :=
        ok₂.sound.used _ _ ok₂.sound.free_map (.inl rfl)
      change s₂.freeMap.bit = update s₂.freeMap.bit freeMapSector _
      rw [show s.freeMap.bit 0 = s₂.freeMap.bit freeMapSector from marked.trans marked₂.symm,
        update_eq_self]
  obtain ⟨s₄, closed, device₄, owners₄, ok₄⟩ := ok₃.dirClose none_
  cases (ok₃.dirClose_eq (update_self ..)).symm.trans closed
  have internal : Keeps s₂.Owner Internal s₂ s₃ := keeps₃.mono (fun o h => h) fun o h => .inl h
  refine ⟨success, _, ?_, ok₄, fun o h => ?_, ?_, taken, fun fails => ⟨?_, ?_, ?_, ?_⟩⟩
  · rw [created, ok_bind]
    refine (released _).trans ?_
    rw [closed]
    rfl
  · rw [owners₄, owners₃]
    exact more o (owners₁ ▸ h)
  · have later := internal.mono more fun o h => h
    have whole := keeps₂.trans later
    rw [owners₁] at whole
    exact whole.congr device₁.symm device₄
  · -- the directory is off the list again
    have closed_ : s.openInodes rootDirSector = none := (ok.closed _).mpr none_
    change update s₃.openInodes rootDirSector none = s.openInodes
    rw [table₃, (failed fails).table]
    change update (update s.openInodes _ _) rootDirSector none = s.openInodes
    rw [update_idem, ← closed_, update_eq_self]
  · have second := keeps₃.sameRoot ok₂.sound (owner_root s₂) ok₂.length (by decide)
    have first : SameRoot s s₂ := (failed fails).root
    exact first.trans second
  · rw [ok₄.sound.mounted.bits, ok.sound.mounted.bits]
    exact keeps₃.size.trans keeps₂.size
  · obtain ⟨lost, known⟩ := (failed fails).lost
    refine ⟨lost, ?_, known.clear, known.reason⟩
    rw [setInode_freeMap, bits₃ fails]
    exact known.bits

end FileSys
end Calendarizador.Source
