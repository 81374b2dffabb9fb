import Calendarizador.Foundation.History
import Calendarizador.Source.Synch

/-!
# Semaphores lose no unit and no wake-up

The value of a semaphore is its initial value with the completed ups added and the completed
downs taken off. If somebody waits, then every unit is spoken for: for each of them there is a
thread that a `sema_up` took off the list of waiters and that has not tested the value again.
Such a thread may lose the unit to another one and queue again, but the other one then has it.
-/
namespace Calendarizador.Guarantees
open Foundation Source Function List

/-- Completed operations. -/
structure UnitLog where
  ups : Nat
  downs : Nat
  deriving DecidableEq, Repr

/-- A down is complete when its thread has left it, a `sema_try_down` if it took a unit. -/
def logUnits (r : SemaRun) (e : SemaEvent) (after : SemaRun) (log : UnitLog) : UnitLog :=
  match e with
  | .up => { log with ups := log.ups + 1 }
  | .down t | .retest t =>
    if after.pc t = .outside then { log with downs := log.downs + 1 } else log
  | .tryDown =>
    if after.sema.value < r.sema.value then { log with downs := log.downs + 1 } else log

def semaphoreRun (value : Nat) : System (SemaRun × UnitLog) SemaEvent Fault :=
  (semaphoreSystem value).recording ⟨0, 0⟩ logUnits

/-- Fewer than `2 ^ 32` ups are outstanding after the event. -/
def FewOutstanding (value : Nat) (s : SemaRun × UnitLog) : SemaEvent → Prop
  | .up => value + s.2.ups + 1 < 4294967296 + s.2.downs
  | _ => True

instance (value : Nat) (s : SemaRun × UnitLog) (e : SemaEvent) :
    Decidable (FewOutstanding value s e) := by
  unfold FewOutstanding
  split <;> infer_instance

/-- Who has been popped from the waiters and has not tested the value again. -/
structure Popped (r : SemaRun) (popped : List Page) : Prop where
  nodup : popped.Nodup
  mem : ∀ t, t ∈ popped ↔ r.pc t = .retesting
  enough : r.sema.waiters ≠ [] → r.sema.value ≤ popped.length

structure UnitsKept (value : Nat) (r : SemaRun) (log : UnitLog) : Prop where
  units : r.sema.value + log.downs = value + log.ups
  waiters : ∀ t, t ∈ r.sema.waiters ↔ r.pc t = .waiting
  nodup : r.sema.waiters.Nodup
  popped : ∃ popped, Popped r popped

section
variable {value : Nat} {r after : SemaRun} {log : UnitLog} {t : Page}

theorem down_zero {v : Semaphore} (zero : v.value = 0) (t : Page) :
    v.down t = { v with waiters := v.waiters ++ [t] } := if_pos zero

theorem down_pos {v : Semaphore} (unit : v.value ≠ 0) (t : Page) :
    v.down t = { v with value := v.value - 1 } := if_neg unit

/-- A test that finds no unit puts the thread at the end of the waiters. -/
theorem UnitsKept.waits (h : UnitsKept value r log) (zero : r.sema.value = 0)
    (running : r.pc t ≠ .waiting) : UnitsKept value (r.test t) log := by
  obtain ⟨popped, held⟩ := h.popped
  have fresh : t ∉ r.sema.waiters := fun member => running ((h.waiters t).mp member)
  have sema : (r.test t).sema = { r.sema with waiters := r.sema.waiters ++ [t] } :=
    down_zero zero t
  have pc : (r.test t).pc = update r.pc t .waiting := by simp [SemaRun.test, zero]
  constructor
  · rw [sema]
    exact h.units
  · intro q
    rw [sema, pc, update_apply, mem_append, mem_singleton, h.waiters]
    by_cases here : q = t <;> simp [here]
  · rw [sema]
    exact nodup_append.mpr ⟨h.nodup, by simp, by
      rintro q member s new rfl
      rw [mem_singleton] at new
      exact fresh (new ▸ member)⟩
  · refine ⟨popped.erase t, held.nodup.erase t, fun q => ?_, fun _ => ?_⟩
    · rw [held.nodup.mem_erase_iff, held.mem, pc, update_apply]
      by_cases here : q = t <;> simp [here]
    · rw [sema]
      exact zero.trans_le (Nat.zero_le _)

/-- A test that finds a unit takes it; a popped thread is not popped any more. -/
theorem UnitsKept.takes (h : UnitsKept value r log) (unit : r.sema.value ≠ 0)
    (running : r.pc t ≠ .waiting) :
    UnitsKept value (r.test t) { log with downs := log.downs + 1 } := by
  obtain ⟨popped, held⟩ := h.popped
  have sema : (r.test t).sema = { r.sema with value := r.sema.value - 1 } := down_pos unit t
  have pc : (r.test t).pc = update r.pc t .outside := by simp [SemaRun.test, unit]
  have units := h.units
  constructor
  · rw [sema]
    change r.sema.value - 1 + (log.downs + 1) = value + log.ups
    omega
  · intro q
    rw [sema, pc, update_apply]
    by_cases here : q = t
    · subst here
      simpa [h.waiters] using running
    · simp [here, h.waiters]
  · rw [sema]
    exact h.nodup
  · refine ⟨popped.erase t, held.nodup.erase t, fun q => ?_, fun someone => ?_⟩
    · rw [held.nodup.mem_erase_iff, held.mem, pc, update_apply]
      by_cases here : q = t <;> simp [here]
    · rw [sema] at someone ⊢
      have enough := held.enough someone
      have shorter : popped.length - 1 ≤ (popped.erase t).length := by
        rw [length_erase]
        split <;> omega
      change r.sema.value - 1 ≤ _
      omega

theorem UnitsKept.tries (h : UnitsKept value r log) (unit : r.sema.value ≠ 0) :
    UnitsKept value { r with sema := r.sema.tryDown } { log with downs := log.downs + 1 } := by
  obtain ⟨popped, held⟩ := h.popped
  have sema : r.sema.tryDown = { r.sema with value := r.sema.value - 1 } :=
    if_pos (Nat.pos_of_ne_zero unit)
  have units := h.units
  rw [sema]
  refine ⟨?_, h.waiters, h.nodup, popped, held.nodup, held.mem, fun someone => ?_⟩
  · change r.sema.value - 1 + (log.downs + 1) = value + log.ups
    omega
  · have enough := held.enough someone
    change r.sema.value - 1 ≤ _
    omega

/-- An up adds a unit and pops the first waiter, if there is one. -/
theorem UnitsKept.ups (h : UnitsKept value r log)
    (few : value + log.ups + 1 < 4294967296 + log.downs) (taken : r.up = .ok after) :
    UnitsKept value after { log with ups := log.ups + 1 } := by
  obtain ⟨popped, held⟩ := h.popped
  have units := h.units
  have added : r.sema.up.value = r.sema.value + 1 := Nat.mod_eq_of_lt (by omega)
  unfold SemaRun.up at taken
  split at taken
  · rename_i nobody
    cases taken
    have still : r.sema.up.waiters = [] := by rw [Semaphore.up, nobody]; rfl
    refine ⟨?_, fun q => ?_, ?_, popped, held.nodup, held.mem, fun someone => absurd still someone⟩
    · change r.sema.up.value + log.downs = value + (log.ups + 1)
      omega
    · rw [still, ← h.waiters, nobody]
    · rw [still]
      exact nodup_nil
  · rename_i first rest list
    split at taken
    · rename_i waiting
      cases taken
      have queue : r.sema.up.waiters = rest := by rw [Semaphore.up, list]; rfl
      have nodup := h.nodup
      rw [list, nodup_cons] at nodup
      refine ⟨?_, fun q => ?_, ?_, first :: popped, ?_, fun q => ?_, fun _ => ?_⟩
      · change r.sema.up.value + log.downs = value + (log.ups + 1)
        omega
      · change q ∈ r.sema.up.waiters ↔ update r.pc first .retesting q = .waiting
        rw [queue, update_apply]
        by_cases here : q = first
        · simp [here, nodup.1]
        · rw [if_neg here, ← h.waiters, list]
          simp [here]
      · rw [queue]
        exact nodup.2
      · refine nodup_cons.mpr ⟨fun member => ?_, held.nodup⟩
        cases waiting.symm.trans ((held.mem first).mp member)
      · change q ∈ first :: popped ↔ update r.pc first .retesting q = .retesting
        rw [mem_cons, held.mem, update_apply]
        by_cases here : q = first <;> simp [here]
      · have enough := held.enough (by simp [list])
        rw [added, length_cons]
        omega
    · cases taken

theorem UnitsKept.step {e : SemaEvent} (h : UnitsKept value r log)
    (few : FewOutstanding value (r, log) e) (taken : r.step e = .ok after) :
    UnitsKept value after (logUnits r e after log) := by
  have tests : ∀ t, r.pc t ≠ .waiting → UnitsKept value (r.test t)
      (if (r.test t).pc t = .outside then { log with downs := log.downs + 1 } else log) := by
    intro t running
    by_cases zero : r.sema.value = 0
    · rw [if_neg (by simp [SemaRun.test, zero])]
      exact h.waits zero running
    · rw [if_pos (by simp [SemaRun.test, zero])]
      exact h.takes zero running
  cases e with
  | down t =>
    simp only [SemaRun.step] at taken
    split at taken
    · rename_i outside
      cases taken
      exact tests t (by simp [outside])
    · cases taken
  | retest t =>
    simp only [SemaRun.step] at taken
    split at taken
    · rename_i retesting
      cases taken
      exact tests t (by simp [retesting])
    · cases taken
  | tryDown =>
    cases taken
    simp only [logUnits]
    by_cases zero : r.sema.value = 0
    · have same : r.sema.tryDown = r.sema := if_neg (by omega)
      rw [same, if_neg (Nat.lt_irrefl _)]
      exact h
    · rw [if_pos]
      · exact h.tries zero
      · rw [Semaphore.tryDown, if_pos (Nat.pos_of_ne_zero zero)]
        exact Nat.sub_one_lt zero
  | up => exact h.ups few taken

theorem reachable_units (h : ReachableWhile (semaphoreRun value) (FewOutstanding value) (r, log)) :
    UnitsKept value r log := by
  refine (ReachableWhile.recorded ?_ ?_ h).2
  · rintro s rfl
    refine ⟨rfl, fun t => by simp, nodup_nil, [], nodup_nil, fun t => by simp,
      fun no => absurd rfl no⟩
  · intro s log e after _ kept few taken
    exact kept.step few taken

/-- The first waiter is blocked when `sema_up` unblocks it. -/
theorem UnitsKept.asserts {e : SemaEvent} (h : UnitsKept value r log) :
    r.step e ≠ .error .assertion := by
  cases e with
  | down t | retest t =>
    simp only [SemaRun.step]
    split <;> simp
  | tryDown => simp [SemaRun.step]
  | up =>
    simp only [SemaRun.step, SemaRun.up]
    split
    · simp
    · rename_i first rest list
      have waiting := (h.waiters first).mp (by rw [list]; exact mem_cons_self)
      simp [waiting]

/-- In every run with fewer than `2 ^ 32` units outstanding the value is the initial one plus
the completed ups minus the completed downs. While somebody waits the value is at most the
number of threads that were popped and have not tested again, so that a unit somebody could
take is waited for by such a thread. No `sema_up` finds a waiter that is not blocked. -/
theorem semaphore_units (value : Nat) (r : SemaRun) (log : UnitLog)
    (h : ReachableWhile (semaphoreRun value) (FewOutstanding value) (r, log)) :
    r.sema.value = value + log.ups - log.downs ∧ log.downs ≤ value + log.ups ∧
    ∃ popped : List Page, popped.Nodup ∧ (∀ t, t ∈ popped ↔ r.pc t = .retesting) ∧
      (r.sema.waiters ≠ [] → r.sema.value ≤ popped.length) ∧
      (r.sema.waiters ≠ [] → r.sema.value ≠ 0 → ∃ t, r.pc t = .retesting) ∧
      ∀ e, r.step e ≠ .error .assertion := by
  have kept := reachable_units h
  obtain ⟨popped, held⟩ := kept.popped
  have units := kept.units
  refine ⟨by omega, by omega, popped, held.nodup, held.mem, held.enough, fun someone unit => ?_,
    fun e => kept.asserts⟩
  have enough := held.enough someone
  obtain ⟨t, member⟩ := exists_mem_of_length_pos (show 0 < popped.length by omega)
  exact ⟨t, (held.mem t).mp member⟩

/-- Thread 2 waits, is popped, loses its unit to thread 4 and waits again; then thread 3 is
popped and has not tested yet. -/
theorem semaphore_units_barging : ∃ r log,
    ReachableWhile (semaphoreRun 0) (FewOutstanding 0) (r, log) ∧ r.sema = ⟨1, [2]⟩ ∧
    log = ⟨2, 1⟩ ∧ ∃ t, r.pc t = .retesting := by
  obtain ⟨⟨r, log⟩, reached, sema, same⟩ := runWhile_holds (semaphoreRun 0) (FewOutstanding 0)
    (⟨⟨0, []⟩, fun _ => .outside⟩, ⟨0, 0⟩) ⟨rfl, rfl⟩
    [.down 2, .down 3, .up, .down 4, .retest 2, .up]
    (P := fun s => s.1.sema = ⟨1, [2]⟩ ∧ s.2 = ⟨2, 1⟩) (by decide +kernel)
  dsimp only at sema same
  obtain ⟨_, _, popped, _, _, _, retests, _⟩ := semaphore_units 0 r log reached
  exact ⟨r, log, reached, sema, same, retests (by simp [sema]) (by simp [sema])⟩

end
end Calendarizador.Guarantees
