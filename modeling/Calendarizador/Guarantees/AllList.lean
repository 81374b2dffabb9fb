import Calendarizador.Invariant.CreateSteps

/-!
# `all_list` under preemption

`list_push_back (&all_list, ..)` is called with interrupts on. If another thread is linked
between two of its writes, the two insertions take the same element for the last one, and
one of the new threads is skipped by every walk along the list although it is alive.
-/
namespace Calendarizador.Guarantees
open Foundation Source

/-- What preemption must not break. The pointers are a list whenever no insertion is between
its last two writes, and the walk of `thread_foreach` never misses a thread. -/
structure AllListSafe (s : Creating) : Prop where
  list : (∀ p t, s.pc p ≠ .beforePrev t) →
    ∃ list, Linked s.links list ∧ ∀ t, t ∈ list ↔ (s.pc t).completed = true
  visits : ∃ bound list, visited s.links bound = .ok list ∧
    ∀ t, (s.pc t).completed = true → t ∈ list

theorem allListSafe_of_ok {s : Creating} {list : List Page} {a : Page} (h : s.Ok list a) :
    AllListSafe s := by
  refine ⟨fun quiet => ⟨list, h.queue.shape.linked (quiet a), fun t => ?_⟩, ?_⟩
  · rw [h.queue.member t, or_iff_left (quiet a t)]
  · obtain ⟨m, linked, next, prev⟩ := h.queue.shape.almost
    have first : s.links.next (.head ()) = some (startCell () list) := next ▸ linked.first
    refine ⟨list.length, list, bind_eq_ok.mpr ⟨startCell () list, by rw [first]; rfl, ?_⟩,
      fun t completed => (h.queue.member t).mpr (.inl completed)⟩
    exact foreachFrom_linked (show Linked m ([] ++ list) from linked) next prev le_rfl

/-- In every run in which insertions into `all_list` do not overlap and the last thread of the
list does not exit between the first and the third write of one, the list is safe and no
assertion fails. -/
theorem create_undisturbed (s : Creating)
    (h : ReachableWhile creatingSystem Creating.Undisturbed s) :
    AllListSafe s ∧ ∀ e fault, s.Undisturbed e → s.createStep e = .error fault →
      fault = .disabled := by
  obtain ⟨list, a, ok⟩ := Creating.reachable_ok h
  refine ⟨allListSafe_of_ok ok, fun e fault undisturbed failed => ?_⟩
  rcases ok.step undisturbed with disabled | ⟨after, rest, _, stepped, _⟩
  · rw [disabled] at failed
    cases failed
    rfl
  · rw [stepped] at failed
    cases failed

/-- `p` calls `thread_create`, gets the page `t` and executes `n` statements. -/
def createSteps (p t : Page) (n : Nat) : List CreateEvent :=
  .create p t :: List.replicate n (.run p)

/-- Thread 2 begins to create thread 4 while `main` links thread 3, and thread 3 exits before the
last write that links thread 4. -/
def interleavedRun : List CreateEvent :=
  createSteps 0 2 6 ++ createSteps 0 3 2 ++ createSteps 2 4 1 ++
    [.run 0, .run 0, .run 0, .run 2, .run 0, .run 2, .run 2, .exit 3, .run 2, .run 2]

theorem create_undisturbed_interleaved : ∃ s,
    ReachableWhile creatingSystem Creating.Undisturbed s ∧
    [0, 2, 3, 4].map s.pc = [.user, .user, .dying, .user] ∧
    visited s.links 3 = .ok [0, 2, 4] ∧ AllListSafe s := by
  obtain ⟨s, ran, places, walk⟩ := runWhile_holds creatingSystem
    (fun s e => s.within 5 e = true) Creating.init rfl interleavedRun
    (P := fun s => [0, 2, 3, 4].map s.pc = [.user, .user, .dying, .user] ∧
      visited s.links 3 = .ok [0, 2, 4]) (by decide +kernel)
  obtain ⟨reached, _⟩ := Creating.reachable_within ran
  exact ⟨s, reached, places, walk, (create_undisturbed s reached).1⟩

/-- `main` creates thread 2, and is preempted by it before the last write of its next
insertion; thread 2 creates thread 4 meanwhile. -/
def overlappingRun : List CreateEvent :=
  createSteps 0 2 6 ++ createSteps 0 3 4 ++ createSteps 2 4 6 ++ List.replicate 2 (.run 0)

/-- Both new threads run, and `thread_foreach` visits one of them. -/
theorem create_overlapping : ∃ broken, Reachable creatingSystem broken ∧
    [0, 2, 3, 4].map broken.pc = [.user, .user, .user, .user] ∧
    visited broken.links 4 = .ok [0, 2, 4] ∧ ¬ AllListSafe broken := by
  obtain ⟨broken, reached, places, walk⟩ := run_holds creatingSystem Creating.init rfl
    overlappingRun (P := fun broken => [0, 2, 3, 4].map broken.pc = [.user, .user, .user, .user] ∧
      visited broken.links 4 = .ok [0, 2, 4]) (by decide +kernel)
  refine ⟨broken, reached, places, walk, fun safe => ?_⟩
  obtain ⟨bound, list, walked, complete⟩ := safe.visits
  have same : list = [0, 2, 4] := by
    have first := visited_mono walked (Nat.le_max_left bound 4)
    rw [visited_mono walk (Nat.le_max_right bound 4)] at first
    exact (Except.ok.inj first).symm
  simp only [List.map_cons, List.map_nil, List.cons.injEq, and_true] at places
  obtain ⟨_, _, user, _⟩ := places
  have missing := complete 3 (by rw [user]; rfl)
  simp [same] at missing

end Calendarizador.Guarantees
