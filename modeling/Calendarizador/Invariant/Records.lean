import Calendarizador.Invariant.Control
import Calendarizador.Invariant.Estimates

/-!
# Names and records

A thread keeps its name as long as its page is not given to another thread. Under SJF the
list of records grows only when a thread with a new name is created, and then by that thread;
the lookups that `thread_exit` makes for all threads find a record for each of them.
-/
namespace Calendarizador.Source
open Foundation List

section
variable {k after : Kernel} {e : Event} {p : Page} {outcome : Outcome}

theorem Calm.name (h : Calm k after) (p : Page) : (after.thread p).name = (k.thread p).name :=
  congrArg Prod.fst (h.kept p)

theorem threadAllocate_name {t : Page} {name : Name} {priority : Int}
    (created : threadAllocate k t name priority = .ok after) :
    (after.thread p).name = if p = t then name.take 15 else (k.thread p).name := by
  obtain ⟨_, _, _, effects⟩ := threadAllocate_effects created
  rw [effects.thread]
  split <;> rfl

theorem setCode_name (k : Kernel) (q p : Page) (c : Code) :
    ((k.setCode q c).thread p).name = (k.thread p).name :=
  Kernel.keeps_upd (fun t => t.name) k q (Thread.setCode c) (fun _ => rfl) p

theorem startIdle_name {q : Page} (taken : opBody k (.startIdle q) = .ok outcome) :
    (outcome.kernel.thread p).name = if p = q then idleName else (k.thread p).name := by
  obtain ⟨created, allocated, taken⟩ := bind_eq_ok.mp taken
  obtain ⟨unblocked, unblocking, ⟨⟩⟩ := bind_eq_ok.mp taken
  change ((unblocked.setCode q .idleEntry).thread p).name = _
  rw [setCode_name, (threadUnblock_effects unblocking).calm.name, threadAllocate_name allocated,
    setCode_name]
  rfl

/-- Only the creation of a thread writes a name. -/
theorem opBody_name {e : Event} (taken : opBody k e = .ok outcome) (used : k.allocated p = true) :
    (outcome.kernel.thread p).name = (k.thread p).name := by
  have free : ∀ {k after : Kernel} {t : Page} {name : Name} {priority : Int},
      threadAllocate k t name priority = .ok after → k.allocated p = true → p ≠ t := by
    rintro k after t name priority created used rfl
    rw [threadAllocate, if_pos used] at created
    cases created
  cases opBody_performs taken with
  | startIdle allocates => exact (startIdle_name taken).trans (if_neg (free allocates used))
  | create allocates => exact (threadAllocate_name allocates).trans (if_neg (free allocates used))
  | exitFinish exiting exits =>
    exact threadExit_keeps (fun t => t.name) {} exits p
  | setPriority priority =>
    exact (setting_calm k (Thread.setPriority (i32 priority)) (fun _ => rfl) fun _ => rfl).name p
  | setNice nice =>
    exact (setting_calm k (Thread.setNice (i32 nice)) (fun _ => rfl) fun _ => rfl).name p
  | timer handles =>
    exact (intrHandler_keeps (fun t => t.name) {} handles).1 p
  | _ => exact opBody_keeps (fun t => t.name) {} (fun _ _ => rfl) rfl taken p

theorem opBody_newName (h : Inv k) (enabled : e.enabled k = true) (taken : opBody k e = .ok outcome)
    {name : Name} (creates : e.creates = some (p, name)) :
    (outcome.kernel.thread p).name = name := by
  rcases opBody_effects h enabled taken with ⟨_, ⟨none, _⟩, _⟩ | ⟨t, _, some, born⟩ |
    ⟨rfl, _⟩ | ⟨_, rfl, _⟩ | ⟨rfl, _⟩
  · cases none.symm.trans creates
  · cases some.symm.trans creates
    exact congrArg Prod.fst born.fresh
  · cases creates
  · cases creates
  · cases creates

/-- The threads that become records in an event. -/
def newRecords (k : Kernel) (e : Event) : List Page :=
  match e.creates with
  | some (t, name) => if recordOf k name = none then [t] else []
  | none => []

theorem opBody_records (h : Inv k) (sjf : k.mode = .sjf) (estimated : Estimated k)
    (enabled : e.enabled k = true) (taken : opBody k e = .ok outcome) :
    outcome.kernel.allAllList = k.allAllList ++ newRecords k e := by
  rcases opBody_effects h enabled taken with ⟨_, ⟨none, _⟩, calm⟩ | ⟨t, name, creates, born⟩ |
    ⟨rfl, rep, seen, code, exits⟩ | ⟨n, rfl, _, rfl⟩ | ⟨rfl, handled⟩
  · rw [calm.allAllList, newRecords, none, append_nil]
  · rw [born.allAllList, newRecords, creates]
    by_cases known : recordOf k name = none
    · simp [sjf, known]
    · simp [known]
  · obtain ⟨learned, total, learning, rfl⟩ := threadExit_effects exits
    rw [learnAtExit, if_pos sjf] at learning
    obtain ⟨burst, loop, rfl⟩ := map_eq_ok.mp learning
    exact (learnBurst_loop h estimated loop).1.trans (append_nil _).symm
  · exact (blockOn_globals (enterWaitList k n) _).allAllList.trans (append_nil _).symm
  · exact (intrHandler_sjf sjf handled).2.trans (append_nil _).symm

/-- The pages in use when an event returns or calls `schedule`. -/
theorem opBody_allocated (h : Inv k) (enabled : e.enabled k = true)
    (taken : opBody k e = .ok outcome) (p : Page) : outcome.kernel.allocated p = true ↔
      k.allocated p = true ∨ e.creates.map Prod.fst = some p := by
  rcases opBody_effects h enabled taken with ⟨_, ⟨none, _⟩, calm⟩ | ⟨t, name, creates, born⟩ |
    ⟨rfl, rep, seen, code, exits⟩ | ⟨n, rfl, _, rfl⟩ | ⟨rfl, handled⟩
  · simp [calm.allocated, none]
  · rw [born.allocated, creates, Function.update_apply]
    by_cases here : p = t
    · simp [here]
    · simp [here, Ne.symm here]
  · obtain ⟨learned, total, learning, rfl⟩ := threadExit_effects exits
    have same : learned.allocated = k.allocated := (learnAtExit_accounting learning).allocated
    simp [Outcome.kernel, same, Event.creates]
  · have same : (blockOn (enterWaitList k n) (.timer k.current)).allocated = k.allocated :=
      (blockOn_globals (enterWaitList k n) _).allocated
    simp [Outcome.kernel, same, Event.creates]
  · have same := (intrHandler_keeps (fun t => t.code) {} handled).2.allocated
    simp [same, Event.creates]

/-- The page that `thread_schedule_tail` frees on the switch to `next`. -/
def freedBy (ready : Kernel) (next : Page) : List Page :=
  if ready.current ≠ next ∧ ready.status ready.current = .dying ∧
    ready.current ≠ ready.initialThread ∧ ready.mode ≠ .sjf then [ready.current] else []

theorem schedule_allocated (taken : schedule k = .ok after) (p : Page) :
    after.allocated p = true ↔ k.allocated p = true ∧ p ∉ freedBy k after.current := by
  obtain ⟨_, next, rest, _, rfl⟩ := schedule_effects taken
  rw [dispatch_allocated, dispatch_current, freedBy]
  split
  · rename_i freed
    obtain ⟨rfl, apart, dying, notInitial, notSjf⟩ := freed
    have condition : k.current ≠ next ∧ k.status k.current = .dying ∧
        k.current ≠ k.initialThread ∧ k.mode ≠ .sjf := ⟨apart, dying, notInitial, notSjf⟩
    rw [if_pos condition]
    simp
  · rename_i kept
    have other : p ∉ (if k.current ≠ next ∧ k.status k.current = .dying ∧
        k.current ≠ k.initialThread ∧ k.mode ≠ .sjf then [k.current] else []) := by
      split
      · rename_i condition
        intro member
        rw [mem_singleton] at member
        subst member
        exact kept ⟨rfl, condition⟩
      · exact not_mem_nil
    exact ⟨fun used => ⟨used, other⟩, fun used => used.1⟩

end
end Calendarizador.Source
