import Calendarizador.Guarantees.Records

/-!
# Pages of dead threads

`thread_create` takes one page for each thread and `thread_schedule_tail` gives it back once
the thread is dead and switched away from. Under SJF nothing is given back, because the page
of a record must stay; a dead thread that is not a record then keeps its page for ever. The
results count the creations, exits and frees of each page along a run.
-/
namespace Calendarizador.Guarantees
open Foundation Source List

/-- What a step does to one page. -/
inductive PageStep (k : Kernel) (e : Event) (after : Kernel) (p : Page) : Prop
  | created (creates : e.creates.map Prod.fst = some p) (free : k.allocated p = false)
      (alive : after.Live p) (survives : p ∉ dies k e) (kept : p ∉ frees k e after)
  | exits (old : e.creates.map Prod.fst ≠ some p) (alive : k.Live p) (dead : ¬ after.Live p)
      (died : dies k e = [p])
      (freed : frees k e after = if p = k.initialThread ∨ k.mode = .sjf then [] else [p])
      (used : after.allocated p = true ↔ p = k.initialThread ∨ k.mode = .sjf)
  | stays (old : e.creates.map Prod.fst ≠ some p) (alive : after.Live p ↔ k.Live p)
      (used : after.allocated p = true ↔ k.allocated p = true) (survives : p ∉ dies k e)
      (kept : p ∉ frees k e after)

section
variable {k ready after : Kernel} {e : Event} {log : LifeLog} {p : Page} {mode : Mode}

theorem dies_nil (stays : e ≠ .exitFinish) : dies k e = [] := by
  cases e with
  | exitFinish => exact absurd rfl stays
  | _ => rfl

/-- An event that does not reach `schedule`. -/
theorem pageStep_returns (h : Inv k) (enabled : e.enabled k = true)
    (body : opBody k e = .ok (.returns after)) (p : Page) : PageStep k e after p := by
  have stays : e ≠ .exitFinish := by
    rintro rfl
    simp only [opBody] at body
    split at body
    · obtain ⟨_, _, _, no⟩ := threadExit_effects body
      cases no
    · cases body
  have survives : p ∉ dies k e := by simp [dies_nil stays]
  have kept : p ∉ frees k e after := by simp [frees, schedulesFrom, body]
  by_cases creates : e.creates.map Prod.fst = some p
  · obtain ⟨⟨q, name⟩, some, rfl⟩ := Option.map_eq_some_iff.mp creates
    obtain ⟨free, alive⟩ := created_live h enabled body some
    exact .created creates free alive survives kept
  · obtain ⟨was, still⟩ := opBody_live h enabled body
    refine .stays creates ⟨fun now => ?_, still stays p⟩ ?_ survives kept
    · rcases was p now with alive | ⟨_, name, some⟩
      · exact alive
      · exact absurd (by rw [some]; rfl) creates
    · rw [show after.allocated p = true ↔ _ from opBody_allocated h enabled body p]
      simp [creates]

/-- `thread_exit` and the switch away from the dead thread. -/
theorem pageStep_exit (h : Inv k) (enabled : Event.enabled k .exitFinish = true)
    (body : opBody k .exitFinish = .ok (.schedules ready)) (switched : schedule ready = .ok after)
    (live : after.Live after.current) (p : Page) : PageStep k .exitFinish after p := by
  have core : Core ready := (opBody_inv h .exitFinish enabled body).core
  have alive : ∀ q, after.Live q ↔ k.Live q ∧ q ≠ k.current := fun q =>
    ((schedule_switched core switched).live q).trans (exitFinish_live h enabled body q)
  have used : ∀ q, ready.allocated q = true ↔ k.allocated q = true := by
    intro q
    rw [show ready.allocated q = true ↔ _ from opBody_allocated h enabled body q]
    simp [Event.creates]
  have current : ready.current = k.current := (opBody_current body).1
  have initial : ready.initialThread = k.initialThread := (opBody_current body).2
  have mode : ready.mode = k.mode := opBody_mode h enabled body
  have dying : ready.status k.current = .dying := by
    by_contra other
    have back : ready.Live k.current := ⟨(used k.current).mpr h.live.1, other⟩
    exact ((exitFinish_live h enabled body k.current).mp back).2 rfl
  have apart : k.current ≠ after.current := fun same => ((alive after.current).mp live).2 same.symm
  have freed : frees k .exitFinish after =
      if k.current = k.initialThread ∨ k.mode = .sjf then [] else [k.current] := by
    simp only [frees, schedulesFrom, body, freedBy, current, initial, mode]
    by_cases kept : k.current = k.initialThread ∨ k.mode = .sjf
    · rw [if_pos kept, if_neg]
      rintro ⟨_, _, notInitial, notSjf⟩
      exact kept.elim notInitial notSjf
    · rw [if_neg kept, if_pos]
      rw [not_or] at kept
      exact ⟨apart, dying, kept⟩
  have pages : after.allocated p = true ↔ k.allocated p = true ∧ p ∉ frees k .exitFinish after := by
    rw [schedule_allocated switched, used]
    simp [frees, schedulesFrom, body]
  by_cases here : p = k.current
  · subst here
    refine .exits (by simp [Event.creates]) h.live (fun now => ((alive _).mp now).2 rfl) rfl freed
      ?_
    rw [pages, freed]
    have usedNow := h.live.1
    split
    · rename_i kept
      simp [usedNow, kept]
    · rename_i lost
      simp [lost]
  · have kept : p ∉ frees k .exitFinish after := by
      rw [freed]
      split
      · exact not_mem_nil
      · simpa using here
    refine .stays (by simp [Event.creates]) ?_ ?_ (by simpa [dies] using here) kept
    · rw [alive]
      simp [here]
    · rw [pages]
      simp [kept]

/-- Every other call of `schedule` switches away from a thread that lives. -/
theorem pageStep_switch (h : Inv k) (enabled : e.enabled k = true) (stays : e ≠ .exitFinish)
    (body : opBody k e = .ok (.schedules ready)) (switched : schedule ready = .ok after)
    (p : Page) : PageStep k e after p := by
  have core : Core ready := (opBody_inv h e enabled body).core
  have none : e.creates = none := by
    by_cases tick : e = .timer
    · rw [tick]
      rfl
    · have stops := opBody_givesUp tick body
      cases e with
      | startIdle q => exact stops.elim
      | create q name priority => exact stops.elim
      | _ => rfl
  obtain ⟨was, still⟩ := opBody_live h enabled body
  have alive : after.Live p ↔ k.Live p := by
    rw [(schedule_switched core switched).live]
    refine ⟨fun now => ?_, still stays p⟩
    rcases was p now with before | ⟨_, name, some⟩
    · exact before
    · cases none.symm.trans some
  have running : ready.status ready.current ≠ .dying := by
    have current : ready.current = k.current := (opBody_current body).1
    rw [current]
    exact (still stays k.current h.live).2
  have silent : frees k e after = [] := by
    simp only [frees, schedulesFrom, body, freedBy]
    exact if_neg fun freed => running freed.2.1
  refine .stays (by simp [none]) alive ?_ (by simp [dies_nil stays]) (by simp [silent])
  have quiet : freedBy ready after.current = [] := by
    simpa [frees, schedulesFrom, body] using silent
  rw [schedule_allocated switched, quiet,
    show ready.allocated p = true ↔ _ from opBody_allocated h enabled body p, none]
  simp

theorem step_page (h : Inv k) (taken : step k e = .ok after) (p : Page) : PageStep k e after p := by
  obtain ⟨enabled, body | ⟨ready, body, switched⟩⟩ := step_effects taken
  · exact pageStep_returns h enabled body p
  · by_cases exits : e = .exitFinish
    · subst exits
      exact pageStep_exit h enabled body switched (step_inv h taken).live p
    · exact pageStep_switch h enabled exits body switched p

/-- Creations, exits and frees of every page add up. -/
structure Counted (k : Kernel) (log : LifeLog) : Prop where
  created : ∀ p, p ≠ k.initialThread → (log.created.map Prod.fst).count p =
    log.freed.count p + if k.allocated p = true then 1 else 0
  died : ∀ p, p ≠ k.initialThread → log.died.count p =
    log.freed.count p + if k.allocated p = true ∧ ¬ k.Live p then 1 else 0
  /-- Outside SJF a dead thread has lost its page. -/
  owned : ∀ p, p ≠ k.initialThread → k.mode ≠ .sjf → k.allocated p = true → k.Live p

theorem count_creates (e : Event) (p : Page) :
    (e.creates.toList.map Prod.fst).count p = if e.creates.map Prod.fst = some p then 1 else 0 := by
  cases creates : e.creates with
  | none => rfl
  | some c =>
    by_cases here : c.1 = p
    · simp [here]
    · simp [here]

theorem step_registers (h : Inv k) (taken : step k e = .ok after) :
    after.initialThread = k.initialThread ∧ after.mode = k.mode := by
  obtain ⟨enabled, body | ⟨ready, body, switched⟩⟩ := step_effects taken
  · exact ⟨(opBody_current body).2, opBody_mode h enabled body⟩
  · have core : Core ready := (opBody_inv h e enabled body).core
    have same := schedule_switched core switched
    exact ⟨same.initialThread.trans (opBody_current body).2,
      same.mode.trans (opBody_mode h enabled body)⟩

theorem Counted.step (inv : Inv k) (h : Counted k log) (taken : Source.step k e = .ok after) :
    Counted after (logLife k e after log) := by
  obtain ⟨initial, mode⟩ := step_registers inv taken
  have page : ∀ p, p ≠ k.initialThread →
      ((logLife k e after log).created.map Prod.fst).count p =
        (logLife k e after log).freed.count p + (if after.allocated p = true then 1 else 0) ∧
      (logLife k e after log).died.count p = (logLife k e after log).freed.count p +
        (if after.allocated p = true ∧ ¬ after.Live p then 1 else 0) ∧
      (k.mode ≠ .sjf → after.allocated p = true → after.Live p) := by
    intro p other
    have created := h.created p other
    have died := h.died p other
    simp only [logLife, map_append, count_append, count_creates]
    cases step_page inv taken p with
    | created creates free alive survives kept =>
      have notLive : ¬ k.Live p := fun was => by cases was.1.symm.trans free
      rw [if_pos creates, count_eq_zero.mpr survives, count_eq_zero.mpr kept,
        if_pos alive.1, if_neg fun dead => dead.2 alive]
      simp only [free, Bool.false_eq_true, false_and, if_false] at created died
      exact ⟨by omega, by omega, fun _ _ => alive⟩
    | exits old alive dead lost gone used =>
      rw [if_neg old, lost, gone]
      simp only [alive.1, alive, not_true, and_false, if_true, if_false] at created died
      by_cases sjf : k.mode = .sjf
      · have still := used.mpr (.inr sjf)
        simp only [sjf, or_true, if_true, still, dead, not_false_eq_true, and_true,
          count_singleton_self, count_nil]
        exact ⟨by omega, by omega, fun no => absurd rfl no⟩
      · have free : after.allocated p = false :=
          eq_false_of_ne_true fun now => (used.mp now).elim other sjf
        have notKept : ¬ (p = k.initialThread ∨ k.mode = .sjf) := fun kept => kept.elim other sjf
        simp only [notKept, if_false, free, Bool.false_eq_true, false_and,
          count_singleton_self]
        exact ⟨by omega, by omega, fun _ no => no.elim⟩
    | stays old alive used survives kept =>
      rw [if_neg old, count_eq_zero.mpr survives, count_eq_zero.mpr kept]
      simp only [used, alive]
      exact ⟨by omega, by omega, fun notSjf => h.owned p other notSjf⟩
  constructor
  · intro p other
    exact (page p (initial ▸ other)).1
  · intro p other
    exact (page p (initial ▸ other)).2.1
  · intro p other notSjf
    exact (page p (initial ▸ other)).2.2 (mode ▸ notSjf)

/-- Before the first creation only the page of `main` is in use. -/
theorem threadInit_allocated {values : Nat → Nat} (booted : threadInit mode values = .ok k)
    {p : Page} (other : p ≠ 0) : k.allocated p = false := by
  obtain ⟨made, effects, rfl⟩ := threadInit_effects booted
  change made.allocated p = false
  rw [effects.allocated]
  exact decide_eq_false other

theorem reachable_counted (h : Reachable (lifeRun mode) (k, log)) :
    Reachable (kernelSystem mode) k ∧ Counted k log := by
  refine Reachable.recorded ?_ ?_ h
  · rintro s ⟨values, booted⟩
    have facts := threadInit_booted booted
    have only : ∀ p, p ≠ s.initialThread → s.allocated p = false :=
      fun p other => threadInit_allocated booted (facts.initialThread ▸ other)
    refine ⟨fun p other => ?_, fun p other => ?_, fun p other _ used => ?_⟩
    · rw [facts.initialThread] at other
      simp [only p (facts.initialThread ▸ other), other.symm]
    · simp [only p other]
    · cases (only p other).symm.trans used
  · intro s log e after reached counted taken
    exact counted.step (reachable_inv reached) taken

/-- Every page in use belongs to a live thread or, under SJF, to a record; every dead thread
whose page is not in use any more lost it by one free; and the pages in use are at most as
many as the live threads and the names ever used. The page of `initial_thread` is not from
the page allocator. -/
structure Reclaimed (k : Kernel) (log : LifeLog) : Prop where
  owned : ∀ p, p ≠ k.initialThread → k.allocated p = true →
    k.Live p ∨ (k.mode = .sjf ∧ p ∈ k.allAllList)
  once : ∀ p, p ≠ k.initialThread → log.died.count p =
    log.freed.count p + if k.allocated p = true ∧ ¬ k.Live p then 1 else 0
  bounded : ∀ (names : List Name) (pages : List Page), (∀ c ∈ log.created, c.2 ∈ names) →
    pages.Nodup → (∀ p ∈ pages, k.allocated p = true ∧ p ≠ k.initialThread) →
    pages.length ≤ k.allList.length + names.length

/-- Under SJF only records exit. -/
def RecordExits (s : Kernel × LifeLog) : Event → Prop
  | .exitFinish => s.1.mode = .sjf → s.1.current = s.1.initialThread ∨ s.1.current ∈ s.1.allAllList
  | _ => True

instance (s : Kernel × LifeLog) (e : Event) : Decidable (RecordExits s e) := by
  unfold RecordExits
  split <;> infer_instance

/-- There are at most as many records as names. -/
theorem records_bounded (estimated : Estimated k) (recorded : Recorded k log) {names : List Name}
    (used : ∀ c ∈ log.created, c.2 ∈ names) : k.allAllList.length ≤ names.length := by
  have subset : (k.allAllList.map fun p => (k.thread p).name) ⊆ names := by
    intro name member
    obtain ⟨r, listed, rfl⟩ := mem_map.mp member
    have found := recorded.lookup (k.thread r).name
    rw [estimated.indexed r listed] at found
    obtain ⟨c, first, _⟩ := Option.map_eq_some_iff.mp found.symm
    have same : c.2 = (k.thread r).name := by simpa using List.find?_some first
    exact same ▸ used c (mem_of_find?_eq_some first)
  have distinct := records_nodup estimated.indexed recorded.nodup
  simpa using (subperm_of_subset distinct subset).length_le

/-- The property holds exactly if under SJF every dead thread is a record. -/
theorem reclaimed_iff (h : Reachable (lifeRun mode) (k, log)) : Reclaimed k log ↔
      (mode = .sjf → ∀ p ∈ log.died, p = k.initialThread ∨ p ∈ k.allAllList) := by
  obtain ⟨reached, counted⟩ := reachable_counted h
  have inv := reachable_inv reached
  have chosen : k.mode = mode := reachable_mode reached
  constructor
  · intro reclaimed sjf p dead
    by_contra lost
    rw [not_or] at lost
    subst sjf
    have freed : log.freed = [] := (reachable_recorded h).2.freed
    have died := counted.died p lost.1
    have some := count_pos_iff.mpr dead
    rw [freed, count_nil] at died
    split at died
    · rename_i unowned
      rcases reclaimed.owned p lost.1 unowned.1 with alive | ⟨_, record⟩
      · exact unowned.2 alive
      · exact lost.2 record
    · omega
  · intro records
    have owned : ∀ p, p ≠ k.initialThread → k.allocated p = true →
        k.Live p ∨ (k.mode = .sjf ∧ p ∈ k.allAllList) := by
      intro p other used
      by_cases alive : k.Live p
      · exact .inl alive
      · by_cases sjf : k.mode = .sjf
        · have died := counted.died p other
          rw [if_pos ⟨used, alive⟩] at died
          have dead : p ∈ log.died := count_pos_iff.mp (by omega)
          exact .inr ⟨sjf, (records (chosen ▸ sjf) p dead).resolve_left other⟩
        · exact .inl (counted.owned p other sjf used)
    refine ⟨owned, counted.died, fun names pages used distinct inUse => ?_⟩
    by_cases sjf : mode = .sjf
    · subst sjf
      have subset : pages ⊆ k.allList ++ k.allAllList := by
        intro p member
        rw [mem_append, (inv.core.threads p).all]
        exact (owned p (inUse p member).2 (inUse p member).1).imp id fun record => record.2
      have most := (subperm_of_subset distinct subset).length_le
      have few := records_bounded (reachable_estimated reached) (reachable_recorded h).2 used
      rw [length_append] at most
      omega
    · have subset : pages ⊆ k.allList := by
        intro p member
        rw [(inv.core.threads p).all]
        exact (owned p (inUse p member).2 (inUse p member).1).resolve_right
          fun record => sjf (chosen ▸ record.1)
      have most := (subperm_of_subset distinct subset).length_le
      omega

/-- In a run in which only records exit under SJF, the dead threads are records. -/
theorem reachable_recordExits (h : ReachableWhile (lifeRun mode) RecordExits (k, log))
    (sjf : mode = .sjf) : ∀ p ∈ log.died, p = k.initialThread ∨ p ∈ k.allAllList := by
  subst sjf
  refine (ReachableWhile.recorded (P := fun k log => ∀ p ∈ log.died,
    p = k.initialThread ∨ p ∈ k.allAllList) ?_ ?_ h).2
  · intro s _ p none
    cases none
  · intro s log e after reached records fine taken p member
    have inv := reachable_inv reached
    have mode := reachable_mode reached
    obtain ⟨initial, _⟩ := step_registers inv taken
    obtain ⟨stays, _⟩ := sjf_keeps inv mode (reachable_estimated reached) taken
    rw [initial]
    have before : p = s.initialThread ∨ p ∈ s.allAllList := by
      rcases mem_append.mp member with old | new
      · exact records p old
      · cases e with
        | exitFinish =>
          rw [mem_singleton.mp new]
          exact fine mode
        | _ => cases new
    exact before.imp id fun record => stays.subset record

/-- A run in which `main` creates a thread named `a`, which yields and exits, and then
another one. -/
def twoJobs : List Event :=
  threadStart ++ [.create (some 2) ['a'] 0, .unblock 2, .block, .yield, .exit, .exitFinish,
    .unblock 0, .idleBlock, .create (some 3) ['a'] 0, .unblock 3, .block, .yield, .exit,
    .exitFinish]

/-- Pages are reclaimed in every mode but SJF, and under SJF exactly if every dead thread is a
record; in particular in every run in which only records exit. -/
theorem pages_reclaimed (mode : Mode) (k : Kernel) (log : LifeLog)
    (h : Reachable (lifeRun mode) (k, log)) :
    (Reclaimed k log ↔
      (mode = .sjf → ∀ p ∈ log.died, p = k.initialThread ∨ p ∈ k.allAllList)) ∧
    (ReachableWhile (lifeRun mode) RecordExits (k, log) → Reclaimed k log) :=
  ⟨reclaimed_iff h, fun fine => (reclaimed_iff h).mpr (reachable_recordExits fine)⟩

/-- Two threads named `a` run and exit under Round-Robin: both pages are free again. -/
theorem pages_reclaimed_roundrobin : ∃ k log, Reachable (lifeRun .roundrobin) (k, log) ∧
    log.died = [2, 3] ∧ log.freed = [2, 3] ∧ Reclaimed k log := by
  obtain ⟨⟨k, log⟩, reached, died, freed⟩ := executeRecording_holds .roundrobin
    ⟨[(0, mainName)], [], []⟩ logLife twoJobs
    (P := fun s => s.2.died = [2, 3] ∧ s.2.freed = [2, 3]) (by decide +kernel)
  exact ⟨k, log, reached, died, freed,
    (pages_reclaimed .roundrobin k log reached).1.mpr fun no => by cases no⟩

/-- The same run under SJF: the second thread is dead, is not a record, and keeps its page. -/
theorem pages_reclaimed_sjf : ∃ k log, Reachable (lifeRun .sjf) (k, log) ∧
    log.died = [2, 3] ∧ log.freed = [] ∧ k.allAllList = [0, 1, 2] ∧ k.allocated 3 = true ∧
    ¬ k.Live 3 ∧ ¬ Reclaimed k log := by
  obtain ⟨⟨k, log⟩, reached, died, freed, records, used, dead, initial⟩ :=
    executeRecording_holds .sjf ⟨[(0, mainName)], [], []⟩ logLife twoJobs (P := fun s =>
      s.2.died = [2, 3] ∧ s.2.freed = [] ∧ s.1.allAllList = [0, 1, 2] ∧
        s.1.allocated 3 = true ∧ ¬ s.1.Live 3 ∧ 3 ≠ s.1.initialThread)
    (by decide +kernel)
  refine ⟨k, log, reached, died, freed, records, used, dead, fun reclaimed => ?_⟩
  rcases reclaimed.owned 3 initial used with alive | ⟨_, record⟩
  · exact dead alive
  · rw [show k.allAllList = [0, 1, 2] from records] at record
    simp at record

end
end Calendarizador.Guarantees
