import Calendarizador.Invariant.Counting

/-!
# Burst estimates

Under SJF the estimate of a name lives in one thread, its record: the first thread
created under that name, alive or dead. `Indexed` says that every record is found under
its own name, and `Estimated` that every live thread has a record and carries its
estimate. The lookup loop of `thread_exit` then copies estimates from records and writes
no record itself.
-/
namespace Calendarizador.Source
open Foundation List

/-- Every record is the one found under its name. -/
def Indexed (k : Kernel) : Prop :=
  ∀ r ∈ k.allAllList, recordOf k (k.thread r).name = some r

structure Estimated (k : Kernel) : Prop where
  indexed : Indexed k
  named : ∀ p, k.Live p → recordOf k (k.thread p).name ≠ none
  current : ∀ p, k.Live p → (k.thread p).totalExec = estimate k (k.thread p).name

section
variable {k after : Kernel} {name : Name} {t : Page}

theorem recordOf_mem {r : Page} (found : recordOf k name = some r) :
    r ∈ k.allAllList ∧ (k.thread r).name = name :=
  ⟨mem_of_find?_eq_some found, by simpa using List.find?_some found⟩

theorem estimate_of_record {r : Page} (found : recordOf k name = some r) :
    estimate k name = (k.thread r).totalExec := by simp [estimate, found]

/-- One round of the loop: the thread takes the estimate of its name. -/
theorem storeTotalExec_round (indexed : Indexed k) (named : recordOf k (k.thread t).name ≠ none) :
    (storeTotalExec k t).allAllList = k.allAllList ∧
    (∀ p, ((storeTotalExec k t).thread p).name = (k.thread p).name) ∧
    (∀ p, ((storeTotalExec k t).thread p).totalExec =
      if p = t then estimate k (k.thread t).name else (k.thread p).totalExec) ∧
    ∀ name, estimate (storeTotalExec k t) name = estimate k name := by
  have list : (storeTotalExec k t).allAllList = k.allAllList := by
    rw [storeTotalExec, Kernel.upd_allAllList, getTotalExec_snd, if_neg named]
  have thread := storeTotalExec_thread k t
  rw [getTotalExec_fst] at thread
  have names : ∀ p, ((storeTotalExec k t).thread p).name = (k.thread p).name := by
    intro p
    rw [thread]
    split
    · rename_i here
      rw [here]
      rfl
    · rfl
  have exec : ∀ p, ((storeTotalExec k t).thread p).totalExec =
      if p = t then estimate k (k.thread t).name else (k.thread p).totalExec := by
    intro p
    rw [thread]
    split <;> rfl
  refine ⟨list, names, exec,
    fun name => estimate_congr list (fun r _ => names r) fun r member => ?_⟩
  rw [exec]
  split
  · rename_i here
    subst here
    exact estimate_of_record (indexed r member)
  · rfl

/-- The whole loop. -/
theorem storeTotalExec_loop (list : List Page) (indexed : Indexed k)
    (named : ∀ p ∈ list, recordOf k (k.thread p).name ≠ none) :
    (list.foldl storeTotalExec k).allAllList = k.allAllList ∧
    (∀ p, ((list.foldl storeTotalExec k).thread p).name = (k.thread p).name) ∧
    (∀ p, ((list.foldl storeTotalExec k).thread p).totalExec =
      if p ∈ list then estimate k (k.thread p).name else (k.thread p).totalExec) ∧
    ∀ name, estimate (list.foldl storeTotalExec k) name = estimate k name := by
  induction list generalizing k with
  | nil => exact ⟨rfl, fun _ => rfl, fun _ => by simp, fun _ => rfl⟩
  | cons t rest ih =>
    obtain ⟨records, names, exec, estimates⟩ :=
      storeTotalExec_round indexed (named t mem_cons_self)
    have lookup : ∀ name, recordOf (storeTotalExec k t) name = recordOf k name :=
      fun name => recordOf_congr records fun r _ => names r
    have indexed' : Indexed (storeTotalExec k t) := by
      intro r member
      rw [names, lookup]
      exact indexed r (records ▸ member)
    obtain ⟨records', names', exec', estimates'⟩ := ih indexed' fun p member => by
      rw [names, lookup]
      exact named p (mem_cons_of_mem t member)
    refine ⟨records'.trans records, fun p => (names' p).trans (names p), fun p => ?_,
      fun name => (estimates' name).trans (estimates name)⟩
    rw [foldl_cons, exec', names, estimates, exec]
    by_cases here : p = t
    · subst here
      simp
    · simp [here]

theorem learnBurst_eq (k : Kernel) : learnBurst k = .ok (k.allList.foldl storeTotalExec
    (calcNewTotalExec k (k.thread k.current).totalExec (k.thread k.current).currExec)) :=
  foldlM_pure

/-- The loop of `thread_exit` starts from the new estimate of the exiting thread and writes
neither a record nor a name. -/
theorem learnBurst_loop (h : Inv k) (estimated : Estimated k) (learned : learnBurst k = .ok after) :
    after.allAllList = k.allAllList ∧
    (∀ p, (after.thread p).name = (k.thread p).name) ∧
    (∀ p, k.Live p → (after.thread p).totalExec = estimate after (k.thread p).name) ∧
    ∀ name, estimate after name =
      if recordOf k name = some k.current then
        newTotalExec (k.thread k.current).totalExec (k.thread k.current).currExec
      else estimate k name := by
  rw [learnBurst_eq, Except.ok.injEq] at learned
  obtain ⟨written, made⟩ : ∃ written, written =
    calcNewTotalExec k (k.thread k.current).totalExec (k.thread k.current).currExec := ⟨_, rfl⟩
  rw [← made] at learned
  have names : ∀ p, (written.thread p).name = (k.thread p).name := by
    rw [made]
    exact Kernel.keeps_upd (fun t => t.name) k k.current _ fun _ => rfl
  have records : written.allAllList = k.allAllList := by rw [made]; rfl
  have lookup : ∀ name, recordOf written name = recordOf k name :=
    fun name => recordOf_congr records fun r _ => names r
  have indexed : Indexed written := by
    intro r member
    rw [names, lookup]
    exact estimated.indexed r (records ▸ member)
  have value : ∀ name, estimate written name =
      if recordOf k name = some k.current then
        newTotalExec (k.thread k.current).totalExec (k.thread k.current).currExec
      else estimate k name := by
    intro name
    unfold estimate
    rw [lookup]
    cases found : recordOf k name with
    | none => simp
    | some r =>
      by_cases here : r = k.current
      · subst here
        simp [made, calcNewTotalExec]
      · simp [made, calcNewTotalExec, here]
  obtain ⟨records', names', exec, estimates⟩ :=
    storeTotalExec_loop k.allList indexed fun p member => by
      rw [names, lookup]
      exact estimated.named p ((h.core.threads p).all.mp member)
  rw [learned] at records' names' exec estimates
  refine ⟨records'.trans records, fun p => (names' p).trans (names p), fun p alive => ?_,
    fun name => (estimates name).trans (value name)⟩
  rw [exec, if_pos ((h.core.threads p).all.mpr alive), names, estimates]

/-- What `thread_exit` learns: the estimate of the exiting thread's name changes only if
that thread is its record, and then to the new value; no other estimate changes. -/
theorem learnBurst_estimate (h : Inv k) (sjf : k.mode = .sjf) (estimated : Estimated k)
    (learned : learnBurst k = .ok after) : (∀ name, estimate after name =
      if recordOf k name = some k.current then
        newTotalExec (k.thread k.current).totalExec (k.thread k.current).currExec
      else estimate k name) ∧ Estimated after := by
  have live := (learnBurst_accounting sjf learned).live
  obtain ⟨records, names, exec, estimates⟩ := learnBurst_loop h estimated learned
  have lookup : ∀ name, recordOf after name = recordOf k name :=
    fun name => recordOf_congr records fun r _ => names r
  refine ⟨estimates, ?_, ?_, ?_⟩
  · intro r member
    rw [lookup, names]
    exact estimated.indexed r (records ▸ member)
  · intro p alive
    rw [lookup, names]
    exact estimated.named p ((live p).mp alive)
  · intro p alive
    rw [names]
    exact exec p ((live p).mp alive)

/-- Events that create nobody and learn nothing keep the estimates. -/
theorem Estimated.keep (h : Estimated k) (live : ∀ p, after.Live p → k.Live p)
    (records : after.allAllList = k.allAllList)
    (kept : Kernel.Keeps (fun t => (t.name, t.totalExec)) k after) : Estimated after := by
  have names : ∀ p, (after.thread p).name = (k.thread p).name :=
    fun p => congrArg (fun s => s.1) (kept p)
  have exec : ∀ p, (after.thread p).totalExec = (k.thread p).totalExec :=
    fun p => congrArg (fun s => s.2) (kept p)
  have lookup : ∀ name, recordOf after name = recordOf k name :=
    fun name => recordOf_congr records fun r _ => names r
  have value : ∀ name, estimate after name = estimate k name :=
    fun name => estimate_congr records (fun r _ => names r) fun r _ => exec r
  constructor
  · intro r member
    rw [names, lookup]
    exact h.indexed r (records ▸ member)
  · intro p alive
    rw [names, lookup]
    exact h.named p (live p alive)
  · intro p alive
    rw [names, exec, value]
    exact h.current p (live p alive)

/-- The lookup after a record was appended. -/
theorem recordOf_append (records : after.allAllList = k.allAllList ++ [t])
    (names : ∀ r ∈ k.allAllList, (after.thread r).name = (k.thread r).name) (name : Name) :
    recordOf after name =
      (recordOf k name).or (if (after.thread t).name = name then some t else none) := by
  have old : recordOf { after with allAllList := k.allAllList } name = recordOf k name :=
    recordOf_congr rfl names
  rw [← old, recordOf, recordOf, records, List.find?_append, List.find?_singleton]
  simp

/-- A new thread takes the estimate of its name, or becomes the record of a new one. -/
theorem Estimated.born (h : Estimated k) (sjf : k.mode = .sjf)
    (used : ∀ r ∈ k.allAllList, k.allocated r = true) (live : ∀ p, p ≠ t → after.Live p → k.Live p)
    (born : Born k t name after) : Estimated after := by
  have notRecord : ∀ r ∈ k.allAllList, r ≠ t := by
    rintro r member rfl
    have busy := used r member
    rw [born.free] at busy
    cases busy
  have names : ∀ p, p ≠ t → (after.thread p).name = (k.thread p).name :=
    fun p other => congrArg (fun s => s.1) (born.kept p other)
  have exec : ∀ p, p ≠ t → (after.thread p).totalExec = (k.thread p).totalExec :=
    fun p other => congrArg (fun s => s.2.2.2.2.2.1) (born.kept p other)
  have named : (after.thread t).name = name := congrArg (fun s => s.1) born.fresh
  have first : (after.thread t).totalExec = estimate k name := by
    have fresh := congrArg (fun s => s.2.2.2.2.2.1) born.fresh
    rwa [if_pos sjf] at fresh
  have oldNames : ∀ r ∈ k.allAllList, (after.thread r).name = (k.thread r).name :=
    fun r member => names r (notRecord r member)
  -- lookups that succeeded before give the same record, and the new name is found now
  have lookup : (∀ n r, recordOf k n = some r → recordOf after n = some r) ∧
      (recordOf k name = none → recordOf after name = some t) ∧
      ∀ r ∈ after.allAllList, r ∈ k.allAllList ∨ (r = t ∧ recordOf after name = some t) := by
    have records := born.allAllList
    cases found : recordOf k name with
    | some r =>
      rw [if_neg (by simp [found])] at records
      have same : ∀ n, recordOf after n = recordOf k n := fun n => recordOf_congr records oldNames
      exact ⟨fun n r old => (same n).trans old, fun missing => (by cases missing),
        fun r member => .inl (records ▸ member)⟩
    | none =>
      rw [if_pos ⟨sjf, found⟩] at records
      have grown := recordOf_append records oldNames
      have new : recordOf after name = some t := by rw [grown, found, named]; simp
      refine ⟨fun n r old => by rw [grown, old]; simp, fun _ => new, fun r member => ?_⟩
      rw [records, mem_append, mem_singleton] at member
      exact member.imp id fun here => ⟨here, new⟩
  obtain ⟨old, found, members⟩ := lookup
  have value : ∀ n, recordOf k n ≠ none → estimate after n = estimate k n := by
    intro n known
    obtain ⟨r, record⟩ := Option.ne_none_iff_exists'.mp known
    rw [estimate_of_record record, estimate_of_record (old n r record),
      exec r (notRecord r (recordOf_mem record).1)]
  constructor
  · intro r member
    rcases members r member with before | ⟨rfl, new⟩
    · rw [oldNames r before]
      exact old _ r (h.indexed r before)
    · rw [named]
      exact new
  · intro p alive
    by_cases here : p = t
    · rw [here, named]
      cases known : recordOf k name with
      | none => simp [found known]
      | some r => simp [old name r known]
    · rw [names p here]
      obtain ⟨r, record⟩ := Option.ne_none_iff_exists'.mp (h.named p (live p here alive))
      rw [old _ r record]
      simp
  · intro p alive
    by_cases here : p = t
    · subst here
      rw [named]
      by_cases known : recordOf k name = none
      · rw [estimate_of_record (found known)]
      · rw [first, value name known]
    · have known := h.named p (live p here alive)
      rw [exec p here, names p here, value _ known]
      exact h.current p (live p here alive)

/-- Under SJF a tick counts the burst and touches no estimate. -/
theorem threadTick_sjf (sjf : k.mode = .sjf) (taken : threadTick k = .ok after) :
    Kernel.Keeps (fun t => (t.name, t.totalExec)) k after ∧ after.allAllList = k.allAllList := by
  simp only [threadTick, sjf, Except.ok.injEq] at taken
  subst taken
  exact ⟨Kernel.keeps_upd (fun t => (t.name, t.totalExec)) (countTick k) _ _ fun _ => rfl, rfl⟩

theorem intrHandler_sjf (sjf : k.mode = .sjf) {outcome : Outcome}
    (taken : intrHandler k = .ok outcome) :
    Kernel.Keeps (fun t => (t.name, t.totalExec)) k outcome.kernel ∧
      outcome.kernel.allAllList = k.allAllList := by
  unfold intrHandler timerInterrupt at taken
  rw [bind_eq_ok] at taken
  obtain ⟨handled, interrupted, taken⟩ := taken
  rw [bind_eq_ok] at interrupted
  obtain ⟨counted, tick, woke⟩ := interrupted
  obtain ⟨same, old⟩ := threadTick_sjf (by exact sjf) tick
  obtain ⟨kept, _, records, _⟩ := wakeSleepers_keeps (fun t => (t.name, t.totalExec)) {} _ woke
  have ticked : Kernel.Keeps (fun t => (t.name, t.totalExec)) k handled := same.trans kept
  have listed : handled.allAllList = k.allAllList := records.trans old
  cases taken
  split
  · have calm := threadYield_calm handled
    exact ⟨ticked.trans fun p => congrArg (fun s => (s.1, s.2.2.2.2.2.1)) (calm.kept p),
      calm.allAllList.trans listed⟩
  · exact ⟨ticked, listed⟩

theorem opBody_estimated (h : Inv k) (sjf : k.mode = .sjf) (estimated : Estimated k) {e : Event}
    (enabled : e.enabled k = true) {outcome : Outcome} (taken : opBody k e = .ok outcome) :
    Estimated outcome.kernel := by
  have good := (opBody_inv h e enabled taken).core
  have live := live_of_allList h.core good
  rcases opBody_effects h enabled taken with ⟨_, _, calm⟩ | ⟨t, name, _, born⟩ |
    ⟨rfl, rep, seen, code, exits⟩ | ⟨n, rfl, _, rfl⟩ | ⟨rfl, handled⟩
  · exact estimated.keep (live (by rw [calm.allList]; exact fun _ => id)) calm.allAllList
      fun p => congrArg (fun s => (s.1, s.2.2.2.2.2.1)) (calm.kept p)
  · refine estimated.born sjf (fun r member => ((h.core.threads r).record member).1)
      (fun p apart alive => ?_) born
    have member := (good.threads p).all.mpr alive
    rw [born.allList, mem_append, mem_singleton] at member
    exact (h.core.threads p).all.mp (member.resolve_right apart)
  · obtain ⟨learned, total, learning, rfl⟩ := threadExit_effects exits
    have accounts := learnAtExit_accounting learning
    rw [learnAtExit, if_pos sjf, map_eq_ok] at learning
    obtain ⟨burst, loop, rfl⟩ := learning
    have kept := (learnBurst_estimate h sjf estimated loop).2
    refine kept.keep (fun p alive => ?_) rfl ?_
    · obtain ⟨used, notDying⟩ := alive
      refine ⟨used, fun dying => notDying ?_⟩
      by_cases here : p = burst.current
      · simp [Outcome.kernel, sortReadyByDuration, here]
      · simpa [Outcome.kernel, sortReadyByDuration, here] using dying
    · exact Kernel.keeps_upd (fun t => (t.name, t.totalExec)) _ _ _ fun _ => rfl
  · have globals := blockOn_globals (enterWaitList k n) (.timer k.current)
    refine estimated.keep (live ?_) globals.allAllList ?_
    · exact (globals.allList ▸ fun _ => id)
    · exact opBody_keeps _ {} (fun _ _ => rfl) rfl taken
  · obtain ⟨kept, records⟩ := intrHandler_sjf sjf handled
    obtain ⟨_, lists⟩ := intrHandler_keeps Thread.stack {} handled
    exact estimated.keep (live (by rw [lists.allList]; exact fun _ => id)) records kept

theorem Estimated.schedule (h : Estimated k) (core : Core k) (taken : schedule k = .ok after) :
    Estimated after := by
  obtain ⟨_, next, rest, picked, rfl⟩ := schedule_effects taken
  have alive : k.Live next := core.picked_live picked
  have popped : Estimated { k with readyList := rest } := ⟨h.indexed, h.named, h.current⟩
  refine popped.keep (fun p => (dispatch_live (k := { k with readyList := rest }) alive p).mp) ?_ ?_
  · exact dispatch_allAllList _ _
  · exact dispatch_keeps _ _ (fun t => (t.name, t.totalExec)) {}

theorem step_estimated (h : Inv k) (sjf : k.mode = .sjf) (estimated : Estimated k) {e : Event}
    (taken : step k e = .ok after) : Estimated after := by
  obtain ⟨enabled, body | ⟨ready, body, switched⟩⟩ := step_effects taken
  · exact opBody_estimated h sjf estimated enabled body
  · exact (opBody_estimated h sjf estimated enabled body).schedule (opBody_inv h e enabled body)
      switched

theorem reachable_estimated (h : Reachable (kernelSystem .sjf) k) : Estimated k := by
  refine h.invariant ?_ ?_
  · rintro s ⟨values, booted⟩
    have facts := threadInit_booted booted
    have records : s.allAllList = [0] := by rw [facts.records, if_pos rfl]
    have found : recordOf s (s.thread 0).name = some 0 := by simp [recordOf, records]
    refine ⟨?_, ?_, ?_⟩
    · intro r member
      rw [records, mem_singleton] at member
      rw [member]
      exact found
    · intro p alive
      rw [facts.live p alive, found]
      simp
    · intro p alive
      rw [facts.live p alive, estimate_of_record found]
  · intro s e after reached before taken
    exact step_estimated (reachable_inv reached) (reachable_mode reached) before taken

end
end Calendarizador.Source
