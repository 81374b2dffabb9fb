import Calendarizador.Invariant.Arrivals
import Calendarizador.Invariant.Records

/-!
# The records of SJF

`all_all_list` holds one thread for each name that was ever used: the first thread created
under it, which stays there when it exits. `LifeLog` records the creations of a run, the
exits and the calls of `palloc_free_page`, so that the list can be compared with what
happened.
-/
namespace Calendarizador.Guarantees
open Foundation Source List

/-- Threads created, with the names `init_thread` stored, in order; threads that exited; and
pages that were freed. -/
structure LifeLog where
  created : List (Page × Name)
  died : List Page
  freed : List Page
  deriving DecidableEq, Repr

/-- The thread that exits in an event. -/
def dies (k : Kernel) : Event → List Page
  | .exitFinish => [k.current]
  | _ => []

/-- The calls of `palloc_free_page` in a step. -/
def frees (k : Kernel) (e : Event) (after : Kernel) : List Page :=
  match schedulesFrom k e with
  | some ready => freedBy ready after.current
  | none => []

def logLife (k : Kernel) (e : Event) (after : Kernel) (log : LifeLog) : LifeLog where
  created := log.created ++ e.creates.toList
  died := log.died ++ dies k e
  freed := log.freed ++ frees k e after

/-- The kernel with the record of its threads, of which `main` is the first. -/
def lifeRun (mode : Mode) : System (Kernel × LifeLog) Event Fault :=
  (kernelSystem mode).recording ⟨[(0, mainName)], [], []⟩ logLife

/-- The first thread created under a name. -/
def LifeLog.first (log : LifeLog) (name : Name) : Option Page :=
  (log.created.find? fun c => c.2 = name).map Prod.fst

/-- How the records and the creations of a run correspond. -/
structure Recorded (k : Kernel) (log : LifeLog) : Prop where
  nodup : k.allAllList.Nodup
  used : ∀ c ∈ log.created, k.allocated c.1 = true ∧ (k.thread c.1).name = c.2
  lookup : ∀ name, recordOf k name = log.first name
  freed : log.freed = []

section
variable {k ready after : Kernel} {e : Event} {log : LifeLog}

theorem first_append (log : LifeLog) (more : List (Page × Name)) (died freed : List Page)
    (name : Name) : LifeLog.first ⟨log.created ++ more, died, freed⟩ name =
      (log.first name).or ((more.find? fun c => c.2 = name).map Prod.fst) := by
  simp only [LifeLog.first, List.find?_append]
  cases log.created.find? fun c => c.2 = name <;> rfl

/-- The lookup after an event sees the thread it created if its name is new. -/
theorem recordOf_after {middle : Kernel}
    (records : middle.allAllList = k.allAllList ++ newRecords k e)
    (names : ∀ r ∈ k.allAllList, (middle.thread r).name = (k.thread r).name)
    (named : ∀ t name, e.creates = some (t, name) → (middle.thread t).name = name) (name : Name) :
    recordOf middle name =
      (recordOf k name).or ((e.creates.toList.find? fun c => c.2 = name).map Prod.fst) := by
  unfold newRecords at records
  split at records
  · rename_i t stored creates
    have fresh := named t stored creates
    rw [creates]
    split at records
    · rw [recordOf_append records names, fresh, Option.toList_some, List.find?_singleton]
      by_cases same : stored = name <;> simp [same]
    · rename_i known
      rw [append_nil] at records
      rw [recordOf_congr records names, Option.toList_some, List.find?_singleton]
      by_cases same : stored = name
      · obtain ⟨r, found⟩ := Option.ne_none_iff_exists'.mp known
        rw [← same, found]
        rfl
      · simp [same]
  · rename_i none
    rw [append_nil] at records
    rw [recordOf_congr records names, none]
    simp

theorem Recorded.opBody (h : Inv k) (sjf : k.mode = .sjf) (estimated : Estimated k)
    (recorded : Recorded k log) (enabled : e.enabled k = true) {outcome : Outcome}
    (taken : Source.opBody k e = .ok outcome) :
    Recorded outcome.kernel ⟨log.created ++ e.creates.toList, [], []⟩ := by
  have records := opBody_records h sjf estimated enabled taken
  have allocated := opBody_allocated h enabled taken
  have busy : ∀ r ∈ k.allAllList, k.allocated r = true :=
    fun r member => ((h.core.threads r).record member).1
  constructor
  · rw [records]
    refine recorded.nodup.append ?_ fun r old new => ?_
    · unfold newRecords
      split
      · split
        · exact nodup_singleton _
        · exact nodup_nil
      · exact nodup_nil
    · unfold newRecords at new
      split at new
      · rename_i t name creates
        split at new
        · rw [mem_singleton] at new
          subst new
          exact created_fresh h enabled taken (busy r old) creates
        · cases new
      · cases new
  · intro c member
    rw [mem_append, Option.mem_toList] at member
    rcases member with old | creates
    · obtain ⟨used, named⟩ := recorded.used c old
      exact ⟨(allocated c.1).mpr (.inl used), (opBody_name taken used).trans named⟩
    · exact ⟨(allocated c.1).mpr (.inr (by rw [creates]; rfl)),
        opBody_newName h enabled taken creates⟩
  · intro name
    rw [first_append, ← recorded.lookup]
    exact recordOf_after records (fun r member => opBody_name taken (busy r member))
      (fun t name => opBody_newName h enabled taken) name
  · rfl

theorem freedBy_sjf (sjf : ready.mode = .sjf) (next : Page) : freedBy ready next = [] :=
  if_neg fun freed => freed.2.2.2 sjf

/-- Under SJF `schedule` keeps the records and all pages. -/
theorem Recorded.schedule (recorded : Recorded k log) (sjf : k.mode = .sjf)
    (taken : Source.schedule k = .ok after) : Recorded after log := by
  have pages : ∀ p, k.allocated p = true → after.allocated p = true := by
    intro p used
    rw [schedule_allocated taken, freedBy_sjf sjf]
    exact ⟨used, not_mem_nil⟩
  obtain ⟨_, next, rest, _, rfl⟩ := schedule_effects taken
  have names : ∀ p, ((dispatch { k with readyList := rest } next).thread p).name =
      (k.thread p).name := dispatch_keeps _ next (fun t => t.name) {}
  have records : (dispatch { k with readyList := rest } next).allAllList = k.allAllList :=
    dispatch_allAllList _ _
  refine ⟨by rw [records]; exact recorded.nodup, fun c member => ?_, fun name => ?_,
    recorded.freed⟩
  · obtain ⟨used, named⟩ := recorded.used c member
    exact ⟨pages c.1 used, (names c.1).trans named⟩
  · rw [recordOf_congr records fun r _ => names r, recorded.lookup]

theorem Recorded.step (h : Inv k) (sjf : k.mode = .sjf) (estimated : Estimated k)
    (recorded : Recorded k log) (taken : Source.step k e = .ok after) :
    Recorded after (logLife k e after log) := by
  obtain ⟨enabled, body | ⟨ready, body, scheduled⟩⟩ := step_effects taken
  · have done : Recorded after ⟨log.created ++ e.creates.toList, [], []⟩ :=
      recorded.opBody h sjf estimated enabled body
    refine ⟨done.nodup, done.used, done.lookup, ?_⟩
    simp [logLife, frees, schedulesFrom, body, recorded.freed]
  · have mode : ready.mode = .sjf := (opBody_mode h enabled body).trans sjf
    have middle : Recorded ready ⟨log.created ++ e.creates.toList, [], []⟩ :=
      recorded.opBody h sjf estimated enabled body
    have done := middle.schedule mode scheduled
    refine ⟨done.nodup, done.used, done.lookup, ?_⟩
    simp [logLife, frees, schedulesFrom, body, recorded.freed, freedBy_sjf mode]

theorem reachable_recorded (h : Reachable (lifeRun .sjf) (k, log)) :
    Reachable (kernelSystem .sjf) k ∧ Recorded k log := by
  refine Reachable.recorded ?_ ?_ h
  · rintro s ⟨values, booted⟩
    have facts := threadInit_booted booted
    have inv := threadInit_inv booted
    have records : s.allAllList = [0] := by rw [facts.records, if_pos rfl]
    have named : (s.thread 0).name = mainName := congrArg Prod.fst facts.kept
    refine ⟨by simp [records], fun c member => ?_, fun name => ?_, rfl⟩
    · rw [mem_singleton] at member
      subst member
      exact ⟨facts.initialThread ▸ inv.core.initial_allocated, named⟩
    · simp [recordOf, records, LifeLog.first, List.find?_singleton, named]
  · intro s log e after reached recorded taken
    exact recorded.step (reachable_inv reached) (reachable_mode reached)
      (reachable_estimated reached) taken

theorem records_nodup (indexed : Indexed k) (nodup : k.allAllList.Nodup) :
    (k.allAllList.map fun p => (k.thread p).name).Nodup := by
  refine List.Nodup.map_on (fun r left s right same => ?_) nodup
  have found := indexed r left
  rw [same, indexed s right] at found
  exact (Option.some.inj found).symm

/-- Records stay, and so do all pages. -/
theorem sjf_keeps (h : Inv k) (sjf : k.mode = .sjf) (estimated : Estimated k)
    (taken : step k e = .ok after) :
    k.allAllList <+: after.allAllList ∧ ∀ p, k.allocated p = true → after.allocated p = true := by
  obtain ⟨enabled, body | ⟨ready, body, scheduled⟩⟩ := step_effects taken
  · have records : after.allAllList = k.allAllList ++ newRecords k e :=
      opBody_records h sjf estimated enabled body
    exact ⟨⟨newRecords k e, records.symm⟩,
      fun p used => (opBody_allocated h enabled body p).mpr (.inl used)⟩
  · have mode : ready.mode = .sjf := (opBody_mode h enabled body).trans sjf
    have records : ready.allAllList = k.allAllList ++ newRecords k e :=
      opBody_records h sjf estimated enabled body
    have same : after.allAllList = ready.allAllList := by
      obtain ⟨_, next, rest, _, rfl⟩ := schedule_effects scheduled
      exact dispatch_allAllList _ _
    refine ⟨⟨newRecords k e, (same.trans records).symm⟩, fun p used => ?_⟩
    rw [schedule_allocated scheduled, freedBy_sjf mode]
    exact ⟨(opBody_allocated h enabled body p).mpr (.inl used), not_mem_nil⟩

/-- The history list of SJF: names on it are distinct, every thread ever created has its
name there, the record of a name is the first thread created under it, records are never
removed and no page is freed, and a lookup for a name on the list does not change the
kernel. -/
theorem one_record_per_name (h : Reachable (lifeRun .sjf) (k, log)) :
    (k.allAllList.map fun p => (k.thread p).name).Nodup ∧
    (∀ c ∈ log.created, (k.thread c.1).name = c.2 ∧ ∃ r ∈ k.allAllList, (k.thread r).name = c.2) ∧
    (∀ r ∈ k.allAllList, log.first (k.thread r).name = some r) ∧
    (∀ e after, step k e = .ok after → k.allAllList <+: after.allAllList ∧
      ∀ p, k.allocated p = true → after.allocated p = true) ∧
    (log.freed = [] ∧ ∀ r ∈ k.allAllList, k.allocated r = true) ∧
    ∀ t, (∃ r ∈ k.allAllList, (k.thread r).name = (k.thread t).name) →
      (getTotalExec k t).2 = k := by
  obtain ⟨reached, recorded⟩ := reachable_recorded h
  have inv := reachable_inv reached
  have estimated := reachable_estimated reached
  refine ⟨records_nodup estimated.indexed recorded.nodup, fun c member => ?_, fun r member => ?_,
    fun e after => sjf_keeps inv (reachable_mode reached) estimated, ⟨recorded.freed, ?_⟩, ?_⟩
  · refine ⟨(recorded.used c member).2, ?_⟩
    cases found : recordOf k c.2 with
    | some r => exact ⟨r, recordOf_mem found⟩
    | none =>
      rw [recorded.lookup, LifeLog.first, Option.map_eq_none_iff, List.find?_eq_none] at found
      exact absurd (decide_eq_true rfl) (found c member)
  · rw [← recorded.lookup]
    exact estimated.indexed r member
  · exact fun r member => ((inv.core.threads r).record member).1
  · rintro t ⟨r, member, same⟩
    have known : recordOf k (k.thread t).name ≠ none := by
      rw [← same, estimated.indexed r member]
      simp
    rw [getTotalExec_snd, if_neg known]

/-- Three threads, two of them named `a`; the first of these has exited. -/
theorem one_record_per_name_reuse : ∃ k log, Reachable (lifeRun .sjf) (k, log) ∧
    log.created = [(0, mainName), (1, idleName), (2, ['a']), (3, ['a'])] ∧ log.died = [2] ∧
    k.allAllList = [0, 1, 2] ∧ (∃ r ∈ k.allAllList, (k.thread r).name = ['a']) ∧
    log.first (k.thread 2).name = some 2 := by
  obtain ⟨⟨k, log⟩, reached, created, died, records⟩ := executeRecording_holds .sjf
    ⟨[(0, mainName)], [], []⟩ logLife (threadStart ++
      [.create (some 2) ['a'] 0, .unblock 2, .block, .yield, .exit, .exitFinish, .unblock 0,
        .idleBlock, .create (some 3) ['a'] 0]) (P := fun s =>
      s.2.created = [(0, mainName), (1, idleName), (2, ['a']), (3, ['a'])] ∧ s.2.died = [2] ∧
        s.1.allAllList = [0, 1, 2]) (by decide +kernel)
  dsimp only at created records
  obtain ⟨_, named, first, _⟩ := one_record_per_name reached
  exact ⟨k, log, reached, created, died, records, (named (3, ['a']) (by simp [created])).2,
    first 2 (by simp [records])⟩

end
end Calendarizador.Guarantees
