import Calendarizador.Invariant.Control
import Calendarizador.Invariant.Printing
import Calendarizador.Source.Benchmark

/-!
# The divisor of the benchmark's average

`schedule` stores the length of the ready list once, when a thread returns into it whose
variable `next` is an ordinary thread. The thread that returns is not on the list, and threads
that sleep or have exited are not either. So the number stored is the number of threads created
exactly if at that switch all of them and `main` are awake and it is not the idle thread
that returns.
-/
namespace Calendarizador.Guarantees
open Foundation Source List

/-- Nobody but the idle thread sleeps or waits, it is not running, and besides it and `main`
there are `created` threads. -/
structure AllAwake (k : Kernel) (created : Nat) : Prop where
  busy : k.idleThread ≠ some k.current
  everyone : k.allList.length = created + 2
  awake : ∀ p ∈ k.allList, k.idleThread = some p ∨ k.status p = .ready ∨ k.status p = .running

section
variable {k after : Kernel}

/-- The threads that are on the ready list, run or idle are different threads. -/
theorem busy_nodup (h : Inv k) {idle : Page} (set : k.idleThread = some idle)
    (busy : k.idleThread ≠ some k.current) : (idle :: k.current :: k.readyList).Nodup ∧
      idle :: k.current :: k.readyList ⊆ k.allList := by
  have notReady : k.current ∉ k.readyList := by
    intro member
    have ready := ((h.core.threads k.current).ready.mp member).2.1
    rw [h.running] at ready
    cases ready
  have idleOut : idle ∉ k.current :: k.readyList := by
    intro member
    rcases mem_cons.mp member with same | inside
    · exact busy (same ▸ set)
    · exact ((h.core.threads idle).ready.mp inside).2.2 set
  refine ⟨nodup_cons.mpr ⟨idleOut, nodup_cons.mpr ⟨notReady, h.core.ready_nodup⟩⟩, ?_⟩
  intro p member
  refine (h.core.threads p).all.mpr ?_
  rcases mem_cons.mp member with rfl | member
  · exact ((h.core.threads p).idle.mp set).1
  · rcases mem_cons.mp member with rfl | member
    · exact h.live
    · exact ((h.core.threads p).ready.mp member).1

/-- The ready list is as long as it can be exactly if everybody is awake. -/
theorem ready_length (h : Inv k) (set : k.idleThread.isSome = true)
    (busy : k.idleThread ≠ some k.current) : k.readyList.length + 2 ≤ k.allList.length ∧
      (k.readyList.length + 2 = k.allList.length ↔
        ∀ p ∈ k.allList, k.idleThread = some p ∨ k.status p = .ready ∨ k.status p = .running) := by
  obtain ⟨idle, set⟩ := Option.isSome_iff_exists.mp set
  obtain ⟨nodup, subset⟩ := busy_nodup h set busy
  have inside := subperm_of_subset nodup subset
  have short := inside.length_le
  simp only [length_cons] at short
  refine ⟨short, fun full p member => ?_, fun awake => ?_⟩
  · have all : (idle :: k.current :: k.readyList).Perm k.allList :=
      inside.perm_of_length_le (by simp only [length_cons]; omega)
    rcases mem_cons.mp (all.mem_iff.mpr member) with rfl | member
    · exact .inl set
    · rcases mem_cons.mp member with rfl | member
      · exact .inr (.inr h.running)
      · exact .inr (.inl ((h.core.threads p).ready.mp member).2.1)
  · have back : k.allList ⊆ idle :: k.current :: k.readyList := by
      intro p member
      have live := (h.core.threads p).all.mp member
      by_cases here : k.idleThread = some p
      · rw [set] at here
        cases here
        exact mem_cons_self
      · rcases (awake p member).resolve_left here with ready | running
        · exact mem_cons_of_mem _ (mem_cons_of_mem _
            ((h.core.threads p).ready.mpr ⟨live, ready, here⟩))
        · rw [(h.core.threads p).running live running]
          exact mem_cons_of_mem _ mem_cons_self
    have long := (subperm_of_subset h.core.all_nodup back).length_le
    simp only [length_cons] at long
    omega

/-- The idle thread is dispatched only if nobody is ready. -/
theorem idle_switch (h : Inv k) {e : Event} (taken : step k e = .ok after)
    (switches : after.table ≠ k.table) (idles : after.idleThread = some after.current) :
    after.readyList = [] := by
  obtain ⟨enabled, body | ⟨ready, body, switched⟩⟩ := step_effects taken
  · exact absurd (opBody_table body) switches
  · obtain ⟨_, next, rest, picked, rfl⟩ := schedule_effects switched
    have core : Core ready := (opBody_inv h e enabled body).core
    rw [dispatch_idleThread, dispatch_current] at idles
    rw [dispatch_readyList]
    rcases picked with front | ⟨_, none_, _⟩
    · have member : next ∈ ready.readyList := by simp [front]
      exact absurd idles ((core.threads next).ready.mp member).2.2
    · exact none_

/-- A step adds at most the thread that it creates. -/
theorem step_allList (h : Inv k) {e : Event} (taken : step k e = .ok after) :
    after.allList.length ≤ k.allList.length + if e.creates.isSome then 1 else 0 := by
  have body_list : ∀ {outcome : Outcome}, e.enabled k = true → opBody k e = .ok outcome →
      outcome.kernel.allList.length ≤ k.allList.length + if e.creates.isSome then 1 else 0 := by
    intro outcome enabled body
    rcases opBody_effects h enabled body with ⟨_, _, calm⟩ | ⟨t, name, some_, born⟩ |
      ⟨rfl, rep, seen, code, exits⟩ | ⟨n, rfl, _, rfl⟩ | ⟨rfl, handled⟩
    · rw [calm.allList]
      exact Nat.le_add_right _ _
    · rw [born.allList, some_]
      simp
    · obtain ⟨learned, total, learning, rfl⟩ := threadExit_effects exits
      have same := learnAtExit_accounting learning
      refine (length_erase_le).trans ?_
      rw [same.allList]
      exact Nat.le_add_right _ _
    · show (blockOn (enterWaitList k n) (.timer k.current)).allList.length ≤ _
      rw [(blockOn_globals (enterWaitList k n) (.timer k.current)).allList]
      exact Nat.le_add_right _ _
    · have lists := (intrHandler_keeps Thread.name {} handled).2
      rw [lists.allList]
      exact Nat.le_add_right _ _
  obtain ⟨enabled, body | ⟨ready, body, switched⟩⟩ := step_effects taken
  · exact body_list enabled body
  · obtain ⟨_, next, rest, _, rfl⟩ := schedule_effects switched
    rw [dispatch_allList]
    exact body_list enabled body

end

variable {mode : Mode} {bounded : Bool} {threadCnt : Nat}
/-- The program counts the threads it creates. -/
theorem follow_created {k : Kernel} {b next : Benchmark} {e : Event}
    (follows : b.follow mode bounded threadCnt k e = some next) :
    next.created = b.created + (if e.creates.isSome then 1 else 0) ∧ next.stored = b.stored := by
  have other : e.creates = none → next.created = b.created ∧ next.stored = b.stored →
      next.created = b.created + (if e.creates.isSome then 1 else 0) ∧ next.stored = b.stored := by
    rintro none_ ⟨created, stored⟩
    rw [none_]
    exact ⟨created, stored⟩
  unfold Benchmark.follow at follows
  split at follows
  iterate 7
    cases follows
    exact other rfl ⟨rfl, rfl⟩
  split at follows
  · unfold Benchmark.mainCall at follows
    split at follows
    · split at follows
      · cases follows
        exact other rfl ⟨rfl, rfl⟩
      · cases follows
    · split at follows
      · split at follows
        · cases follows
          exact other rfl ⟨rfl, rfl⟩
        · cases follows
          exact ⟨rfl, rfl⟩
      · cases follows
    · split at follows
      · cases follows
        exact other rfl ⟨rfl, rfl⟩
      · cases follows
    · split at follows
      · cases follows
        exact other rfl ⟨rfl, rfl⟩
      · cases follows
    · cases follows
  · unfold Benchmark.loadCall at follows
    split at follows
    · split at follows
      · cases follows
        exact other rfl ⟨rfl, rfl⟩
      · cases follows
    · cases follows
      exact other rfl ⟨rfl, rfl⟩
    · cases follows

/-- What holds in every run of the benchmark. -/
structure BenchmarkOk (mode : Mode) (k : Kernel) (b : Benchmark) : Prop where
  reached : Reachable (kernelSystem mode) k
  idle : k.idleThread.isSome = true
  count : k.allList.length ≤ b.created + 2
  waiting : b.stored = none → k.table = (true, 0)
  stored : ∀ s, b.stored = some s → k.table = (false, i32 s.readyList.length) ∧
    Reachable (kernelSystem mode) s ∧ s.idleThread.isSome = true ∧
    s.allList.length ≤ b.created + 2 ∧ (s.idleThread = some s.current → s.readyList = [])

theorem BenchmarkOk.step {k after : Kernel} {b next : Benchmark} {e : Event}
    (h : BenchmarkOk mode k b) (follows : b.follow mode bounded threadCnt k e = some next)
    (taken : Source.step k e = .ok after) : BenchmarkOk mode after (next.watch k after) := by
  have inv := reachable_inv h.reached
  have reached : Reachable (kernelSystem mode) after := h.reached.step e taken
  obtain ⟨created, same⟩ := follow_created follows
  have idle : after.idleThread.isSome = true := by
    obtain ⟨idle, set⟩ := Option.isSome_iff_exists.mp h.idle
    rw [step_idle inv taken set]
    rfl
  have longer := step_allList inv taken
  have count : after.allList.length ≤ next.created + 2 := by
    have old := h.count
    rw [created]
    omega
  have grows : b.created ≤ next.created := by
    rw [created]
    exact Nat.le_add_right _ _
  rcases step_table taken with still | ⟨set, cleared, total⟩
  · -- nothing is stored
    have watched : next.watch k after = next := by
      have flag : after.threadsPrint = k.threadsPrint := congrArg (fun t => t.1) still
      refine if_neg ?_
      rintro ⟨yes, no⟩
      rw [flag, yes] at no
      cases no
    rw [watched]
    refine ⟨reached, idle, count, fun none_ => ?_, fun s some_ => ?_⟩
    · rw [still]
      exact h.waiting (same ▸ none_)
    · obtain ⟨table, reached', idle', count', empty⟩ := h.stored s (same ▸ some_)
      exact ⟨still.trans table, reached', idle', by omega, empty⟩
  · have watched : next.watch k after = { next with stored := some after } :=
      if_pos ⟨set, cleared⟩
    rw [watched]
    refine ⟨reached, idle, count, fun none_ => ?_, fun s some_ => ?_⟩
    · cases none_
    · cases some_
      refine ⟨Prod.ext cleared total, reached, idle, count, idle_switch inv taken ?_⟩
      intro kept
      have flag : after.threadsPrint = k.threadsPrint := congrArg (fun t => t.1) kept
      rw [set, cleared] at flag
      cases flag

theorem reachable_benchmark {s : Kernel × Benchmark}
    (h : Reachable (pruebaSystem mode bounded threadCnt) s) : BenchmarkOk mode s.1 s.2 := by
  refine h.invariant (P := fun s => BenchmarkOk mode s.1 s.2) ?_ ?_
  · rintro ⟨k, b⟩ ⟨reached, _, _, idle, two, print, zero, start⟩
    refine ⟨reached, idle, ?_, fun _ => Prod.ext print zero, fun s some_ => ?_⟩
    · rw [two]
      exact Nat.le_add_left _ _
    · rw [start] at some_
      cases some_
  · rintro ⟨k, b⟩ e ⟨after, later⟩ _ ok taken
    unfold pruebaSystem at taken
    dsimp only at taken
    split at taken
    · cases taken
    · rename_i next follows
      obtain ⟨stepped, moves, ⟨⟩⟩ := bind_eq_ok.mp taken
      exact ok.step follows moves

/-- In every state of every run of `prueba`, so also at its last `printf`: the divisor is the
number of threads created, and not zero, exactly if the number was stored at a switch at
which all of them and `main` were awake. -/
theorem average_well_defined (mode : Mode) (bounded : Bool) (threadCnt : Nat) (k : Kernel)
    (b : Benchmark) (h : Reachable (pruebaSystem mode bounded threadCnt) (k, b)) :
    k.totalReadyThreads ≠ 0 ∧ k.totalReadyThreads = b.created ↔
      b.created ≠ 0 ∧ b.created < 2147483648 ∧
        ∃ s, b.stored = some s ∧ AllAwake s b.created := by
  have ok : BenchmarkOk mode k b := reachable_benchmark h
  cases stored : b.stored with
  | none =>
    have zero : k.totalReadyThreads = 0 := congrArg (fun t => t.2) (ok.waiting stored)
    constructor
    · rintro ⟨nonzero, _⟩
      exact absurd zero nonzero
    · rintro ⟨_, _, s, some_, _⟩
      cases some_
  | some s =>
    obtain ⟨table, reached, idle, count, empty⟩ := ok.stored s stored
    have total : k.totalReadyThreads = i32 s.readyList.length := congrArg (fun t => t.2) table
    have inv := reachable_inv reached
    rw [total]
    by_cases idles : s.idleThread = some s.current
    · -- the idle thread returned, so nobody was ready
      rw [empty idles]
      constructor
      · rintro ⟨nonzero, _⟩
        exact absurd rfl nonzero
      · rintro ⟨_, _, s', same, awake⟩
        cases same
        exact absurd idles awake.busy
    · obtain ⟨short, full⟩ := ready_length inv idle idles
      constructor
      · rintro ⟨nonzero, equal⟩
        have low := i32_bounds s.readyList.length
        have exact_ : i32 s.readyList.length ≤ s.readyList.length := by
          unfold i32
          omega
        have length : s.readyList.length + 2 = s.allList.length := by
          omega
        refine ⟨by omega, by omega, s, rfl, idles, by omega, full.mp length⟩
      · rintro ⟨nonzero, small, s', same, awake⟩
        cases same
        have length := full.mpr awake.awake
        have everyone := awake.everyone
        have value : (s.readyList.length : Int) = b.created := by omega
        rw [value, i32_of_bounds _ (by omega) (by omega)]
        exact ⟨by omega, rfl⟩

/-- A run of `prueba` under FCFS right after boot; the result is `value`. -/
def pruebaRun (threadCnt : Nat) (events : List Event) {β : Type}
    (value : Kernel → Benchmark → β) : Except Fault β := do
  let k ← execute .fcfs threadStart
  let s ← run (pruebaSystem .fcfs false threadCnt) (k, Benchmark.start k.ticks) events
  .ok (value s.1 s.2)

theorem pruebaRun_reachable {events : List Event} {β : Type} {value : Kernel → Benchmark → β}
    {result : β} (ran : pruebaRun threadCnt events value = .ok result) :
    ∃ k b, Reachable (pruebaSystem .fcfs false threadCnt) (k, b) ∧ value k b = result := by
  obtain ⟨k, booted, rest⟩ := bind_eq_ok.mp ran
  obtain ⟨⟨k', b'⟩, executed, ⟨⟩⟩ := bind_eq_ok.mp rest
  have facts : (execute .fcfs threadStart).map (fun k => decide (k.current = k.initialThread ∧
      k.code k.current = .user ∧ k.idleThread.isSome = true ∧ k.allList.length = 2 ∧
      k.threadsPrint = true ∧ k.totalReadyThreads = 0)) = .ok true := by decide +kernel
  rw [booted] at facts
  obtain ⟨current, code, idle, two, print, zero⟩ := of_decide_eq_true (Except.ok.inj facts)
  have first : Reachable (pruebaSystem .fcfs false threadCnt) (k, Benchmark.start k.ticks) :=
    .initial ⟨execute_reachable booted, current, code, idle, two, print, zero, rfl⟩
  exact ⟨k', b', first.run events executed, rfl⟩

/-- One thread that goes to sleep at once wakes together with `main`. -/
def oneThread : List Event :=
  [.setNice (-20), .create (some 2) (loadName false 1 0) 31, .unblock 2, .sleep 100, .sleep 100] ++
    List.replicate 100 .timer ++ [.idleBlock, .semaRetry]

/-- With one thread the average is well defined if both wake at the same tick. -/
theorem average_well_defined_one : ∃ k b, AtPrintf k b ∧ k.totalReadyThreads = 1 ∧
    b.created = 1 ∧ ∃ s, b.stored = some s ∧ AllAwake s 1 := by
  have ran : pruebaRun 1 oneThread (fun k b =>
      decide (AtPrintf k b ∧ k.totalReadyThreads = 1 ∧ b.created = 1)) = .ok true := by
    decide +kernel
  obtain ⟨k, b, reached, facts⟩ := pruebaRun_reachable ran
  obtain ⟨printing, total, created⟩ := of_decide_eq_true facts
  have both : k.totalReadyThreads ≠ 0 ∧ k.totalReadyThreads = b.created := by
    rw [total, created]
    exact ⟨by decide, rfl⟩
  obtain ⟨_, _, s, stored, awake⟩ := (average_well_defined .fcfs false 1 k b reached).mp both
  exact ⟨k, b, printing, total, created, s, stored, created ▸ awake⟩

/-- Two threads, one of which runs first when both wake up. -/
def twoThreads : List Event :=
  [.setNice (-20), .create (some 2) (loadName false 2 0) 31, .unblock 2,
    .create (some 3) (loadName false 2 1) 31, .unblock 3, .sleep 200, .sleep 100, .sleep 100] ++
    List.replicate 100 .timer ++
    [.idleBlock, .semaRetry, .exit, .exitFinish, .semaRetry, .exit, .exitFinish] ++
    List.replicate 100 .timer ++ [.idleBlock, .semaRetry]

/-- One thread; a tick passes before `main` goes to sleep, so the thread wakes a tick before it
and has exited by then. -/
def lateMain : List Event :=
  [.setNice (-20), .create (some 2) (loadName false 1 0) 31, .unblock 2, .timer, .sleep 100,
    .sleep 99] ++ List.replicate 99 .timer ++
    [.idleBlock, .semaRetry, .exit, .exitFinish, .timer, .idleBlock, .semaRetry]

/-- With two threads one is counted; with one thread the divisor can be zero. -/
theorem average_miscounted :
    (∃ k b, Reachable (pruebaSystem .fcfs false 2) (k, b) ∧ AtPrintf k b ∧ b.created = 2 ∧
      k.totalReadyThreads = 1) ∧
    ∃ k b, Reachable (pruebaSystem .fcfs false 1) (k, b) ∧ AtPrintf k b ∧ b.created = 1 ∧
      k.totalReadyThreads = 0 := by
  have two : pruebaRun 2 twoThreads (fun k b =>
      decide (AtPrintf k b ∧ b.created = 2 ∧ k.totalReadyThreads = 1)) = .ok true := by
    decide +kernel
  have late : pruebaRun 1 lateMain (fun k b =>
      decide (AtPrintf k b ∧ b.created = 1 ∧ k.totalReadyThreads = 0)) = .ok true := by
    decide +kernel
  obtain ⟨k, b, reached, facts⟩ := pruebaRun_reachable two
  obtain ⟨k', b', reached', facts'⟩ := pruebaRun_reachable late
  exact ⟨⟨k, b, reached, of_decide_eq_true facts⟩, k', b', reached', of_decide_eq_true facts'⟩

end Calendarizador.Guarantees
