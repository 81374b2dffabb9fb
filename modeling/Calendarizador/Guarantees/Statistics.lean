import Calendarizador.Guarantees.LoadRange
import Calendarizador.Guarantees.RecentCpu
import Calendarizador.Invariant.Control

/-!
# The reported statistics

`thread_get_load_avg` and `thread_get_recent_cpu` multiply by 100 in 32 bits before they
round. The load average of 64 threads leaves room for that. A recent CPU time does not:
it decays only at a full second at which somebody is ready, and a thread that never waits
at such a moment is charged without a bound.
-/
namespace Calendarizador.Guarantees
open Foundation Source
variable {k after : Kernel} {cpu : Int}

/-- At most 64 threads, all with an ordinary nice value. -/
def FewThreads (k : Kernel) : Prop :=
  k.allList.length ≤ 64 ∧ ∀ p ∈ k.allList, -20 ≤ (k.thread p).nice ∧ (k.thread p).nice ≤ 20

instance (k : Kernel) : Decidable (FewThreads k) := inferInstanceAs (Decidable (_ ∧ _))

/-- The report is right exactly while the product and the half unit fit an `int`. -/
theorem reported_iff (x : Int) (int : IsInt x) :
    NearestAway (100 * x) (fpToIntRound (multInt x 100)) ↔ -21474754 ≤ x ∧ x ≤ 21474754 := by
  obtain ⟨low, high⟩ := int
  constructor
  · intro nearest
    have close := nearest.1
    revert close
    clear nearest
    have product : multInt x 100 = i32 (100 * x) := by rw [multInt, Int.mul_comm]
    rw [product]
    obtain ⟨m, wrapped⟩ : ∃ m, i32 (100 * x) = 100 * x - 4294967296 * m :=
      ⟨(100 * x + 2147483648) / 4294967296, by unfold i32; omega⟩
    have range := i32_bounds (100 * x)
    rw [wrapped] at range ⊢
    unfold fpToIntRound fpOne
    split
    · rename_i nonneg
      by_cases carries : 100 * x - 4294967296 * m + 16384 / 2 < 2147483648
      · rw [i32_of_bounds _ (by omega) carries, tdiv_nonneg_eq _ _ (by omega)]
        omega
      · have carried : i32 (100 * x - 4294967296 * m + 16384 / 2) =
            100 * x - 4294967296 * m + 8192 - 4294967296 := by
          unfold i32
          omega
        rw [carried, tdiv_neg_eq _ _ (by omega)]
        -- the distance is about 2^32, unless the product wrapped the other way before
        rcases Int.lt_trichotomy m (-1) with less | rfl | more <;> omega
    · rename_i negative
      by_cases carries : -2147483648 ≤ 100 * x - 4294967296 * m - 16384 / 2
      · rw [i32_of_bounds _ carries (by omega), tdiv_neg_eq _ _ (by omega)]
        rcases Int.lt_trichotomy m 0 with less | rfl | more <;> omega
      · have carried : i32 (100 * x - 4294967296 * m - 16384 / 2) =
            100 * x - 4294967296 * m - 8192 + 4294967296 := by
          unfold i32
          omega
        rw [carried, tdiv_nonneg_eq _ _ (by omega)]
        omega
  · rintro ⟨above, below⟩
    have product : multInt x 100 = 100 * x := by
      rw [multInt, i32_of_bounds _ (by omega) (by omega)]
      omega
    rw [product]
    exact nearestAway_of_safe _ (by omega) (by omega)

/-- Nobody is on the ready list twice, or without being on `all_list`. -/
theorem ready_length_le (h : Inv k) : k.readyList.length ≤ k.allList.length := by
  refine (List.subperm_of_subset h.core.ready_nodup fun p member => ?_).length_le
  exact (h.core.threads p).all.mpr ((h.core.threads p).ready.mp member).1

theorem reported_load (h : ReachableWhile (kernelSystem .mlfqs) (fun s _ => FewThreads s) k) :
    NearestAway (100 * k.loadAvg) (threadGetLoadAvg k) := by
  have ready : ReachableWhile (kernelSystem .mlfqs) (fun s _ => s.readyList.length ≤ 64) k :=
    h.imp fun s _ reached few => (ready_length_le (reachable_inv reached)).trans few.1
  obtain ⟨low, high⟩ := reachable_load (by omega) ready
  exact (reported_iff k.loadAvg ⟨by omega, by omega⟩).mpr ⟨by omega, by omega⟩

/-- The event is the tick of a full second. -/
def fullSecond (k : Kernel) : Event → Bool
  | .timer => (k.ticks + 1) % timerFreq = 0
  | _ => false

/-- At most four threads are ready at a time, and somebody is at every full second. -/
def KeepsDecaying (k : Kernel) (e : Event) : Prop :=
  FewThreads k ∧ k.readyList.length ≤ 4 ∧ (fullSecond k e = true → k.readyList ≠ [])

instance (k : Kernel) (e : Event) : Decidable (KeepsDecaying k e) :=
  inferInstanceAs (Decidable (_ ∧ _))

/-- What the decay and the charges of one second leave room for. -/
def CpuBounded (k : Kernel) : Prop :=
  ∀ p, k.Live p → k.idleThread ≠ some p → -2949120 ≤ (k.thread p).recentCpu ∧
    (k.thread p).recentCpu ≤ (981 + k.ticks % 100 : Nat) * 16384

/-- The factor at a load of at most four. -/
theorem decayFactor_four (load : Int) (low : 0 ≤ load) (high : load ≤ 4 * 16384) :
    0 ≤ decayFactor load ∧ decayFactor load ≤ 14563 := by
  have contracts := contracts_of_range load low (by omega)
  refine ⟨contracts.factor.1, ?_⟩
  have double : multInt load 2 = 2 * load := by
    rw [multInt, i32_of_bounds _ (by omega) (by omega)]
    omega
  have below : 2 * load * 16384 / (2 * load + 16384) < 14564 :=
    Int.ediv_lt_of_lt_mul (by omega) (by omega)
  have nonneg : 0 ≤ 2 * load * 16384 / (2 * load + 16384) :=
    Int.ediv_nonneg (by omega) (by omega)
  rw [decayFactor, double, contracts.divisor.1, divFp, fpOne, i64_of_bounds _ (by omega) (by omega),
    tdiv_nonneg_eq _ _ (by omega), i32_of_bounds _ (by omega) (by omega)]
  omega

/-- A second of charges decays back below the bound. -/
theorem decayedCpu_bounded (load r nice : Int) (low : 0 ≤ load) (high : load ≤ 4 * 16384)
    (least : -2949120 ≤ r) (most : r ≤ 1080 * 16384) (meanest : -20 ≤ nice) (nicest : nice ≤ 20) :
    -2949120 ≤ decayedCpu load r nice ∧ decayedCpu load r nice ≤ 980 * 16384 := by
  obtain ⟨nonneg, below⟩ := decayFactor_four load low high
  have product : -(14563 * 2949120) ≤ decayFactor load * r ∧
      decayFactor load * r ≤ 14563 * (1080 * 16384) := by
    constructor <;> nlinarith
  have quotient : -2621340 ≤ (decayFactor load * r).tdiv 16384 ∧
      (decayFactor load * r).tdiv 16384 ≤ 15728040 := by
    rcases lt_or_ge (decayFactor load * r) 0 with negative | positive
    · rw [tdiv_neg_eq _ _ negative]
      omega
    · rw [tdiv_nonneg_eq _ _ positive]
      omega
  have scaled : i32 (nice * fpOne) = nice * 16384 := i32_of_bounds _ (by unfold fpOne; omega)
    (by unfold fpOne; omega)
  have decayed : multFp (decayFactor load) r = (decayFactor load * r).tdiv 16384 := by
    rw [multFp, fpOne, i64_of_bounds _ (by omega) (by omega), i32_of_bounds _ (by omega) (by omega)]
  show -2949120 ≤ addInt (multFp (decayFactor load) r) nice ∧
    addInt (multFp (decayFactor load) r) nice ≤ 980 * 16384
  rw [addInt, scaled, decayed, i32_of_bounds _ (by omega) (by omega)]
  omega

theorem addInt_one (x : Int) (low : -2147483648 ≤ x) (high : x < 2147467264) :
    addInt x 1 = x + 16384 := by
  rw [addInt, fpOne, i32_add_right, i32_of_bounds _ (by omega) (by omega)]
  omega

/-- One tick of such a run. -/
theorem cpuAfterTick_bounded (bounded : CpuBounded k) (decays : KeepsDecaying k .timer)
    (load : 0 ≤ loadAfterTick (atTick k) ∧ loadAfterTick (atTick k) ≤ 4 * 16384) {p : Page}
    (live : k.Live p) (listed : p ∈ k.allList) (ordinary : k.idleThread ≠ some p) :
    -2949120 ≤ cpuAfterTick (atTick k) p ∧
      cpuAfterTick (atTick k) p ≤ (981 + (k.ticks + 1) % 100 : Nat) * 16384 := by
  obtain ⟨low, high⟩ := bounded p live ordinary
  obtain ⟨meanest, nicest⟩ := decays.1.2 p listed
  by_cases nobody : k.readyList = []
  · have between : ¬ (k.ticks + 1) % timerFreq = 0 := fun second =>
      decays.2.2 (decide_eq_true second) nobody
    rw [(cpuAfterTick_empty nobody p).1]
    unfold timerFreq at between
    omega
  · obtain ⟨decayed, value⟩ : ∃ decayed, decayed =
        if (k.ticks + 1) % timerFreq = 0 ∧ k.idleThread ≠ some p then
          decayedCpu (loadAfterTick (atTick k)) (k.thread p).recentCpu (k.thread p).nice
        else (k.thread p).recentCpu := ⟨_, rfl⟩
    have bounds : -2949120 ≤ decayed ∧ decayed ≤ (980 + (k.ticks + 1) % 100 : Nat) * 16384 := by
      rw [value]
      by_cases second : (k.ticks + 1) % timerFreq = 0
      · rw [if_pos ⟨second, ordinary⟩]
        have now := decayedCpu_bounded _ _ _ load.1 load.2 low (by omega) meanest nicest
        omega
      · rw [if_neg fun both => second both.1]
        unfold timerFreq at second
        omega
    have charged := cpuAfterTick_ready nobody live
    dsimp only at charged
    rw [← value, addInt_one decayed (by omega) (by omega)] at charged
    rw [charged]
    split <;> omega

/-- A tick creates nobody and lets nobody exit. -/
theorem timer_step_lists (taken : step k .timer = .ok after) :
    after.allList = k.allList ∧ after.idleThread = k.idleThread ∧ after.ticks = k.ticks + 1 := by
  obtain ⟨outcome, handles, all, idle, clock⟩ : ∃ outcome, intrHandler k = .ok outcome ∧
      after.allList = outcome.kernel.allList ∧ after.idleThread = outcome.kernel.idleThread ∧
      after.ticks = outcome.kernel.ticks := by
    obtain ⟨_, body | ⟨ready, body, switched⟩⟩ := step_effects taken
    · exact ⟨_, body, rfl, rfl, rfl⟩
    · obtain ⟨_, next, rest, _, rfl⟩ := schedule_effects switched
      exact ⟨_, body, dispatch_allList _ _, dispatch_idleThread _ _, dispatch_ticks _ _⟩
  obtain ⟨handled, interrupted, ⟨⟩⟩ := bind_eq_ok.mp handles
  obtain ⟨_, lists, ticks⟩ := timerInterrupt_keeps Thread.name {} interrupted
  rw [all, idle, clock]
  split
  · exact ⟨lists.allList, lists.idleThread, ticks⟩
  · exact ⟨lists.allList, lists.idleThread, ticks⟩

/-- The other events leave the clock alone. -/
theorem step_clock (h : Inv k) {e : Event} (other : e ≠ .timer) (taken : step k e = .ok after) :
    after.ticks = k.ticks := by
  rcases step_sleepers h taken with ⟨_, clock, _⟩ | ⟨n, _, _, _, clock, _⟩ | ⟨tick, _⟩
  · exact clock
  · exact clock
  · exact absurd tick other

theorem reachable_cpuBounded (h : ReachableWhile (kernelSystem .mlfqs) KeepsDecaying k) :
    CpuBounded k := by
  suffices both : ReachableWhile (kernelSystem .mlfqs) KeepsDecaying k ∧ CpuBounded k from both.2
  refine h.invariant (P := fun k => ReachableWhile (kernelSystem .mlfqs) KeepsDecaying k ∧
    CpuBounded k) ?_ ?_
  · rintro s ⟨values, booted⟩
    refine ⟨.initial ⟨values, booted⟩, fun p _ _ => ?_⟩
    rw [(threadInit_booted booted).recentCpu]
    omega
  · rintro s e after ⟨reached, bounded⟩ decays taken
    have next : ReachableWhile (kernelSystem .mlfqs) KeepsDecaying after :=
      reached.step e decays taken
    refine ⟨next, fun p live ordinary => ?_⟩
    have inv := reachable_inv reached.reachable
    have mode := reachable_mode reached.reachable
    by_cases tick : e = .timer
    · subst tick
      have four : ReachableWhile (kernelSystem .mlfqs) (fun s _ => s.readyList.length ≤ 4) after :=
        next.imp fun _ _ _ fine => fine.2.1
      have load := reachable_load (by omega) four
      obtain ⟨average, cpu⟩ := timer_step_values inv mode taken
      obtain ⟨all, idle, clock⟩ := timer_step_lists taken
      have listed : p ∈ s.allList := by
        rw [← all]
        exact ((reachable_inv next.reachable).core.threads p).all.mpr live
      rw [cpu, clock]
      rw [average] at load
      exact cpuAfterTick_bounded bounded decays load ((inv.core.threads p).all.mp listed) listed
        (idle ▸ ordinary)
    · have before : s.idleThread ≠ some p := fun idle => ordinary (step_idle inv taken idle)
      obtain ⟨_, cpu⟩ := step_averages inv mode tick taken
      rcases cpu p with ⟨same, old⟩ | zero
      · rw [same, step_clock inv tick taken]
        exact bounded p (old live) before
      · rw [zero]
        omega

/-- The two statistics in the runs with at most 64 threads: the load average is always
reported right, the recent CPU time of the running thread exactly in the range given, and it
is in that range as long as every second finds somebody, but at most four threads, ready. -/
theorem statistics_reported (k : Kernel)
    (h : ReachableWhile (kernelSystem .mlfqs) (fun s _ => FewThreads s) k) :
    NearestAway (100 * k.loadAvg) (threadGetLoadAvg k) ∧
    (NearestAway (100 * (k.thread k.current).recentCpu) (threadGetRecentCpu k) ↔
      -21474754 ≤ (k.thread k.current).recentCpu ∧ (k.thread k.current).recentCpu ≤ 21474754) ∧
    (ReachableWhile (kernelSystem .mlfqs) KeepsDecaying k → k.idleThread ≠ some k.current →
      NearestAway (100 * (k.thread k.current).recentCpu) (threadGetRecentCpu k)) := by
  have inv := reachable_inv h.reachable
  have iff := reported_iff (k.thread k.current).recentCpu
    ((reachable_stored h.reachable).recentCpu k.current)
  refine ⟨reported_load h, iff, fun decays ordinary => iff.mpr ?_⟩
  have bounds := reachable_cpuBounded decays k.current inv.live ordinary
  omega

/-- `main` sleeps through the first second while the idle thread runs, and is ready at its
end. -/
theorem statistics_reported_second : ∃ k, (k.ticks, k.current, k.loadAvg) = (100, 0, 273) ∧
    NearestAway (100 * k.loadAvg) (threadGetLoadAvg k) ∧
    NearestAway (100 * (k.thread k.current).recentCpu) (threadGetRecentCpu k) := by
  obtain ⟨k, decays, facts, ordinary⟩ := executeWhile_holds .mlfqs KeepsDecaying
    (threadStart ++ [.sleep 99] ++ List.replicate 100 .timer ++ [.idleBlock]) (P := fun k =>
      (k.ticks, k.current, k.loadAvg) = (100, 0, 273) ∧ k.idleThread ≠ some k.current)
    (by decide +kernel)
  have reported := statistics_reported k (decays.imp fun _ _ _ fine => fine.1)
  exact ⟨k, facts, reported.1, reported.2.2 decays ordinary⟩

/-! A run in which the recent CPU time of `main` is charged but never decays: another thread
is ready except at every full second. -/

/-- `main` runs with the given ready list; thread 2 is at `place`. -/
structure Charging (k : Kernel) (ready : List Page) (place : Code) (cpu : Int) : Prop where
  reached : ReachableWhile (kernelSystem .mlfqs) (fun s _ => FewThreads s) k
  few : FewThreads k
  current : k.current = 0
  ready : k.readyList = ready
  asleep : k.waitList = []
  code : k.code 0 = .user
  place : k.code 2 = place
  listed : 2 ∈ k.allList
  priority : (k.thread 0).priority = 63
  other : (k.thread 2).priority = 0
  cpu : (k.thread 0).recentCpu = cpu
  idle : k.idleThread = some 1

theorem FewThreads.keep (h : FewThreads k) (all : after.allList = k.allList)
    (nice : ∀ p, (after.thread p).nice = (k.thread p).nice) : FewThreads after := by
  refine ⟨all ▸ h.1, fun p member => ?_⟩
  rw [nice]
  exact h.2 p (all ▸ member)

/-- A tick that meets nobody ready, or is not the last of its second, charges `main` if
somebody is ready and changes nothing else. -/
theorem Charging.tick {ready : List Page} {place : Code} (h : Charging k ready place cpu)
    (quiet : ready = [] ∨ (ready = [2] ∧ (k.ticks + 1) % 100 ≠ 0)) :
    ∃ after, step k .timer = .ok after ∧ after.ticks = k.ticks + 1 ∧
      Charging after ready place (if ready = [] then cpu else addInt cpu 1) := by
  have inv := reachable_inv h.reached.reachable
  have mode : k.mode = .mlfqs := reachable_mode h.reached.reachable
  have queue : (atTick k).readyList = ready := h.ready
  have between : (atTick k).readyList ≠ [] → (atTick k).ticks % timerFreq ≠ 0 := by
    intro someone
    rcases quiet with rfl | ⟨_, later⟩
    · exact absurd queue someone
    · exact later
  obtain ⟨ticked, counted⟩ : ∃ ticked, threadTick (atTick k) = .ok ticked := by
    have body : threadTick (atTick k) = mlfqsTick (countTick (atTick k)) := by
      rw [threadTick, show (atTick k).mode = .mlfqs from mode]
    rw [body, mlfqsTick]
    split
    · exact ⟨_, rfl⟩
    · rename_i next rest list
      have later : ¬ (countTick (atTick k)).ticks % timerFreq = 0 :=
        between fun nobody => by cases nobody.symm.trans list
      exact ⟨_, bind_eq_ok.mpr ⟨_, if_neg later, rfl⟩⟩
  have values : Ticked (atTick k) ticked :=
    threadTick_ticked (inv.registers (k.ticks + 1) false) mode counted
  have accounts := threadTick_accounting counted
  have kept : ∀ p, ¬ Refreshed (atTick k) p := by
    rintro p ⟨someone, fourth, _⟩
    have later := between someone
    unfold timerFreq at fourth later
    omega
  have priority : ∀ p, (ticked.thread p).priority = (k.thread p).priority :=
    fun p => (values.priority p).trans (if_neg (kept p))
  have cpu' : (ticked.thread 0).recentCpu = if ready = [] then cpu else addInt cpu 1 := by
    have undecayed : cpuDecayed (atTick k) 0 = cpu :=
      (if_neg fun all => between all.1 all.2.1).trans h.cpu
    rw [values.recentCpu, cpuAfterTick, undecayed, queue]
    by_cases nobody : ready = []
    · rw [if_neg fun both => both.1 nobody, if_pos nobody]
    · rw [if_pos ⟨nobody, h.current.symm⟩, if_neg nobody]
  have stays : ¬ ticked.yieldOnReturn = true := by
    rw [values.yield_iff]
    rintro ⟨next, rest, list, _, worse⟩
    rcases quiet with rfl | ⟨rfl, _⟩
    · cases queue.symm.trans list
    · obtain ⟨rfl, _⟩ := List.cons.inj (queue.symm.trans list)
      rw [priorityAfterTick, if_neg (kept _), priorityAfterTick, if_neg (kept 2)] at worse
      have mine : ((atTick k).thread (atTick k).current).priority = 63 := by
        rw [show (atTick k).current = 0 from h.current]
        exact h.priority
      rw [mine, show ((atTick k).thread 2).priority = 0 from h.other] at worse
      omega
  have asleep : ticked.waitList = [] := accounts.waitList.trans h.asleep
  have interrupts : timerInterrupt { k with yieldOnReturn := false } = .ok ticked := by
    refine bind_eq_ok.mpr ⟨ticked, counted, ?_⟩
    rw [asleep]
    rfl
  have handles : intrHandler k = .ok (.returns ticked) := by
    refine bind_eq_ok.mpr ⟨ticked, interrupts, ?_⟩
    rw [if_neg stays]
  have taken : step k .timer = .ok ticked := by
    have enabled : Event.enabled k .timer = true := by
      show (k.code k.current).interruptible = true
      rw [h.current, h.code]
      rfl
    rw [step, if_pos enabled]
    exact bind_eq_ok.mpr ⟨_, handles, rfl⟩
  refine ⟨ticked, taken, accounts.ticks, ?_⟩
  exact {
    reached := h.reached.step .timer h.few taken
    few := h.few.keep accounts.allList values.nice
    current := accounts.current.trans h.current
    ready := by
      have same := accounts.ready
      rw [queue] at same
      rcases quiet with rfl | ⟨rfl, _⟩
      · exact same.eq_nil
      · exact List.perm_singleton.mp same
    asleep := asleep
    code := (accounts.code 0).trans h.code
    place := (accounts.code 2).trans h.place
    listed := accounts.allList ▸ h.listed
    priority := (priority 0).trans h.priority
    other := (priority 2).trans h.other
    cpu := cpu'
    idle := accounts.idleThread.trans h.idle }

/-- The data of `Charging` that a switch leaves alone. -/
structure SameCharge (k after : Kernel) : Prop where
  allList : after.allList = k.allList
  waitList : after.waitList = k.waitList
  idleThread : after.idleThread = k.idleThread
  ticks : after.ticks = k.ticks
  thread : Kernel.Keeps (fun t => (t.recentCpu, t.priority, t.nice)) k after

theorem SameCharge.trans {middle : Kernel} (first : SameCharge k middle)
    (second : SameCharge middle after) : SameCharge k after :=
  ⟨second.allList.trans first.allList, second.waitList.trans first.waitList,
    second.idleThread.trans first.idleThread, second.ticks.trans first.ticks,
    first.thread.trans second.thread⟩

theorem SameCharge.few (same : SameCharge k after) (h : FewThreads k) : FewThreads after :=
  h.keep same.allList fun p => congrArg (fun s => s.2.2) (same.thread p)

theorem Charging.keep {ready ready' : List Page} {place place' : Code}
    (h : Charging k ready place cpu) (same : SameCharge k after)
    (reached : ReachableWhile (kernelSystem .mlfqs) (fun s _ => FewThreads s) after)
    (current : after.current = 0) (list : after.readyList = ready') (code : after.code 0 = .user)
    (moved : after.code 2 = place') : Charging after ready' place' cpu where
  reached := reached
  few := same.few h.few
  current := current
  ready := list
  asleep := same.waitList.trans h.asleep
  code := code
  place := moved
  listed := same.allList ▸ h.listed
  priority := (congrArg (fun s => s.2.1) (same.thread 0)).trans h.priority
  other := (congrArg (fun s => s.2.1) (same.thread 2)).trans h.other
  cpu := (congrArg (fun s => s.1) (same.thread 0)).trans h.cpu
  idle := same.idleThread.trans h.idle

/-- An event whose body ends in `schedule` with somebody ready. -/
theorem step_front {queued : Kernel} {e : Event} {next : Page} {rest : List Page}
    (enabled : e.enabled k = true) (body : opBody k e = .ok (.schedules queued))
    (leaves : queued.status queued.current ≠ .running) (list : queued.readyList = next :: rest) :
    step k e = .ok (dispatch { queued with readyList := rest } next) := by
  rw [step, if_pos enabled]
  refine bind_eq_ok.mpr ⟨_, body, ?_⟩
  rw [Outcome.finish, schedule, nextThreadToRun, list]
  exact if_neg leaves

theorem dispatch_sameCharge (s : Kernel) (rest : List Page) (next : Page) :
    SameCharge s (dispatch { s with readyList := rest } next) where
  allList := dispatch_allList _ _
  waitList := dispatch_waitList _ _
  idleThread := dispatch_idleThread _ _
  ticks := dispatch_ticks _ _
  thread := dispatch_keeps { s with readyList := rest } next
    (fun t => (t.recentCpu, t.priority, t.nice)) {}

/-- `main` yields to thread 2, which parks at once. -/
theorem Charging.pause (h : Charging k [2] .user cpu) :
    ∃ after, after.ticks = k.ticks ∧ Charging after [] .parked cpu := by
  obtain ⟨queued, made⟩ : ∃ queued, queued = (threadYield k).kernel := ⟨_, rfl⟩
  have list : queued.readyList = 2 :: [0] := by
    rw [made]
    show (if k.idleThread ≠ some k.current then k.readyList ++ [k.current] else k.readyList) = _
    rw [h.idle, h.current, h.ready]
    rfl
  have leaves : queued.status queued.current ≠ .running := by
    rw [made]
    show ((stampWait k k.current).setStatus k.current .ready).status k.current ≠ .running
    simp
  have charge : SameCharge k queued := by
    rw [made]
    exact ⟨rfl, rfl, rfl, rfl, threadYield_keeps _ {} k⟩
  have codes : ∀ p, queued.code p = k.code p := by
    rw [made]
    exact threadYield_keeps (fun t => t.code) {} k
  have yields : step k .yield = .ok (dispatch { queued with readyList := [0] } 2) := by
    refine step_front ?_ ?_ leaves list
    · rw [Event.enabled, h.current, h.code]
      rfl
    · rw [made]
      rfl
  obtain ⟨other, switched⟩ : ∃ other, other = dispatch { queued with readyList := [0] } 2 :=
    ⟨_, rfl⟩
  rw [← switched] at yields
  have charge' : SameCharge k other := switched ▸ charge.trans (dispatch_sameCharge queued [0] 2)
  have current' : other.current = 2 := switched ▸ dispatch_current _ _
  have codes' : ∀ p, other.code p = k.code p := by
    intro p
    rw [switched, dispatch_code]
    exact codes p
  -- thread 2 parks
  obtain ⟨parked, stops⟩ :
      ∃ parked, parked = (threadBlock (other.setCode other.current .parked)).kernel := ⟨_, rfl⟩
  have list' : parked.readyList = 0 :: [] := by
    rw [stops, switched]
    show (dispatch { queued with readyList := [0] } 2).readyList = _
    rw [dispatch_readyList]
  have leaves' : parked.status parked.current ≠ .running := by
    rw [stops]
    show ((other.setCode other.current .parked).setStatus other.current .blocked).status
      other.current ≠ .running
    simp
  have parks : step other .block = .ok (dispatch { parked with readyList := [] } 0) := by
    refine step_front ?_ ?_ leaves' list'
    · rw [Event.enabled, current', codes', h.place]
      rfl
    · rw [stops]
      rfl
  have charge'' : SameCharge other parked := by
    rw [stops]
    have coded : Kernel.Keeps (fun t => (t.recentCpu, t.priority, t.nice)) other
        (other.setCode other.current .parked) := Kernel.keeps_upd _ other _ _ fun _ => rfl
    exact ⟨rfl, rfl, rfl, rfl, coded.trans (Kernel.keeps_upd _ _ other.current _ fun _ => rfl)⟩
  have same := charge'.trans (charge''.trans (dispatch_sameCharge parked [] 0))
  have reached : ReachableWhile (kernelSystem .mlfqs) (fun s _ => FewThreads s) other :=
    h.reached.step .yield h.few yields
  refine ⟨_, same.ticks, h.keep same (reached.step .block (charge'.few h.few) parks)
    (dispatch_current _ _) (dispatch_readyList _ _) ?_ ?_⟩
  · rw [dispatch_code]
    have mine : other.code 0 = .user := (codes' 0).trans h.code
    rw [stops]
    simpa [threadBlock, Outcome.kernel, current'] using mine
  · rw [dispatch_code]
    rw [stops]
    simp [threadBlock, Outcome.kernel, current']

/-- `main` unblocks thread 2. -/
theorem Charging.resume (h : Charging k [] .parked cpu) :
    ∃ after, after.ticks = k.ticks ∧ Charging after [2] .user cpu := by
  have inv := reachable_inv h.reached.reachable
  have live : k.Live 2 := (inv.core.threads 2).all.mp h.listed
  have blocked : (stampWait k 2).status 2 = .blocked := by
    have waits : k.status 2 = .blocked := (inv.core.threads 2).parked live h.place
    simpa [stampWait] using waits
  obtain ⟨woken, made⟩ : ∃ woken : Kernel, woken =
    { (stampWait k 2).setStatus 2 .ready with readyList := k.readyList ++ [2] } := ⟨_, rfl⟩
  have unblocks : threadUnblock k 2 = .ok woken := by
    rw [threadUnblock, if_pos blocked, made]
  have taken : step k (.unblock 2) = .ok (woken.setCode 2 .user) := by
    have enabled : Event.enabled k (.unblock 2) = true := by
      simp only [Event.enabled, h.current, h.code, h.place, live.1]
      decide
    rw [step, if_pos enabled]
    exact bind_eq_ok.mpr ⟨_, bind_eq_ok.mpr ⟨woken, unblocks, rfl⟩, rfl⟩
  have charge : SameCharge k (woken.setCode 2 .user) := by
    have stamped : Kernel.Keeps (fun t => (t.recentCpu, t.priority, t.nice)) k (stampWait k 2) :=
      Kernel.keeps_upd _ k _ _ fun _ => rfl
    have status : Kernel.Keeps (fun t => (t.recentCpu, t.priority, t.nice)) k
        ((stampWait k 2).setStatus 2 .ready) :=
      stamped.trans (Kernel.keeps_upd _ _ 2 _ fun _ => rfl)
    have ready : Kernel.Keeps (fun t => (t.recentCpu, t.priority, t.nice)) k woken := by
      rw [made]
      exact status
    have thread := ready.trans (Kernel.keeps_upd _ woken 2 (Thread.setCode .user) fun _ => rfl)
    exact ⟨by rw [made]; rfl, by rw [made]; rfl, by rw [made]; rfl, by rw [made]; rfl, thread⟩
  refine ⟨_, charge.ticks, h.keep charge (h.reached.step _ h.few taken) ?_ ?_ ?_ ?_⟩
  · rw [made]
    exact h.current
  · rw [made]
    rw [h.ready]
    rfl
  · have mine : (k.thread 0).code = .user := h.code
    simpa [made, stampWait] using mine
  · simp

/-- The ticks of one second, the last one excepted. -/
theorem Charging.second (h : Charging k [2] .user cpu) (start : k.ticks % 100 = 0) (low : 0 ≤ cpu)
    (high : cpu ≤ 30000000) (n : Nat) (few : n ≤ 99) :
    ∃ after, after.ticks = k.ticks + n ∧ Charging after [2] .user (cpu + n * 16384) := by
  induction n with
  | zero => exact ⟨k, rfl, by simpa using h⟩
  | succ n ih =>
    obtain ⟨after, clock, charging⟩ := ih (by omega)
    obtain ⟨next, _, clock', charged⟩ := charging.tick (.inr ⟨rfl, by omega⟩)
    refine ⟨next, by omega, ?_⟩
    have value : addInt (cpu + n * 16384) 1 = cpu + (n + 1 : Nat) * 16384 := by
      rw [addInt_one _ (by omega) (by omega)]
      omega
    rw [if_neg (by simp), value] at charged
    exact charged

/-- Every second adds 99 ticks. -/
theorem charging_seconds (n : Nat) (few : n ≤ 18) :
    ∃ k, k.ticks = 100 * n ∧ Charging k [] .parked (99 * n * 16384) := by
  induction n with
  | zero =>
    obtain ⟨k, reached, few, current, ready, asleep, code, place, listed, priority, other, cpu,
        idle, clock⟩ := executeWhile_holds .mlfqs (fun s _ => FewThreads s)
      (threadStart ++ [.setNice (-20), .create (some 2) ['a'] 0]) (P := fun k =>
        FewThreads k ∧ k.current = 0 ∧ k.readyList = [] ∧ k.waitList = [] ∧ k.code 0 = .user ∧
          k.code 2 = .parked ∧ 2 ∈ k.allList ∧ (k.thread 0).priority = 63 ∧
          (k.thread 2).priority = 0 ∧ (k.thread 0).recentCpu = 0 ∧ k.idleThread = some 1 ∧
          k.ticks = 0) (by decide +kernel)
    exact ⟨k, clock, ⟨reached, few, current, ready, asleep, code, place, listed, priority, other,
      cpu, idle⟩⟩
  | succ n ih =>
    obtain ⟨k, clock, waiting⟩ := ih (by omega)
    obtain ⟨resumed, clock₁, charging⟩ := waiting.resume
    obtain ⟨charged, clock₂, charging⟩ :=
      charging.second (by omega) (by omega) (by omega) 99 (by omega)
    obtain ⟨paused, clock₃, pausing⟩ := charging.pause
    obtain ⟨after, _, clock₄, done⟩ := pausing.tick (.inl rfl)
    refine ⟨after, by omega, ?_⟩
    have value : (99 * n * 16384 : Int) + (99 : Nat) * 16384 = 99 * (n + 1 : Nat) * 16384 := by
      omega
    rw [if_pos rfl, value] at done
    exact done

/-- After fourteen seconds `main` has used 1386 ticks and is told -1235.44 instead: the
reported value is negative. -/
theorem statistics_wrap : ∃ k,
    ReachableWhile (kernelSystem .mlfqs) (fun s _ => FewThreads s) k ∧ FewThreads k ∧
    k.ticks = 1400 ∧ (k.thread k.current).recentCpu = 1386 * 16384 ∧
    threadGetRecentCpu k = -123544 ∧
    ¬ NearestAway (100 * (k.thread k.current).recentCpu) (threadGetRecentCpu k) := by
  obtain ⟨k, clock, charging⟩ := charging_seconds 14 (by omega)
  have cpu : (k.thread k.current).recentCpu = 1386 * 16384 := by
    rw [charging.current, charging.cpu]
    rfl
  refine ⟨k, charging.reached, charging.few, clock, cpu, ?_, ?_⟩
  · rw [threadGetRecentCpu, cpu]
    decide
  · rw [threadGetRecentCpu, cpu]
    decide

end Calendarizador.Guarantees
