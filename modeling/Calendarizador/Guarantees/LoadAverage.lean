import Calendarizador.Invariant.MlfqsTick

/-!
# The load average

Once a second `load_avg` should move toward the number of threads that are ready or
running. `thread_tick` skips the update while the ready list is empty, and
`refresh_load_avg` leaves the running thread out of the count it uses.
-/
namespace Calendarizador.Guarantees
open Foundation Source

/-- The weighted average of the old load and a count, in fixed point. -/
def averagedLoad (loadAvg : Int) (count : Nat) : Int :=
  addFp (divInt (multInt loadAvg 59) 60) (divInt (intToFp (i32 count)) 60)

/-- The threads that are ready or running, the idle thread aside. -/
def runnableCount (k : Kernel) : Nat :=
  k.readyList.length + if k.idleThread = some k.current then 0 else 1

/-- The load average follows the runnable threads once a second. -/
def LoadLaw (k after : Kernel) : Prop :=
  after.loadAvg =
    if (k.ticks + 1) % timerFreq = 0 then averagedLoad k.loadAvg (runnableCount k)
    else k.loadAvg

theorem intToFp_i32 (n : Int) : intToFp (i32 n) = i32 (n * fpOne) := by
  unfold intToFp fpOne i32
  omega

/-- The quotients that are added are far smaller than an `int`. -/
theorem divInt_sixty (x : Int) (low : -2147483648 ≤ x) (high : x < 2147483648) :
    60 * divInt x 60 - x ≤ 59 ∧ x - 60 * divInt x 60 ≤ 59 ∧
      (0 ≤ x → 60 * divInt x 60 ≤ x) ∧ (x ≤ 0 → x ≤ 60 * divInt x 60) := by
  unfold divInt
  rcases Int.le_total 0 x with nonneg | negative
  · rw [tdiv_nonneg_eq _ _ nonneg]
    omega
  · rcases Int.lt_or_eq_of_le negative with below | rfl
    · rw [tdiv_neg_eq _ _ below]
      omega
    · decide

/-- One more thread always makes a difference. -/
theorem averagedLoad_succ_ne (loadAvg : Int) (count : Nat) :
    averagedLoad loadAvg count ≠ averagedLoad loadAvg (count + 1) := by
  unfold averagedLoad
  rw [intToFp_i32, intToFp_i32]
  obtain ⟨fewer, fewer_eq⟩ : ∃ x, x = i32 ((count : Int) * fpOne) := ⟨_, rfl⟩
  obtain ⟨more, more_eq⟩ : ∃ x, x = i32 (((count + 1 : Nat) : Int) * fpOne) := ⟨_, rfl⟩
  have fewer_bounds := i32_bounds ((count : Int) * fpOne)
  have more_bounds := i32_bounds (((count + 1 : Nat) : Int) * fpOne)
  have apart : more = fewer + 16384 ∨ more = fewer + 16384 - 4294967296 := by
    rw [fewer_eq, more_eq]
    unfold fpOne i32
    omega
  rw [← fewer_eq] at fewer_bounds ⊢
  rw [← more_eq] at more_bounds ⊢
  have small := divInt_sixty fewer fewer_bounds.1 fewer_bounds.2
  have large := divInt_sixty more more_bounds.1 more_bounds.2
  unfold addFp i32
  omega

/-- Where the average rests: a sixtieth of the load, rounded up, is the share of the
threads. -/
theorem averagedLoad_rests (loadAvg share : Int) (low : -2147483648 ≤ loadAvg)
    (high : loadAvg < 2147483648) (nonneg : 0 ≤ share) (small : share ≤ 273) :
    addFp (divInt (multInt loadAvg 59) 60) share = loadAvg ↔
      0 ≤ loadAvg ∧ 60 * share - 59 ≤ loadAvg ∧ loadAvg ≤ 60 * share := by
  obtain ⟨q, wrapped⟩ : ∃ q : Int, multInt loadAvg 59 = loadAvg * 59 - 4294967296 * q := by
    refine ⟨(loadAvg * 59 + 2147483648) / 4294967296, ?_⟩
    unfold multInt i32
    omega
  have bounds : -2147483648 ≤ multInt loadAvg 59 ∧ multInt loadAvg 59 < 2147483648 :=
    i32_bounds _
  have quotient := divInt_sixty (multInt loadAvg 59) bounds.1 bounds.2
  rw [addFp, i32_of_bounds _ (by omega) (by omega)]
  -- a product that wraps is too far from the load
  rcases Int.lt_trichotomy q 0 with below | rfl | above <;> omega

/-- An interrupt obeys the law exactly between two seconds, while the idle thread runs
next to ready threads, and where the average of a single runnable thread, or of none,
rests. -/
theorem load_average (k after : Kernel) (h : Reachable (kernelSystem .mlfqs) k)
    (taken : step k .timer = .ok after) :
    LoadLaw k after ↔ ((k.ticks + 1) % timerFreq = 0 →
      (k.readyList ≠ [] ∧ k.idleThread = some k.current) ∨
      (k.readyList = [] ∧ ((k.idleThread = some k.current ∧ k.loadAvg = 0) ∨
        (k.idleThread ≠ some k.current ∧ 16321 ≤ k.loadAvg ∧ k.loadAvg ≤ 16380)))) := by
  have load := (timer_step_values (reachable_inv h) (reachable_mode h) taken).1
  have stored := (reachable_stored h).loadAvg
  change after.loadAvg = if k.readyList ≠ [] ∧ (k.ticks + 1) % timerFreq = 0 then
    averagedLoad k.loadAvg k.readyList.length else k.loadAvg at load
  unfold LoadLaw
  by_cases second : (k.ticks + 1) % timerFreq = 0
  · rw [if_pos second, load]
    cases ready : k.readyList with
    | nil =>
      rw [if_neg fun both => both.1 rfl, eq_comm]
      by_cases idle : k.idleThread = some k.current
      · have count : runnableCount k = 0 := by simp [runnableCount, ready, idle]
        have share : divInt (intToFp (i32 (0 : Nat))) 60 = 0 := by decide
        rw [count, averagedLoad, share,
          averagedLoad_rests _ 0 stored.1 stored.2 (by omega) (by omega)]
        simp [idle, second]
        omega
      · have count : runnableCount k = 1 := by simp [runnableCount, ready, idle]
        have share : divInt (intToFp (i32 (1 : Nat))) 60 = 273 := by decide
        rw [count, averagedLoad, share,
          averagedLoad_rests _ 273 stored.1 stored.2 (by omega) (by omega)]
        simp [idle, second]
        omega
    | cons next rest =>
      by_cases idle : k.idleThread = some k.current
      · simp [runnableCount, ready, idle, second]
      · have differ := averagedLoad_succ_ne k.loadAvg (rest.length + 1)
        simp [runnableCount, ready, idle, second, differ]
  · rw [if_neg second, load, if_neg fun both => second both.2]
    simp [second]

/-- `main` sleeps for 99 ticks and is ready when the idle thread meets the first second. -/
theorem load_average_idle : ∃ k after, step k .timer = .ok after ∧ after.loadAvg = 273 ∧
    (k.ticks, k.current, k.idleThread, k.readyList) = (99, 1, some 1, [0]) ∧
    LoadLaw k after := by
  obtain ⟨k, reached, facts, after, taken, load⟩ := execute_holds .mlfqs
    (threadStart ++ [.sleep 99] ++ List.replicate 99 .timer) (P := fun k =>
      (k.ticks, k.current, k.idleThread, k.readyList) = (99, 1, some 1, [0]) ∧
        ∃ after ∈ (step k .timer).toOption, after.loadAvg = 273) (by decide +kernel)
  have taken := toOption_eq_some taken
  refine ⟨k, after, taken, load, facts, ?_⟩
  simp only [Prod.mk.injEq] at facts
  obtain ⟨_, current, idle, ready⟩ := facts
  exact (load_average k after reached taken).mpr
    fun _ => .inl ⟨by simp [ready], by rw [idle, current]⟩

/-- `main` runs alone for one second: the load average stays 0 and should be 273/16384. -/
theorem load_average_alone : ∃ k after, Reachable (kernelSystem .mlfqs) k ∧
    step k .timer = .ok after ∧ (k.ticks, k.current, k.readyList) = (99, 0, []) ∧
    (k.loadAvg, after.loadAvg, averagedLoad k.loadAvg (runnableCount k)) = (0, 0, 273) ∧
    ¬ LoadLaw k after := by
  obtain ⟨k, reached, clock, ruled, load, after, taken, unchanged⟩ := execute_holds .mlfqs
    (threadStart ++ List.replicate 99 .timer) (P := fun k =>
      (k.ticks, k.current, k.readyList) = (99, 0, []) ∧
        averagedLoad k.loadAvg (runnableCount k) = 273 ∧ k.loadAvg = 0 ∧
          ∃ after ∈ (step k .timer).toOption, after.loadAvg = 0) (by decide +kernel)
  refine ⟨k, after, reached, toOption_eq_some taken, clock, by rw [ruled, load, unchanged],
    fun law => ?_⟩
  have ticks : k.ticks = 99 := congrArg Prod.fst clock
  rw [LoadLaw, ticks, if_pos (by decide), ruled, unchanged] at law
  cases law

end Calendarizador.Guarantees
