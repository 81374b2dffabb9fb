import Calendarizador.Foundation.Turns
import Calendarizador.Invariant.Quanta

/-!
# Round-Robin

Two results about the quantum of Round-Robin. While nothing but timer interrupts happens, the
running and the ready threads take turns of exactly one quantum, in the order of the ready
list. When threads also block and yield, a turn is a full quantum only for a thread whose
counter was zero when it gave up the CPU: the counter survives, and the next dispatch
continues with it.
-/
namespace Calendarizador.Guarantees
open Foundation Source List

/-- Ticks of a run, and how many of them each thread was charged. -/
structure TickLog where
  ticks : Nat
  charged : Page → Nat

def logTick (k : Kernel) (e : Event) (_ : Kernel) (log : TickLog) : TickLog :=
  match e with
  | .timer => ⟨log.ticks + 1, Function.update log.charged k.current (log.charged k.current + 1)⟩
  | _ => log

/-- The runs from one state, which need not be reachable. -/
def runsFrom (start : Kernel) : System (Kernel × TickLog) Event Fault :=
  System.recording ⟨fun k => k = start, step⟩ ⟨0, fun _ => 0⟩ logTick

def returnsFrom (k : Kernel) (e : Event) : Bool :=
  match opBody k e with
  | .ok (.returns _) => true
  | _ => false

/-- No thread blocks, yields, exits, is created or wakes, and none becomes the idle thread.
The running thread may do anything else between two ticks. -/
def Undisturbed (s : Kernel × TickLog) (e : Event) : Prop :=
  match e with
  | .timer => dueSleepers (atTick s.1) = []
  | .idleSet => False
  | e => e.creates = none ∧ enqueues s.1 e = [] ∧ returnsFrom s.1 e = true

instance (s : Kernel × TickLog) (e : Event) : Decidable (Undisturbed s e) := by
  unfold Undisturbed
  split <;> infer_instance

/-- The running thread and then the ready ones. -/
def turns (k : Kernel) : List Page := k.current :: k.readyList

section
variable {start k after : Kernel} {log : QuantumLog} {e : Event} {p : Page}

/-- A tick on which nobody wakes. -/
structure RoundRobinTicked (k after : Kernel) : Prop where
  mode : after.mode = k.mode
  idleThread : after.idleThread = k.idleThread
  ticks : ∀ p, (after.thread p).ticks = ticksAfter k p .timer
  turns : turns after = if charge k ≥ quantum then k.readyList ++ [k.current] else turns k

theorem wakeSleepers_none {ticked : Kernel} (clock : ticked.ticks = (atTick k).ticks)
    (queue : ticked.waitList = k.waitList)
    (wakeup : ∀ p, (ticked.thread p).wakeupTime = (k.thread p).wakeupTime)
    (nobody : dueSleepers (atTick k) = []) : wakeSleepers ticked.waitList ticked = .ok ticked := by
  have same : (atTick k).waitList = k.waitList := rfl
  rw [dueSleepers, same] at nobody
  rw [queue]
  cases list : k.waitList with
  | nil => rfl
  | cons t rest =>
    rw [list, takeWhile_cons] at nobody
    split at nobody
    · cases nobody
    · rename_i early
      have later : ticked.ticks < (ticked.thread t).wakeupTime := by
        rw [clock, wakeup]
        rw [decide_eq_true_eq, not_le] at early
        exact early
      rw [wakeSleepers, if_pos later]

/-- A thread other than the idle thread that yields goes behind the ready ones. -/
theorem threadYield_schedules (notIdle : k.idleThread ≠ some k.current) :
    ∃ after, (threadYield k).finish = .ok after ∧ turns after = k.readyList ++ [k.current] ∧
      after.mode = k.mode ∧ after.idleThread = k.idleThread ∧
      ∀ p, (after.thread p).ticks = (k.thread p).ticks := by
  obtain ⟨yielded, outcome⟩ : ∃ yielded, threadYield k = .schedules yielded := ⟨_, rfl⟩
  have queue : yielded.readyList = k.readyList ++ [k.current] := by
    cases outcome
    exact if_pos notIdle
  have waits : yielded.status yielded.current ≠ .running := by
    cases outcome
    change ((stampWait k k.current).setStatus k.current .ready).status k.current ≠ .running
    simp
  have ticks : ∀ p, (yielded.thread p).ticks = (k.thread p).ticks := by
    have same := threadYield_ticks k
    rwa [outcome] at same
  have control : yielded.mode = k.mode ∧ yielded.idleThread = k.idleThread := by
    cases outcome
    exact ⟨rfl, rfl⟩
  obtain ⟨next, rest, list⟩ : ∃ next rest, yielded.readyList = next :: rest := by
    rw [queue]
    cases k.readyList with
    | nil => exact ⟨_, _, rfl⟩
    | cons next rest => exact ⟨_, _, rfl⟩
  refine ⟨dispatch { yielded with readyList := rest } next, ?_, ?_, ?_, ?_, fun p => ?_⟩
  · rw [outcome, Outcome.finish, schedule, nextThreadToRun, list]
    exact if_neg waits
  · rw [turns, dispatch_current, dispatch_readyList, ← queue, list]
  · rw [dispatch_mode]
    exact control.1
  · rw [dispatch_idleThread]
    exact control.2
  · rw [dispatch_counters]
    exact ticks p

/-- Such a tick never faults. -/
theorem timer_step (mode : k.mode = .roundrobin) (enabled : (k.code k.current).interruptible = true)
    (notIdle : k.idleThread ≠ some k.current) (nobody : dueSleepers (atTick k) = []) :
    ∃ after, step k .timer = .ok after ∧ RoundRobinTicked k after := by
  obtain ⟨ticked, counted⟩ : ∃ ticked, roundRobinTick (countTick (atTick k)) = ticked := ⟨_, rfl⟩
  have ticks : ∀ p, (ticked.thread p).ticks = ticksAfter k p .timer :=
    counted ▸ roundRobinTick_ticks k
  have yields : ticked.yieldOnReturn = decide (charge k ≥ quantum) :=
    counted ▸ roundRobinTick_yields k
  have control : ticked.mode = k.mode ∧ ticked.idleThread = k.idleThread ∧
      ticked.current = k.current ∧ ticked.readyList = k.readyList := by
    cases counted
    exact ⟨rfl, rfl, rfl, rfl⟩
  have woke : wakeSleepers ticked.waitList ticked = .ok ticked := by
    cases counted
    exact wakeSleepers_none rfl rfl (Kernel.keeps_upd (fun t => t.wakeupTime)
      (countTick (atTick k)) k.current _ (fun _ => rfl)) nobody
  have body : opBody k .timer = .ok
      (if ticked.yieldOnReturn = true then threadYield ticked else .returns ticked) := by
    have charged : threadTick { ({ k with yieldOnReturn := false } : Kernel) with
      ticks := k.ticks + 1 } = .ok ticked := counted ▸ threadTick_roundrobin mode
    simp only [opBody, intrHandler, timerInterrupt, charged, woke, bind, Except.bind]
  have able : Event.enabled k .timer = true := enabled
  rw [step, if_pos able, body, yields]
  by_cases expired : charge k ≥ quantum
  · obtain ⟨after, finished, order, same, idle, counters⟩ :=
      threadYield_schedules (k := ticked) (by rw [control.2.1, control.2.2.1]; exact notIdle)
    rw [decide_eq_true expired, if_pos rfl]
    refine ⟨after, finished, same.trans control.1, idle.trans control.2.1,
      fun p => (counters p).trans (ticks p), ?_⟩
    rw [if_pos expired, order, control.2.2.1, control.2.2.2]
  · rw [decide_eq_false expired, if_neg Bool.false_ne_true]
    refine ⟨ticked, rfl, control.1, control.2.1, ticks, ?_⟩
    rw [if_neg expired, turns, turns, control.2.2.1, control.2.2.2]

/-- Between ticks the running thread changes neither the order nor a counter. -/
theorem undisturbed_call {log : TickLog} (mode : k.mode = .roundrobin) (call : e ≠ .timer)
    (fine : Undisturbed (k, log) e) (taken : step k e = .ok after) :
    after.mode = k.mode ∧ after.idleThread = k.idleThread ∧ turns after = turns k ∧
      ∀ p, (after.thread p).ticks = (k.thread p).ticks := by
  obtain ⟨notSet, none, quiet, returned⟩ : e ≠ .idleSet ∧ e.creates = none ∧ enqueues k e = [] ∧
      returnsFrom k e = true := by
    cases e with
    | timer => exact absurd rfl call
    | idleSet => exact fine.elim
    | _ => exact ⟨by rintro ⟨⟩, fine⟩
  have body : opBody k e = .ok (.returns after) := by
    obtain ⟨_, body | ⟨ready, body, _⟩⟩ := step_effects taken
    · exact body
    · rw [returnsFrom, body] at returned
      cases returned
  have ready : after.readyList = k.readyList ++ enqueues k e :=
    call_enqueues (by simp [mode]) (by simp [mode]) call body
  rcases opBody_control body with same | ⟨set, _⟩
  · refine ⟨same.mode, same.idleThread, ?_, fun p => ?_⟩
    · have current : after.current = k.current := same.current
      rw [turns, turns, current, ready, quiet, append_nil]
    · have counters : (after.thread p).ticks = ticksAfter k p e := opBody_ticks mode body p
      rw [counters]
      cases e with
      | timer => exact absurd rfl call
      | _ => simp only [ticksAfter, none, Option.map_none, reduceCtorEq, if_false]
  · exact absurd set notSet

/-- The state after `log.ticks` undisturbed ticks. -/
structure Rotated (start k : Kernel) (log : TickLog) : Prop where
  mode : k.mode = .roundrobin
  idleThread : k.idleThread = start.idleThread
  order : turns k = (turns start).rotate (log.ticks / quantum)
  counter : (k.thread k.current).ticks = (log.ticks % quantum : Nat)
  others : ∀ p ∈ k.readyList, (k.thread p).ticks = 0
  charged : ∀ i p, (turns start)[i]? = some p →
    log.charged p = share (turns start).length quantum log.ticks i

theorem Rotated.call {log : TickLog} (h : Rotated start k log) (call : e ≠ .timer)
    (fine : Undisturbed (k, log) e) (taken : step k e = .ok after) :
    Rotated start after (logTick k e after log) := by
  obtain ⟨mode, idle, order, ticks⟩ := undisturbed_call h.mode call fine taken
  have same : logTick k e after log = log := by
    cases e with
    | timer => exact absurd rfl call
    | _ => rfl
  obtain ⟨current, ready⟩ := List.cons.inj order
  rw [same]
  refine ⟨mode.trans h.mode, idle.trans h.idleThread, order.trans h.order, ?_, ?_, h.charged⟩
  · rw [ticks, current, h.counter]
  · intro p member
    rw [ticks]
    exact h.others p (ready ▸ member)

theorem Rotated.charge_eq {log : TickLog} (h : Rotated start k log) :
    charge k = (log.ticks % quantum + 1 : Nat) := by
  have below : log.ticks % quantum < 7 := Nat.mod_lt _ (by decide)
  rw [charge, h.counter]
  rw [i32_of_bounds _ (by omega) (by omega)]
  rfl

theorem Rotated.timer {log : TickLog} (h : Rotated start k log) (distinct : (turns start).Nodup)
    (ticked : RoundRobinTicked k after) : Rotated start after (logTick k .timer after log) := by
  have length : 0 < (turns start).length := Nat.succ_pos _
  have front := rotate_front h.order
  have charged : ∀ i p, (turns start)[i]? = some p →
      (logTick k .timer after log).charged p =
        share (turns start).length quantum (log.ticks + 1) i := by
    intro i p here
    obtain ⟨bound, _⟩ := List.getElem?_eq_some_iff.mp here
    rw [share_succ length (by decide) _ bound, ← h.charged i p here]
    change Function.update log.charged k.current _ p = _
    by_cases own : p = k.current
    · subst own
      have turn : i = log.ticks / quantum % (turns start).length :=
        (List.getElem?_inj bound distinct).mp (here.trans front.symm)
      rw [Function.update_self, if_pos turn]
    · have other : i ≠ log.ticks / quantum % (turns start).length := by
        rintro rfl
        exact own (Option.some.inj (here.symm.trans front))
      rw [Function.update_of_ne own, if_neg other, Nat.add_zero]
  have notReady : k.current ∉ k.readyList := by
    have nodup : (turns k).Nodup := h.order ▸ (nodup_rotate.mpr distinct)
    exact (nodup_cons.mp nodup).1
  have expires : charge k ≥ quantum ↔ log.ticks % quantum + 1 = quantum := by
    have below : log.ticks % quantum < 7 := Nat.mod_lt _ (by decide)
    rw [h.charge_eq, quantum]
    omega
  rcases succ_div_mod (q := quantum) (by decide) log.ticks with
    ⟨inside, turn, tick⟩ | ⟨last, turn, tick⟩
  · have running : ¬ charge k ≥ quantum := by
      rw [expires]
      omega
    obtain ⟨current, ready⟩ := List.cons.inj (ticked.turns.trans (if_neg running))
    refine ⟨ticked.mode.trans h.mode, ticked.idleThread.trans h.idleThread, ?_, ?_, ?_, charged⟩
    · rw [ticked.turns, if_neg running, h.order]
      simp only [logTick, turn]
    · rw [ticked.ticks, current, ticksAfter, if_pos rfl, if_neg running, h.charge_eq]
      simp only [logTick, tick]
    · intro p member
      rw [ready] at member
      have other : p ≠ k.current := fun same => notReady (same ▸ member)
      rw [ticked.ticks, ticksAfter, if_neg other, h.others p member]
  · have expired : charge k ≥ quantum := expires.mpr last
    have order : turns after = (turns start).rotate (log.ticks / quantum + 1) := by
      rw [ticked.turns, if_pos expired]
      exact rotate_turn h.order
    -- The counter that expired is reset and all others were zero.
    have zero : ∀ p ∈ turns after, (after.thread p).ticks = 0 := by
      intro p member
      rw [ticked.turns, if_pos expired, mem_append, mem_singleton] at member
      rw [ticked.ticks, ticksAfter]
      by_cases own : p = k.current
      · rw [if_pos own, if_pos expired]
      · rw [if_neg own, h.others p (member.resolve_right own)]
    refine ⟨ticked.mode.trans h.mode, ticked.idleThread.trans h.idleThread, ?_, ?_,
      fun p member => zero p (mem_cons_of_mem _ member), charged⟩
    · simp only [logTick, turn, order]
    · rw [zero after.current mem_cons_self]
      simp only [logTick, tick]
      rfl

theorem reachable_rotated (mode : start.mode = .roundrobin) (distinct : (turns start).Nodup)
    (notIdle : ∀ p ∈ turns start, start.idleThread ≠ some p)
    (fresh : ∀ p ∈ turns start, (start.thread p).ticks = 0) {log : TickLog}
    (run : ReachableWhile (runsFrom start) Undisturbed (k, log)) : Rotated start k log := by
  refine (ReachableWhile.recorded ?_ ?_ run).2
  · rintro s rfl
    refine ⟨mode, rfl, (rotate_zero _).symm, fresh _ mem_cons_self,
      fun p member => fresh p (mem_cons_of_mem _ member), fun i p _ => ?_⟩
    rw [share_zero]
  · intro s log e after _ rotated fine taken
    by_cases tick : e = .timer
    · subst tick
      have member : s.current ∈ turns start := by
        rw [← mem_rotate (n := log.ticks / quantum), ← rotated.order]
        exact mem_cons_self
      obtain ⟨next, stepped, ticked⟩ := timer_step rotated.mode (step_effects taken).1
        (rotated.idleThread ▸ notIdle _ member) fine
      cases stepped.symm.trans taken
      exact rotated.timer distinct ticked
    · exact rotated.call tick fine taken

/-- Round-Robin rotation: from any state whose running and ready threads have fresh counters,
after `turn * quantum + tick` ticks the thread at `turn` modulo their number runs and has
used `tick` ticks of its quantum, the others have zero and stand in the rotated order, all
have received the same number of ticks up to one quantum, and the next tick is taken. -/
theorem round_robin_rotation (start k : Kernel) (log : TickLog) (mode : start.mode = .roundrobin)
    (distinct : (turns start).Nodup) (notIdle : ∀ p ∈ turns start, start.idleThread ≠ some p)
    (fresh : ∀ p ∈ turns start, (start.thread p).ticks = 0)
    (run : ReachableWhile (runsFrom start) Undisturbed (k, log)) :
    (∀ turn tick, log.ticks = turn * quantum + tick → tick < quantum →
      (turns start)[turn % (turns start).length]? = some k.current ∧
      (k.thread k.current).ticks = tick ∧ (∀ p ∈ k.readyList, (k.thread p).ticks = 0) ∧
      k.readyList = ((turns start).rotate turn).tail) ∧
    (∀ p ∈ turns start, ∀ q ∈ turns start, log.charged p ≤ log.charged q + quantum) ∧
    ((k.code k.current).interruptible = true → dueSleepers (atTick k) = [] →
      ∃ after, step k .timer = .ok after) := by
  have rotated := reachable_rotated mode distinct notIdle fresh run
  refine ⟨fun turn tick total bound => ?_, fun p left q right => ?_, fun able nobody => ?_⟩
  · obtain ⟨block, rest⟩ : log.ticks / quantum = turn ∧ log.ticks % quantum = tick :=
      (Nat.div_mod_unique (by decide)).mpr ⟨by rw [total]; ring, bound⟩
    have order := rotated.order
    rw [block] at order
    refine ⟨rotate_front order, ?_, rotated.others, ?_⟩
    · rw [rotated.counter, rest]
    · rw [← order, turns, tail_cons]
  · obtain ⟨i, first⟩ := mem_iff_getElem?.mp left
    obtain ⟨j, second⟩ := mem_iff_getElem?.mp right
    rw [rotated.charged i p first, rotated.charged j q second]
    exact share_fair (by decide) _ _ _ _
  · have member : k.current ∈ turns start := by
      rw [← mem_rotate (n := log.ticks / quantum), ← rotated.order]
      exact mem_cons_self
    obtain ⟨after, stepped, _⟩ := timer_step rotated.mode able
      (rotated.idleThread ▸ notIdle _ member) nobody
    exact ⟨after, stepped⟩

/-- Three threads with `main` running: after ten ticks the first created one is in the
fourth tick of its quantum. -/
theorem round_robin_rotation_three : ∃ start k log, turns start = [0, 2, 3] ∧
    ReachableWhile (runsFrom start) Undisturbed (k, log) ∧ log.ticks = 1 * quantum + 3 ∧
    k.current = 2 ∧ (k.thread k.current).ticks = 3 ∧ k.readyList = [3, 0] ∧
    log.charged 0 ≤ log.charged 3 + quantum := by
  obtain ⟨start, _, mode, order, idle, counters, ⟨k, log⟩, ran, ticks⟩ :=
    execute_holds .roundrobin (threadStart ++
      [.create (some 2) ['a'] 0, .unblock 2, .create (some 3) ['b'] 0, .unblock 3])
    (P := fun start => start.mode = .roundrobin ∧ turns start = [0, 2, 3] ∧
      start.idleThread = some 1 ∧ (∀ p ∈ turns start, (start.thread p).ticks = 0) ∧
        ∃ s ∈ runWhile (runsFrom start) Undisturbed (start, ⟨0, fun _ => 0⟩)
          (List.replicate 10 .timer), s.2.ticks = 10) (by decide +kernel)
  have first : ReachableWhile (runsFrom start) Undisturbed (start, ⟨0, fun _ => 0⟩) :=
    .initial ⟨rfl, rfl⟩
  have run := first.run _ ran
  obtain ⟨rotation, fair, _⟩ := round_robin_rotation start k log mode (by rw [order]; decide)
    (by simp [order, idle]) counters run
  obtain ⟨runs, used, _, queue⟩ := rotation 1 3 ticks (by decide)
  rw [order] at runs queue fair
  exact ⟨start, k, log, order, run, ticks, (Option.some.inj runs).symm, used, queue,
    fair 0 (by decide) 3 (by decide)⟩

/-- Ticks charged to the running thread since its last dispatch, and its counter then. -/
structure QuantumLog where
  charged : Nat
  atDispatch : Int
  deriving DecidableEq, Repr

def logQuantum (k : Kernel) (e : Event) (after : Kernel) (log : QuantumLog) : QuantumLog :=
  match opBody k e with
  | .ok (.schedules _) => ⟨0, (after.thread after.current).ticks⟩
  | _ =>
    match e with
    | .timer => { log with charged := log.charged + 1 }
    | _ => log

theorem logQuantum_schedules {k ready after : Kernel} (body : opBody k e = .ok (.schedules ready)) :
    logQuantum k e after log = ⟨0, (after.thread after.current).ticks⟩ := by
  unfold logQuantum
  rw [body]

theorem logQuantum_returns {k done after : Kernel} (body : opBody k e = .ok (.returns done)) :
    (logQuantum k e after log).atDispatch = log.atDispatch ∧
      (e = .timer → (logQuantum k e after log).charged = log.charged + 1) ∧
      (e ≠ .timer → (logQuantum k e after log).charged = log.charged) := by
  unfold logQuantum
  rw [body]
  cases e with
  | timer => exact ⟨rfl, fun _ => rfl, fun no => absurd rfl no⟩
  | _ => exact ⟨rfl, by rintro ⟨⟩, fun _ => rfl⟩

/-- Round-Robin with the account of the current turn. -/
def quantumRun : System (Kernel × QuantumLog) Event Fault :=
  (kernelSystem .roundrobin).recording ⟨0, 0⟩ logQuantum

/-- The thread `p` does not block or yield with a part of its quantum used. -/
def KeepsQuantum (p : Page) (s : Kernel × QuantumLog) (e : Event) : Prop :=
  match e with
  | .exitFinish => True
  | e => s.1.current = p → GivesUp s.1 e → (s.1.thread p).ticks = 0

instance (p : Page) (s : Kernel × QuantumLog) (e : Event) : Decidable (KeepsQuantum p s e) := by
  unfold KeepsQuantum
  split <;> infer_instance

/-- What the account says. -/
structure Charged (k : Kernel) (log : QuantumLog) : Prop where
  range : ∀ p, 0 ≤ (k.thread p).ticks ∧ (k.thread p).ticks < quantum
  counter : (k.thread k.current).ticks = log.atDispatch + log.charged

theorem charge_eq (range : 0 ≤ (k.thread k.current).ticks ∧ (k.thread k.current).ticks < quantum) :
    charge k = (k.thread k.current).ticks + 1 := by
  simp only [quantum] at range
  exact i32_of_bounds _ (by omega) (by omega)

theorem ticksAfter_range (e : Event)
    (range : ∀ p, 0 ≤ (k.thread p).ticks ∧ (k.thread p).ticks < quantum) :
    0 ≤ ticksAfter k p e ∧ ticksAfter k p e < quantum := by
  have zero : (0 : Int) ≤ 0 ∧ (0 : Int) < quantum := by decide
  cases e with
  | timer =>
    simp only [ticksAfter]
    split
    · split
      · exact zero
      · rename_i below
        have now := range k.current
        have charged := charge_eq now
        constructor <;> omega
    · exact range p
  | _ =>
    simp only [ticksAfter]
    split
    · exact zero
    · exact range p

/-- Old threads keep their counters in a call. -/
theorem ticksAfter_call (h : Inv k) (call : e ≠ .timer) (enabled : e.enabled k = true)
    {outcome : Outcome} (taken : opBody k e = .ok outcome) (used : k.allocated p = true) :
    ticksAfter k p e = (k.thread p).ticks := by
  have old : e.creates.map Prod.fst ≠ some p := by
    intro creates
    obtain ⟨⟨q, name⟩, some, rfl⟩ := Option.map_eq_some_iff.mp creates
    exact created_fresh h enabled taken used some
  cases e with
  | timer => exact absurd rfl call
  | _ => simp only [ticksAfter, if_neg old]

theorem schedule_ticks (taken : schedule k = .ok after) (p : Page) :
    (after.thread p).ticks = (k.thread p).ticks := by
  obtain ⟨_, next, rest, _, rfl⟩ := schedule_effects taken
  exact dispatch_counters _ next p

theorem Charged.step (inv : Inv k) (mode : k.mode = .roundrobin) (h : Charged k log)
    (taken : Source.step k e = .ok after) : Charged after (logQuantum k e after log) := by
  obtain ⟨enabled, body | ⟨ready, body, scheduled⟩⟩ := step_effects taken
  · have ticks : ∀ p, (after.thread p).ticks = ticksAfter k p e := opBody_ticks mode body
    have current : after.current = k.current := (opBody_current body).1
    refine ⟨fun p => ticks p ▸ ticksAfter_range e h.range, ?_⟩
    obtain ⟨before, charged, same⟩ := logQuantum_returns (k := k) body
    rw [ticks, current, before]
    by_cases tick : e = .timer
    · subst tick
      have running : ¬ charge k ≥ quantum := by
        intro expired
        obtain ⟨ready, no⟩ := (intrHandler_roundrobin mode body).2.mpr expired
        cases no
      rw [ticksAfter, if_pos rfl, if_neg running, charge_eq (h.range k.current), h.counter,
        charged rfl]
      omega
    · rw [ticksAfter_call inv tick enabled body inv.live.1, h.counter, same tick]
  · have ticks : ∀ p, (after.thread p).ticks = ticksAfter k p e :=
      fun p => (schedule_ticks scheduled p).trans (opBody_ticks mode body p)
    refine ⟨fun p => ticks p ▸ ticksAfter_range e h.range, ?_⟩
    rw [logQuantum_schedules body]
    exact (Int.add_zero _).symm

theorem threadInit_ticks {mode : Mode} {values : Nat → Nat}
    (booted : threadInit mode values = .ok k) (p : Page) : (k.thread p).ticks = 0 := by
  obtain ⟨made, effects, rfl⟩ := threadInit_effects booted
  have fresh : (made.thread p).ticks = 0 := by
    rw [effects.thread]
    split <;> rfl
  rw [Kernel.upd_thread]
  split
  · rename_i here
    subst here
    exact fresh
  · exact fresh

theorem reachable_charged (h : Reachable quantumRun (k, log)) :
    Reachable (kernelSystem .roundrobin) k ∧ Charged k log := by
  refine Reachable.recorded ?_ ?_ h
  · rintro s ⟨values, booted⟩
    have zero := threadInit_ticks booted
    refine ⟨fun p => ?_, zero _⟩
    rw [zero]
    decide
  · intro s log e after reached charged taken
    exact charged.step (reachable_inv reached) (reachable_mode reached) taken

/-- A thread that keeps its quantum has a fresh counter whenever it does not run. -/
structure FullTurns (p : Page) (k : Kernel) (log : QuantumLog) : Prop where
  waiting : p ≠ k.current → k.Live p → (k.thread p).ticks = 0
  running : p = k.current → log.atDispatch = 0

/-- When `schedule` is called the thread has a fresh counter or is dead. -/
theorem FullTurns.gives_up (inv : Inv k) (mode : k.mode = .roundrobin) (h : FullTurns p k log)
    (fine : KeepsQuantum p (k, log) e) {ready : Kernel} (enabled : e.enabled k = true)
    (body : opBody k e = .ok (.schedules ready)) (alive : ready.Live p) : ticksAfter k p e = 0 := by
  by_cases own : p = k.current
  · by_cases tick : e = .timer
    · subst tick
      have expired := (intrHandler_roundrobin mode body).2.mp ⟨ready, rfl⟩
      rw [ticksAfter, if_pos own, if_pos expired]
    · have stops := opBody_givesUp tick body
      rw [ticksAfter_call inv tick enabled body (own ▸ inv.live.1)]
      cases e with
      | exitFinish => exact absurd own ((exitFinish_live inv enabled body p).mp alive).2
      | timer => exact absurd rfl tick
      | _ => exact fine own.symm stops
  · rcases (opBody_live inv enabled body).1 p alive with was | ⟨_, name, creates⟩
    · by_cases tick : e = .timer
      · subst tick
        rw [ticksAfter, if_neg own, h.waiting own was]
      · rw [ticksAfter_call inv tick enabled body was.1, h.waiting own was]
    · cases e with
      | timer => cases creates
      | _ => simp only [ticksAfter, creates, Option.map_some, if_true]

theorem FullTurns.step (inv : Inv k) (mode : k.mode = .roundrobin) (h : FullTurns p k log)
    (fine : KeepsQuantum p (k, log) e) (taken : Source.step k e = .ok after) :
    FullTurns p after (logQuantum k e after log) := by
  obtain ⟨enabled, body | ⟨ready, body, scheduled⟩⟩ := step_effects taken
  · have ticks : (after.thread p).ticks = ticksAfter k p e := opBody_ticks mode body p
    have current : after.current = k.current := (opBody_current body).1
    constructor
    · intro other alive
      rw [current] at other
      rw [ticks]
      rcases (opBody_live inv enabled body).1 p alive with was | ⟨_, name, creates⟩
      · by_cases tick : e = .timer
        · subst tick
          rw [ticksAfter, if_neg other, h.waiting other was]
        · rw [ticksAfter_call inv tick enabled body was.1, h.waiting other was]
      · cases e with
        | timer => cases creates
        | _ => simp only [ticksAfter, creates, Option.map_some, if_true]
    · intro own
      exact (logQuantum_returns body).1.trans (h.running (own.trans current))
  · have core : Core ready := (opBody_inv inv e enabled body).core
    have ticks : (after.thread p).ticks = ticksAfter k p e :=
      (schedule_ticks scheduled p).trans (opBody_ticks mode body p)
    have fresh : after.Live p → (after.thread p).ticks = 0 := by
      intro alive
      rw [ticks]
      exact h.gives_up inv mode fine enabled body
        (((schedule_switched core scheduled).live p).mp alive)
    refine ⟨fun _ => fresh, fun own => ?_⟩
    rw [logQuantum_schedules body]
    rw [← own]
    exact fresh (own ▸ (step_inv inv taken).live)

theorem reachable_fullTurns (h : ReachableWhile quantumRun (KeepsQuantum p) (k, log)) :
    FullTurns p k log := by
  refine (ReachableWhile.recorded ?_ ?_ h).2
  · rintro s ⟨values, booted⟩
    exact ⟨fun _ _ => threadInit_ticks booted p, fun _ => rfl⟩
  · intro s log e after reached full fine taken
    exact full.step (reachable_inv reached) (reachable_mode reached) fine taken

/-- A preempted thread has been charged a full quantum since its last dispatch exactly if its
counter was zero at that dispatch, and in every run in which it never blocks or yields with a
part of its quantum used this is so. -/
theorem round_robin_quantum (k ready : Kernel) (log : QuantumLog)
    (h : Reachable quantumRun (k, log)) (preempted : opBody k .timer = .ok (.schedules ready)) :
    (log.charged + 1 = quantum ↔ log.atDispatch = 0) ∧
    (ReachableWhile quantumRun (KeepsQuantum k.current) (k, log) →
      log.charged + 1 = quantum) := by
  obtain ⟨reached, charged⟩ := reachable_charged h
  have expired := (intrHandler_roundrobin (reachable_mode reached) preempted).2.mp ⟨ready, rfl⟩
  have range := charged.range k.current
  have counter := charged.counter
  rw [charge_eq range] at expired
  have exact_ : log.charged + 1 = quantum ↔ log.atDispatch = 0 := by omega
  exact ⟨exact_, fun keeps => exact_.mpr ((reachable_fullTurns keeps).running rfl)⟩

/-- A thread that runs without interruption is preempted on its seventh tick. -/
theorem round_robin_quantum_whole : ∃ k ready log,
    ReachableWhile quantumRun (KeepsQuantum k.current) (k, log) ∧ k.current = 2 ∧
    opBody k .timer = .ok (.schedules ready) ∧ log.charged + 1 = quantum := by
  have executed : (do
      let start ← (threadInit .roundrobin fun _ => 0).toOption
      let s ← runWhile quantumRun (KeepsQuantum 2) (start, ⟨0, 0⟩) (threadStart ++
        [.create (some 2) ['a'] 0, .unblock 2, .block] ++ List.replicate 6 .timer)
      some (s.1.current, (schedulesFrom s.1 .timer).isSome)) = some (2, true) := by decide +kernel
  obtain ⟨start, booted, executed⟩ := Option.bind_eq_some_iff.mp executed
  obtain ⟨⟨k, log⟩, ran, facts⟩ := Option.bind_eq_some_iff.mp executed
  simp only [Option.some.injEq, Prod.mk.injEq] at facts
  obtain ⟨current, yields⟩ := facts
  obtain ⟨ready, schedules⟩ := Option.isSome_iff_exists.mp yields
  have body := schedulesFrom_eq_some schedules
  have first : ReachableWhile quantumRun (KeepsQuantum 2) (start, ⟨0, 0⟩) :=
    .initial ⟨⟨_, toOption_eq_some booted⟩, rfl⟩
  have run : ReachableWhile quantumRun (KeepsQuantum k.current) (k, log) :=
    current ▸ first.run _ ran
  exact ⟨k, ready, log, run, current, body,
    (round_robin_quantum k ready log run.reachable body).2 run⟩

/-- A thread runs for three ticks, waits on a semaphore and runs again: it is preempted on
the fourth tick after its dispatch. -/
theorem round_robin_quantum_short : ∃ k ready log, Reachable quantumRun (k, log) ∧
    k.current = 2 ∧ opBody k .timer = .ok (.schedules ready) ∧ log.charged + 1 = 4 ∧
    log.charged + 1 ≠ quantum := by
  obtain ⟨⟨k, log⟩, reached, current, charged, ready, schedules, _⟩ := executeRecording_holds
    .roundrobin ⟨0, 0⟩ logQuantum (threadStart ++
      ([.create (some 2) ['a'] 0, .unblock 2, .block, .timer, .timer, .timer, .semaDown 0,
        .semaUp 0, .idleBlock, .semaRetry, .timer, .timer, .timer] : List Event))
    (P := fun s => s.1.current = 2 ∧ s.2.charged = 3 ∧ ∃ ready ∈ schedulesFrom s.1 .timer, True)
    (by decide +kernel)
  exact ⟨k, ready, log, reached, current, schedulesFrom_eq_some schedules, by rw [charged],
    by rw [charged]; decide⟩

end
end Calendarizador.Guarantees
