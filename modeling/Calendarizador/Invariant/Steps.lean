import Calendarizador.Invariant.Core
import Calendarizador.Source.Accounting
import Calendarizador.Source.Creation

/-!
# The operations keep the representation invariant

Each operation moves at most one thread. `Core.change` reduces the invariant of the new
state to that thread, and the lemmas after it are the moves: a wait, a wake-up, a
creation, an exit and the changes of code in between.
-/
namespace Calendarizador.Source
open Foundation List

section
variable {k after : Kernel} {t p : Page} {c : Code} {list : List Page} {s : SemaId}

theorem Core.change (h : Core k) (control : SameControl k after) (c : Page)
    (others : ∀ p, p ≠ c → SameFor k after p) (here : ThreadOk after c)
    (all_nodup : after.allList.Nodup) (ready_nodup : after.readyList.Nodup)
    (waiters_nodup : ∀ s, (after.sema s).waiters.Nodup) (wait_nodup : after.waitList.Nodup)
    (allocated : k.allocated c = true → after.allocated c = true)
    (entry : after.Live c → after.code c = .idleEntry → (k.Live c ∧ k.code c = .idleEntry) ∨
      ∀ q, k.Live q → k.code q ≠ .idleEntry ∧ k.code q ≠ .start)
    (start : after.Live c → after.code c = .start → k.Live c ∧ k.code c = .start) : Core after := by
  have allocatedAll : ∀ p, k.allocated p = true → after.allocated p = true := by
    intro p used
    by_cases same : p = c
    · subst same
      exact allocated used
    · rwa [(others p same).allocated]
  have started : ∀ p, after.Live p → after.code p = .start → k.Live p ∧ k.code p = .start := by
    intro p alive early
    by_cases same : p = c
    · subst same
      exact start alive early
    · have kept := others p same
      exact ⟨kept.live.mp alive, kept.code ▸ early⟩
  have enters : ∀ p, after.Live p → after.code p = .idleEntry →
      (k.Live p ∧ k.code p = .idleEntry) ∨
        p = c ∧ ∀ q, k.Live q → k.code q ≠ .idleEntry ∧ k.code q ≠ .start := by
    intro p alive enter
    by_cases same : p = c
    · subst same
      exact (entry alive enter).imp id fun fresh => ⟨rfl, fresh⟩
    · have kept := others p same
      exact .inl ⟨kept.live.mp alive, kept.code ▸ enter⟩
  refine ⟨all_nodup, ready_nodup, waiters_nodup, wait_nodup, ?_, ?_, ?_, ?_, ?_⟩
  · intro p
    by_cases same : p = c
    · subst same
      exact here
    · exact (h.threads p).frame (others p same) control
  · intro p q alivep aliveq enterp enterq
    rcases enters p alivep enterp with ⟨oldp, codep⟩ | ⟨rfl, fresh⟩
    · rcases enters q aliveq enterq with ⟨oldq, codeq⟩ | ⟨rfl, fresh⟩
      · exact h.entry_unique p q oldp oldq codep codeq
      · exact absurd codep (fresh p oldp).1
    · rcases enters q aliveq enterq with ⟨oldq, codeq⟩ | ⟨rfl, _⟩
      · exact absurd codeq (fresh q oldq).1
      · rfl
  · intro p alive early
    obtain ⟨oldp, codep⟩ := started p alive early
    obtain ⟨first, unset, noneEnters⟩ := h.start p oldp codep
    refine ⟨first.trans control.initialThread.symm, control.idleThread.trans unset,
      fun q aliveq enter => ?_⟩
    rcases enters q aliveq enter with ⟨oldq, codeq⟩ | ⟨_, fresh⟩
    · exact noneEnters q oldq codeq
    · exact (fresh p oldp).2 codep
  · rw [control.initialThread]
    exact allocatedAll _ h.initial_allocated
  · rw [control.current]
    exact allocatedAll _ h.current_allocated

/-- A change that no page notices keeps the invariant of the threads. -/
theorem Core.frame (h : Core k) (control : SameControl k after) (each : ∀ p, SameFor k after p)
    (all_nodup : after.allList.Nodup) (ready_nodup : after.readyList.Nodup)
    (waiters_nodup : ∀ s, (after.sema s).waiters.Nodup) (wait_nodup : after.waitList.Nodup) :
    Core after := by
  have same := each k.current
  refine h.change control k.current (fun p _ => each p) ((h.threads _).frame same control) all_nodup
    ready_nodup waiters_nodup wait_nodup (fun used => same.allocated.trans used) ?_ ?_
  · exact fun alive enter => .inl ⟨same.live.mp alive, same.code ▸ enter⟩
  · exact fun alive early => ⟨same.live.mp alive, same.code ▸ early⟩

/-- The running thread goes on if nothing happened to it. -/
theorem Inv.goes_on (h : Inv k) (core : Core after) (current : after.current = k.current)
    (allocated : after.allocated k.current = k.allocated k.current)
    (status : after.status k.current = k.status k.current) : Inv after := by
  refine ⟨core, ?_, ?_⟩
  · rw [current, Kernel.Live, allocated, status]
    exact h.live
  · rw [current, status]
    exact h.running

/-- A change that no page notices keeps the invariant. -/
theorem Inv.frame (h : Inv k) (control : SameControl k after) (each : ∀ p, SameFor k after p)
    (all_nodup : after.allList.Nodup) (ready_nodup : after.readyList.Nodup)
    (waiters_nodup : ∀ s, (after.sema s).waiters.Nodup) (wait_nodup : after.waitList.Nodup) :
    Inv after :=
  h.goes_on (h.core.frame control each all_nodup ready_nodup waiters_nodup wait_nodup)
    control.current (each _).allocated (each _).status

theorem Inv.current_ne (h : Inv k) (blocked : k.status t = .blocked) : k.current ≠ t := by
  rintro rfl
  rw [h.running] at blocked
  cases blocked

theorem ThreadOk.not_ready (h : ThreadOk k p) (blocked : k.status p = .blocked) :
    p ∉ k.readyList := by
  intro member
  have ready := (h.ready.mp member).2.1
  rw [blocked] at ready
  cases ready

/-- The thread `t` has the status `st` and goes on at `c`; of the lists only the queues change. -/
structure Moves (k : Kernel) (t : Page) (st : Status) (c : Code) (after : Kernel) : Prop where
  control : SameControl k after
  status : ∀ p, after.status p = if p = t then st else k.status p
  code : ∀ p, after.code p = if p = t then c else k.code p
  allocated : after.allocated = k.allocated
  allList : after.allList = k.allList
  records : after.allAllList = k.allAllList

/-- `t` is on the queues of a thread with the status `st` at `c`, and the others are where they
were. -/
structure Queued (k : Kernel) (t : Page) (st : Status) (c : Code) (after : Kernel) : Prop where
  ready : ∀ p, p ∈ after.readyList ↔
    if p = t then st = .ready ∧ k.idleThread ≠ some t else p ∈ k.readyList
  ready_nodup : after.readyList.Nodup
  waiters : ∀ s p, p ∈ (after.sema s).waiters ↔
    if p = t then st = .blocked ∧ c = .downing s else p ∈ (k.sema s).waiters
  waiters_nodup : ∀ s, (after.sema s).waiters.Nodup
  wait : ∀ p, p ∈ after.waitList ↔
    if p = t then st = .blocked ∧ c = .downing (.timer t) else p ∈ k.waitList
  wait_nodup : after.waitList.Nodup
  timer : ∀ p, (after.sema (.timer p)).value =
    if p = t then (if c = .downing (.timer t) ∧ st ≠ .blocked then 1 else 0)
    else (k.sema (.timer p)).value

theorem Moves.live {st : Status} (moves : Moves k t st c after) (alive : k.Live t)
    (notDying : st ≠ .dying) : after.Live t := by
  refine ⟨?_, ?_⟩
  · rw [moves.allocated]
    exact alive.1
  · rw [moves.status, if_pos rfl]
    exact notDying

/-- A live thread moves to a place where the invariant allows it to be. -/
theorem Core.moves (h : Core k) {st : Status} (moves : Moves k t st c after)
    (queued : Queued k t st c after) (alive : k.Live t) (notDying : st ≠ .dying)
    (running : st = .running → t = k.current) (ownTimer : ∀ q, c = .downing (.timer q) → q = t)
    (parked : c = .parked → st = .blocked) (idle : (k.code t).isIdle ↔ c.isIdle)
    (entry : c = .idleEntry → (st = .ready ∨ st = .running) ∧ (k.code t = .idleEntry ∨
      k.idleThread = none ∧ ∀ q, k.Live q → k.code q ≠ .idleEntry ∧ k.code q ≠ .start))
    (start : c = .start → k.code t = .start) : Core after := by
  have ok := h.threads t
  have control := moves.control
  have live := moves.live alive notDying
  have status : after.status t = st := by rw [moves.status, if_pos rfl]
  have code : after.code t = c := by rw [moves.code, if_pos rfl]
  refine h.change control t (fun p other => ?_) ?_ (moves.allList ▸ h.all_nodup)
    queued.ready_nodup queued.waiters_nodup queued.wait_nodup ?_ ?_ ?_
  · refine ⟨?_, ?_, ?_, ?_, ?_, fun s => ?_, ?_, fun member => .inl (moves.records ▸ member), ?_⟩
    · rw [moves.status, if_neg other]
    · rw [moves.code, if_neg other]
    · rw [moves.allocated]
    · rw [moves.allList]
    · rw [queued.ready, if_neg other]
    · rw [queued.waiters, if_neg other]
    · rw [queued.wait, if_neg other]
    · rw [queued.timer, if_neg other]
  · constructor
    · rw [moves.allList]
      exact iff_of_true (ok.all.mpr alive) live
    · rw [queued.ready, if_pos rfl, status, control.idleThread]
      exact (and_iff_right live).symm
    · intro s
      rw [queued.waiters, if_pos rfl, status, code]
      exact (and_iff_right live).symm
    · rw [queued.wait, if_pos rfl, status, code]
      exact (and_iff_right live).symm
    · rw [status, control.current]
      exact fun _ => running
    · rw [code]
      exact fun q _ => ownTimer q
    · rw [status, code]
      exact fun _ => parked
    · rw [control.idleThread, ok.idle, code, idle]
      exact and_congr_left' (iff_of_true alive live)
    · rw [status, code, control.idleThread]
      intro _ enters
      obtain ⟨able, old | new⟩ := entry enters
      · exact ⟨(ok.entry alive old).1, able⟩
      · exact ⟨new.1, able⟩
    · rw [moves.records, moves.allocated, control.mode]
      exact ok.record
    · rw [status, code, queued.timer, if_pos rfl]
      exact fun _ => rfl
  · rw [moves.allocated]
    exact id
  · rw [code]
    exact fun _ enters => (entry enters).2.imp (⟨alive, ·⟩) And.right
  · rw [code]
    exact fun _ early => ⟨alive, start early⟩

/-- A queue that stays as it is and that `t` is not on. -/
theorem mem_kept {place : Prop} (out : t ∉ list) (elsewhere : ¬ place) :
    p ∈ list ↔ if p = t then place else p ∈ list := by
  split
  · next here => exact iff_of_false (here ▸ out) elsewhere
  · rfl

/-- A queue that `t` is put on. -/
theorem mem_appended {place : Prop} (there : place) :
    p ∈ list ++ [t] ↔ if p = t then place else p ∈ list := by
  split
  · next here => exact iff_of_true (by simp [here]) there
  · next other => simp [other]

theorem SameGlobals.control (h : SameGlobals k after) : SameControl k after :=
  ⟨h.mode, h.current, h.idleThread, h.initialThread⟩

theorem Accounting.control (h : Accounting k after) : SameControl k after :=
  ⟨h.mode, h.current, h.idleThread, h.initialThread⟩

theorem nodup_appended (nodup : list.Nodup) (out : t ∉ list) : (list ++ [t]).Nodup :=
  List.Nodup.append nodup (nodup_singleton t) (by simpa using out)

/-- Bookkeeping keeps the invariant. -/
theorem Core.accounting (h : Core k) (accounts : Accounting k after) : Core after := by
  refine h.frame accounts.control (fun p => ⟨accounts.status p, accounts.code p, ?_, ?_,
    accounts.ready.mem_iff, fun s => ?_, ?_, accounts.records p, ?_⟩)
    (accounts.allList ▸ h.all_nodup) (accounts.ready.nodup_iff.mpr h.ready_nodup)
    (fun s => accounts.sema s ▸ h.waiters_nodup s) (accounts.waitList ▸ h.wait_nodup)
  · rw [accounts.allocated]
  · rw [accounts.allList]
  · rw [accounts.sema]
  · rw [accounts.waitList]
  · rw [accounts.sema]

theorem Inv.accounting (h : Inv k) (accounts : Accounting k after) : Inv after :=
  h.goes_on (h.core.accounting accounts) accounts.current (by rw [accounts.allocated])
    (accounts.status _)

/-- The running thread is on no queue. -/
theorem Inv.current_free (h : Inv k) :
    k.current ∈ k.allList ∧ k.current ∉ k.readyList ∧ k.current ∉ k.waitList ∧
      ∀ s, k.current ∉ (k.sema s).waiters := by
  have ok := h.core.threads k.current
  have running := h.running
  refine ⟨ok.all.mpr h.live, fun member => ?_, fun member => ?_, fun s member => ?_⟩
  · have ready := (ok.ready.mp member).2.1
    rw [running] at ready
    cases ready
  · have blocked := (ok.wait.mp member).2.1
    rw [running] at blocked
    cases blocked
  · have blocked := ((ok.waiters s).mp member).2.1
    rw [running] at blocked
    cases blocked

/-- The semaphore of the running thread holds nothing unless the thread is about to
return from a sleep. -/
theorem Inv.timer_zero (h : Inv k) (awake : k.code k.current ≠ .downing (.timer k.current)) :
    (k.sema (.timer k.current)).value = 0 := by
  rw [(h.core.threads k.current).timer h.live, if_neg fun both => awake both.1]

/-- The running thread changes its code between two places outside the queues. -/
theorem Inv.setCode (h : Inv k) (c : Code) (awake : k.code k.current ≠ .downing (.timer k.current))
    (idle : (k.code k.current).isIdle ↔ c.isIdle) (notDowning : ∀ s, c ≠ .downing s)
    (notParked : c ≠ .parked) (notEntry : c ≠ .idleEntry) (notStart : c ≠ .start) :
    Inv (k.setCode k.current c) := by
  have sema : ∀ s, (k.setCode k.current c).sema s = k.sema s :=
    fun s => Kernel.upd_sema k k.current _ s rfl
  obtain ⟨-, notReady, notAsleep, notWaiting⟩ := h.current_free
  have status : ∀ p, (k.setCode k.current c).status p =
      if p = k.current then .running else k.status p := by
    intro p
    by_cases here : p = k.current
    · simpa [here] using h.running
    · simp [here]
  have code : ∀ p, (k.setCode k.current c).code p = if p = k.current then c else k.code p := by
    intro p
    by_cases here : p = k.current <;> simp [here]
  have moves : Moves k k.current .running c (k.setCode k.current c) :=
    ⟨⟨rfl, rfl, rfl, rfl⟩, status, code, rfl, rfl, rfl⟩
  have queued : Queued k k.current .running c (k.setCode k.current c) := by
    refine ⟨fun p => mem_kept notReady (nomatch ·.1), h.core.ready_nodup, fun s p => ?_,
      fun s => sema s ▸ h.core.waiters_nodup s, fun p => mem_kept notAsleep (nomatch ·.1),
      h.core.wait_nodup, fun p => ?_⟩
    · rw [sema]
      exact mem_kept (notWaiting s) (nomatch ·.1)
    · rw [sema]
      split
      · next here => rw [here, h.timer_zero awake, if_neg fun both => notDowning _ both.1]
      · rfl
  refine ⟨h.core.moves moves queued h.live (by simp) (fun _ => rfl)
    (fun q down => absurd down (notDowning _)) (fun park => absurd park notParked) idle
    (fun enter => absurd enter notEntry) fun early => absurd early notStart,
    moves.live h.live (by simp), ?_⟩
  rw [moves.control.current, status, if_pos rfl]

/-- The running thread blocks on the semaphore `s`. If `s` is its own timer semaphore it
has put itself on the sleep queue as well. -/
theorem Inv.waits (h : Inv k) (control : SameControl k after)
    (empty : (k.sema (.timer k.current)).value = 0) (own : ∀ q, s = .timer q → q = k.current)
    (notIdle : ¬ (k.code k.current).isIdle)
    (status : ∀ p, after.status p = if p = k.current then .blocked else k.status p)
    (code : ∀ p, after.code p = if p = k.current then .downing s else k.code p)
    (sema : ∀ x, after.sema x = if x = s then
      { k.sema s with waiters := (k.sema s).waiters ++ [k.current] } else k.sema x)
    (allocated : after.allocated = k.allocated) (allList : after.allList = k.allList)
    (ready : after.readyList = k.readyList) (records : after.allAllList = k.allAllList)
    (wait_nodup : after.waitList.Nodup)
    (wait : ∀ p, p ∈ after.waitList ↔ p ∈ k.waitList ∨ (p = k.current ∧ s = .timer k.current)) :
    Core after := by
  obtain ⟨-, notReady, notAsleep, notWaiting⟩ := h.current_free
  have queued : Queued k k.current .blocked (.downing s) after := by
    refine ⟨fun p => ?_, ready ▸ h.core.ready_nodup, fun x p => ?_, fun x => ?_, fun p => ?_,
      wait_nodup, fun p => ?_⟩
    · rw [ready]
      exact mem_kept notReady (nomatch ·.1)
    · rw [sema]
      split
      · next same => exact same ▸ mem_appended ⟨rfl, rfl⟩
      · next other =>
        exact mem_kept (notWaiting x) fun both => other (Code.downing.inj both.2).symm
    · rw [sema]
      split
      · exact nodup_appended (h.core.waiters_nodup s) (notWaiting s)
      · exact h.core.waiters_nodup x
    · rw [wait]
      split
      · next here => simp [here, notAsleep]
      · next other => simp [other]
    · have value : (after.sema (.timer p)).value = (k.sema (.timer p)).value := by
        rw [sema]
        split
        · next same => rw [same]
        · rfl
      rw [value]
      split
      · next here => rw [here, empty, if_neg fun both => both.2 rfl]
      · rfl
  refine h.core.moves ⟨control, status, code, allocated, allList, records⟩ queued h.live (by simp)
    nofun (fun q down => own q (Code.downing.inj down)) nofun
    (iff_of_false notIdle (by simp [Code.isIdle])) nofun nofun

/-- The running thread takes a unit of the semaphore `s` and leaves `sema_down`. -/
theorem Inv.takes (h : Inv k) (own : ∀ q, s = .timer q → q = k.current)
    (notIdle : ¬ (k.code k.current).isIdle)
    (returning : k.code k.current = .downing (.timer k.current) ↔ s = .timer k.current) :
    Inv ((k.setSema s { k.sema s with value := (k.sema s).value - 1 }).setCode k.current
      .user) := by
  obtain ⟨-, notReady, notAsleep, notWaiting⟩ := h.current_free
  have sema : ∀ x,
      ((k.setSema s { k.sema s with value := (k.sema s).value - 1 }).setCode k.current .user).sema x
        = if x = s then { k.sema s with value := (k.sema s).value - 1 } else k.sema x := by
    intro x
    rw [Kernel.setCode_sema, Kernel.setSema_sema]
  have moves : Moves k k.current .running .user
      ((k.setSema s { k.sema s with value := (k.sema s).value - 1 }).setCode k.current .user) := by
    refine ⟨by constructor <;> simp, fun p => ?_, fun p => ?_, by simp, by simp, by simp⟩
    · by_cases here : p = k.current
      · simpa [here] using h.running
      · simp [here]
    · by_cases here : p = k.current <;> simp [here]
  have ready : ((k.setSema s { k.sema s with value := (k.sema s).value - 1 }).setCode k.current
      .user).readyList = k.readyList := by simp
  have wait : ((k.setSema s { k.sema s with value := (k.sema s).value - 1 }).setCode k.current
      .user).waitList = k.waitList := by simp
  generalize (k.setSema s { k.sema s with value := (k.sema s).value - 1 }).setCode k.current
    .user = after at sema moves ready wait ⊢
  have waiters : ∀ x, (after.sema x).waiters = (k.sema x).waiters := by
    intro x
    rw [sema]
    split
    · next same => rw [same]
    · rfl
  have queued : Queued k k.current .running .user after := by
    refine ⟨fun p => ?_, ready ▸ h.core.ready_nodup, fun x p => ?_,
      fun x => waiters x ▸ h.core.waiters_nodup x, fun p => ?_, wait ▸ h.core.wait_nodup,
      fun p => ?_⟩
    · rw [ready]
      exact mem_kept notReady (nomatch ·.1)
    · rw [waiters]
      exact mem_kept (notWaiting x) (nomatch ·.1)
    · rw [wait]
      exact mem_kept notAsleep (nomatch ·.1)
    · rw [sema]
      have before := (h.core.threads k.current).timer h.live
      rw [h.running] at before
      by_cases here : p = k.current
      · subst here
        have gone : ¬ (Code.user = .downing (.timer k.current) ∧ Status.running ≠ .blocked) :=
          (nomatch ·.1)
        rw [if_pos rfl, if_neg gone]
        split
        · next same => rw [← same, before, if_pos ⟨returning.mpr same.symm, by simp⟩]
        · next other => rw [before, if_neg fun both => other (returning.mp both.1).symm]
      · rw [if_neg here, if_neg fun same => here (own p same.symm)]
  refine ⟨h.core.moves moves queued h.live (by simp) (fun _ => rfl) nofun nofun
    (iff_of_false notIdle (by simp [Code.isIdle])) nofun nofun, ?_, ?_⟩
  · rw [moves.control.current]
    exact moves.live h.live (by simp)
  · rw [moves.control.current, moves.status, if_pos rfl]

/-- An up wakes a thread blocked on that semaphore, and only its own if it is a timer's. -/
theorem Core.woken_waiter (h : Core k) (woken : Woken k s t after) :
    k.Live t ∧ k.status t = .blocked ∧ k.code t = .downing s ∧ ∀ q, s = .timer q → q = t := by
  obtain ⟨rest, front⟩ := woken.front
  have member : t ∈ (k.sema s).waiters := by simp [front]
  obtain ⟨alive, blocked, down⟩ := ((h.threads t).waiters s).mp member
  refine ⟨alive, blocked, down, fun q same => ?_⟩
  exact (h.threads t).ownTimer q alive (same ▸ down)

/-- An up that wakes `t`, together with the removal of `t` from the sleep queue. -/
theorem Core.wakes (h : Core k) (woken : Woken k s t after) :
    Core { after with waitList := k.waitList.erase t } := by
  obtain ⟨alive, blocked, down, own⟩ := h.woken_waiter woken
  obtain ⟨rest, front⟩ := woken.front
  have ok := h.threads t
  have globals := woken.globals
  have nodup := h.waiters_nodup s
  rw [front, nodup_cons] at nodup
  have notIdle : k.idleThread ≠ some t := by
    intro idle
    rcases (ok.idle.mp idle).2 with code | code <;> rw [down] at code <;> cases code
  obtain ⟨slept, made⟩ : ∃ slept : Kernel, slept = { after with waitList := k.waitList.erase t } :=
    ⟨_, rfl⟩
  rw [← made]
  have moves : Moves k t .ready (.downing s) slept := by
    rw [made]
    refine ⟨⟨globals.mode, globals.current, globals.idleThread, globals.initialThread⟩,
      woken.status, fun p => ?_, globals.allocated, globals.allList, globals.allAllList⟩
    split
    · next here => exact (woken.code p).trans (here ▸ down)
    · exact woken.code p
  have sema : ∀ x, slept.sema x = after.sema x := by
    intro x
    rw [made]
    cases x <;> rfl
  have queued : Queued k t .ready (.downing s) slept := by
    refine ⟨fun p => ?_, ?_, fun x p => ?_, fun x => ?_, fun p => ?_, ?_, fun p => ?_⟩
    · rw [made, woken.ready]
      exact mem_appended ⟨rfl, notIdle⟩
    · rw [made, woken.ready]
      exact nodup_appended h.ready_nodup (ok.not_ready blocked)
    · rw [sema, woken.sema]
      split
      · next same =>
        subst same
        rw [front]
        split
        · next here => exact iff_of_false (here ▸ nodup.1) (nomatch ·.1)
        · next other => simp [other]
      · next other =>
        refine mem_kept (fun member => other ?_) (nomatch ·.1)
        exact Code.downing.inj (((ok.waiters x).mp member).2.2.symm.trans down)
    · rw [sema, woken.sema]
      split
      · rw [front]
        exact nodup.2
      · exact h.waiters_nodup x
    · rw [made]
      split
      · next here =>
        refine iff_of_false ?_ (nomatch ·.1)
        rw [h.wait_nodup.mem_erase_iff]
        exact fun member => member.1 here
      · next other => exact mem_erase_of_ne other
    · rw [made]
      exact h.wait_nodup.erase t
    · rw [sema, woken.sema]
      by_cases here : p = t
      · subst here
        have before := ok.timer alive
        rw [down, blocked] at before
        rw [if_pos rfl]
        by_cases same : s = .timer p
        · subst same
          rw [if_pos rfl, before]
          simp
        · rw [if_neg fun back => same back.symm, before]
          simp [same]
      · rw [if_neg here, if_neg fun same => here (own p same.symm)]
  refine h.moves moves queued alive (by simp) nofun
    (fun q same => own q (Code.downing.inj same)) nofun ?_ nofun nofun
  rw [down]

theorem Inv.wakes (h : Inv k) (woken : Woken k s t after) :
    Inv { after with waitList := k.waitList.erase t } := by
  have status : after.status k.current = k.status k.current := by
    rw [woken.status, if_neg (h.current_ne woken.blocked)]
  refine h.goes_on (h.core.wakes woken) woken.globals.current ?_ status
  rw [woken.globals.allocated]

/-- A semaphore other than a timer's changes its value and nobody is woken. -/
theorem Inv.semaValue (h : Inv k) (notTimer : ∀ q, s ≠ .timer q) (v : Nat) :
    Inv (k.setSema s { k.sema s with value := v }) := by
  have waiters : ∀ x, ((k.setSema s { k.sema s with value := v }).sema x).waiters =
      (k.sema x).waiters := by
    intro x
    rw [Kernel.setSema_sema]
    split
    · next same => rw [same]
    · rfl
  refine h.frame (by constructor <;> simp) (fun p => ⟨by simp, by simp, by simp, by simp, by simp,
    fun x => by rw [waiters], by simp, fun member => .inl (by simpa using member), ?_⟩) ?_ ?_ ?_ ?_
  · rw [Kernel.setSema_sema, if_neg fun back => notTimer p back.symm]
  · simpa using h.core.all_nodup
  · simpa using h.core.ready_nodup
  · intro x
    rw [waiters]
    exact h.core.waiters_nodup x
  · simpa using h.core.wait_nodup

theorem Inv.semaUp (h : Inv k) (notTimer : ∀ q, s ≠ .timer q) (taken : semaUp k s = .ok after) :
    Inv after := by
  rcases semaUp_effects taken with ⟨_, rfl⟩ | ⟨t, woken⟩
  · exact h.semaValue notTimer _
  · obtain ⟨_, _, down, _⟩ := h.core.woken_waiter woken
    have absent : t ∉ k.waitList := by
      intro member
      have same := ((h.core.threads t).wait.mp member).2.2
      rw [down, Code.downing.injEq] at same
      exact notTimer t same
    have kept := h.wakes woken
    rw [erase_of_not_mem absent, ← woken.globals.waitList] at kept
    exact kept

/-- The running thread gives up the CPU without a semaphore: it parks, or it is the idle
thread and blocks in its loop, or it yields. -/
theorem Inv.leaves (h : Inv k) (st : Status) (c : Code) (control : SameControl k after)
    (st_left : st = .blocked ∨ st = .ready) (awake : st = .blocked → ∀ s, c ≠ .downing s)
    (codes : c = k.code k.current ∨ (c = .parked ∧ ¬ (k.code k.current).isIdle))
    (park : c = .parked → st = .blocked) (enters : c = .idleEntry → st = .ready)
    (returning : st = .blocked → k.code k.current ≠ .downing (.timer k.current))
    (status : ∀ p, after.status p = if p = k.current then st else k.status p)
    (code : ∀ p, after.code p = if p = k.current then c else k.code p)
    (sema : ∀ x, after.sema x = k.sema x)
    (allocated : after.allocated = k.allocated) (allList : after.allList = k.allList)
    (records : after.allAllList = k.allAllList) (wait : after.waitList = k.waitList)
    (ready : after.readyList = if st = .ready ∧ k.idleThread ≠ some k.current then
      k.readyList ++ [k.current] else k.readyList) : Core after := by
  have ok := h.core.threads k.current
  obtain ⟨-, notReady, notAsleep, notWaiting⟩ := h.current_free
  have queued : Queued k k.current st c after := by
    refine ⟨fun p => ?_, ?_, fun x p => ?_, fun x => sema x ▸ h.core.waiters_nodup x, fun p => ?_,
      wait ▸ h.core.wait_nodup, fun p => ?_⟩
    · rw [ready]
      by_cases readied : st = .ready ∧ k.idleThread ≠ some k.current
      · rw [if_pos readied]
        exact mem_appended readied
      · rw [if_neg readied]
        exact mem_kept notReady readied
    · rw [ready]
      split
      · exact nodup_appended h.core.ready_nodup notReady
      · exact h.core.ready_nodup
    · rw [sema]
      exact mem_kept (notWaiting x) fun both => awake both.1 x both.2
    · rw [wait]
      exact mem_kept notAsleep fun both => awake both.1 _ both.2
    · rw [sema]
      by_cases here : p = k.current
      swap
      · rw [if_neg here]
      rw [here, if_pos rfl, ok.timer h.live, h.running]
      rcases codes with same | ⟨parks, _⟩
      · rw [same]
        by_cases down : k.code k.current = .downing (.timer k.current)
        · have left : st ≠ .blocked := fun blocked => returning blocked down
          rw [if_pos ⟨down, by simp⟩, if_pos ⟨down, left⟩]
        · rw [if_neg fun both => down both.1, if_neg fun both => down both.1]
      · rw [if_neg fun both => returning (park parks) both.1, parks]
        exact (if_neg (nomatch ·.1)).symm
  refine h.core.moves ⟨control, status, code, allocated, allList, records⟩ queued h.live ?_ ?_
    (fun q down => ?_) park ?_ (fun enter => ⟨.inl (enters enter), .inl ?_⟩) fun early => ?_
  · rcases st_left with rfl | rfl <;> simp
  · rcases st_left with rfl | rfl <;> nofun
  · rcases codes with same | ⟨rfl, _⟩
    · exact ok.ownTimer q h.live (same ▸ down)
    · cases down
  · rcases codes with same | ⟨rfl, notIdle⟩
    · rw [same]
    · exact iff_of_false notIdle (by simp [Code.isIdle])
  · rcases codes with same | ⟨rfl, _⟩
    · exact same ▸ enter
    · cases enter
  · rcases codes with same | ⟨rfl, _⟩
    · exact same ▸ early
    · cases early

/-- A page without a live thread is well formed if nothing refers to it. -/
theorem ThreadOk.of_dead (dead : ¬ k.Live p) (all : p ∉ k.allList) (ready : p ∉ k.readyList)
    (waiters : ∀ s, p ∉ (k.sema s).waiters) (wait : p ∉ k.waitList)
    (notIdle : k.idleThread ≠ some p)
    (record : p ∈ k.allAllList → k.allocated p = true ∧ k.mode = .sjf) : ThreadOk k p where
  all := by simp [all, dead]
  ready := by simp [ready, dead]
  waiters s := by simp [waiters s, dead]
  wait := by simp [wait, dead]
  running alive := absurd alive dead
  ownTimer _ alive := absurd alive dead
  parked alive := absurd alive dead
  idle := by simp [notIdle, dead]
  entry alive := absurd alive dead
  record := record
  timer alive := absurd alive dead

/-- A live thread that is not ready and not inside `sema_down` is well formed if it is on
`all_list` only. -/
theorem ThreadOk.of_unqueued {st : Status} (live : k.Live p) (status : k.status p = st)
    (code : k.code p = c) (all : p ∈ k.allList) (ready : p ∉ k.readyList)
    (waiters : ∀ s, p ∉ (k.sema s).waiters) (wait : p ∉ k.waitList)
    (busy : st ≠ .ready) (awake : ∀ s, c ≠ .downing s) (running : st = .running → p = k.current)
    (parked : c = .parked → st = .blocked) (idle : k.idleThread = some p ↔ c.isIdle)
    (entered : c ≠ .idleEntry) (record : p ∈ k.allAllList → k.mode = .sjf)
    (timer : (k.sema (.timer p)).value = 0) : ThreadOk k p := by
  subst status code
  exact {
    all := iff_of_true all live
    ready := iff_of_false ready fun both => busy both.2.1
    waiters s := iff_of_false (waiters s) fun both => awake s both.2.2
    wait := iff_of_false wait fun both => awake _ both.2.2
    running _ := running
    ownTimer _ _ down := absurd down (awake _)
    parked _ := parked
    idle := idle.trans (and_iff_right live).symm
    entry _ enters := absurd enters entered
    record member := ⟨live.1, record member⟩
    timer _ := by rw [timer, if_neg fun both => awake _ both.1] }

/-- The running thread dies. -/
theorem Inv.exits (h : Inv k) (notIdle : ¬ (k.code k.current).isIdle) :
    Core ({ k with allList := k.allList.erase k.current }.setStatus k.current .dying) := by
  obtain ⟨all, notReady, notAsleep, notWaiting⟩ := h.current_free
  have ok := h.core.threads k.current
  obtain ⟨after, made⟩ : ∃ after : Kernel, after =
    { k with allList := k.allList.erase k.current }.setStatus k.current .dying := ⟨_, rfl⟩
  rw [← made]
  have status : ∀ p, after.status p = if p = k.current then .dying else k.status p := by
    intro p
    rw [made]
    by_cases here : p = k.current <;> simp [here]
  have code : ∀ p, after.code p = k.code p := by
    intro p
    rw [made]
    by_cases here : p = k.current <;> simp [here]
  have sema : ∀ x, after.sema x = k.sema x := by
    intro x
    rw [made, Kernel.setStatus_sema]
    cases x <;> rfl
  have control : SameControl k after := by
    rw [made]
    exact ⟨rfl, rfl, rfl, rfl⟩
  have dead : ¬ after.Live k.current := by
    intro alive
    exact alive.2 (by rw [status, if_pos rfl])
  refine h.core.change control k.current ?_ ?_ ?_ (made ▸ h.core.ready_nodup)
    (fun x => sema x ▸ h.core.waiters_nodup x) (made ▸ h.core.wait_nodup) (made ▸ id) ?_ ?_
  · intro p other
    refine ⟨?_, code p, made ▸ rfl, ?_, made ▸ Iff.rfl, fun x => ?_, made ▸ Iff.rfl,
      made ▸ Or.inl, ?_⟩
    · rw [status, if_neg other]
    · rw [made]
      exact mem_erase_of_ne other
    · rw [sema]
    · rw [sema]
  · refine ThreadOk.of_dead dead ?_ (made ▸ notReady) (fun x => sema x ▸ notWaiting x)
      (made ▸ notAsleep) ?_ (made ▸ ok.record)
    · rw [made]
      exact fun member => (h.core.all_nodup.mem_erase_iff.mp member).1 rfl
    · rw [control.idleThread]
      exact fun idle => notIdle (ok.idle.mp idle).2
  · rw [made]
    exact h.core.all_nodup.erase _
  · exact fun alive => absurd alive dead
  · exact fun alive => absurd alive dead

/-- A thread blocked outside every semaphore becomes ready and goes on at `c`. -/
theorem Inv.unblocks (h : Inv k) (unblocked : Unblocked k t after) (alive : k.Live t)
    (parked : k.code t = .parked) (codes : c = .user ∨ (c = .idleEntry ∧ k.idleThread = none ∧
      ∀ q, k.Live q → k.code q ≠ .idleEntry ∧ k.code q ≠ .start)) : Inv (after.setCode t c) := by
  have ok := h.core.threads t
  have globals := unblocked.globals
  obtain ⟨made, eq⟩ : ∃ made : Kernel, made = after.setCode t c := ⟨_, rfl⟩
  rw [← eq]
  have moves : Moves k t .ready c made := by
    rw [eq]
    refine ⟨⟨globals.mode, globals.current, globals.idleThread, globals.initialThread⟩,
      fun p => ?_, fun p => ?_, globals.allocated, globals.allList, globals.allAllList⟩
    · rw [← unblocked.status]
      by_cases here : p = t <;> simp [here]
    · by_cases here : p = t
      · simp [here]
      · rw [if_neg here, ← unblocked.code]
        simp [here]
  have ready : made.readyList = k.readyList ++ [t] := by rw [eq]; exact unblocked.ready
  have wait : made.waitList = k.waitList := by rw [eq]; exact globals.waitList
  have sema : ∀ x, made.sema x = k.sema x := by
    intro x
    rw [eq, Kernel.setCode_sema, unblocked.sema]
  have notDowning : ∀ s, k.code t ≠ .downing s := by
    intro s down
    rw [parked] at down
    cases down
  have notIdle : ¬ (k.code t).isIdle := by
    rw [parked]
    simp [Code.isIdle]
  have queued : Queued k t .ready c made := by
    refine ⟨fun p => ?_, ?_, fun s p => ?_, fun s => sema s ▸ h.core.waiters_nodup s, fun p => ?_,
      wait ▸ h.core.wait_nodup, fun p => ?_⟩
    · rw [ready]
      exact mem_appended ⟨rfl, fun idle => notIdle (ok.idle.mp idle).2⟩
    · rw [ready]
      exact nodup_appended h.core.ready_nodup (ok.not_ready unblocked.blocked)
    · rw [sema]
      exact mem_kept (fun member => notDowning s ((ok.waiters s).mp member).2.2) (nomatch ·.1)
    · rw [wait]
      exact mem_kept (fun member => notDowning _ (ok.wait.mp member).2.2) (nomatch ·.1)
    · rw [sema]
      split
      · next here =>
        rw [here, ok.timer alive, if_neg fun both => notDowning _ both.1, if_neg]
        rintro ⟨down, _⟩
        rcases codes with rfl | ⟨rfl, _⟩ <;> cases down
      · rfl
  have core : Core made := by
    rcases codes with rfl | ⟨rfl, fresh⟩
    · exact h.core.moves moves queued alive (by simp) nofun nofun nofun
        (iff_of_false notIdle (by simp [Code.isIdle])) nofun nofun
    · exact h.core.moves moves queued alive (by simp) nofun nofun nofun
        (iff_of_false notIdle (by simp [Code.isIdle])) (fun _ => ⟨.inl rfl, .inr fresh⟩) nofun
  refine h.goes_on core moves.control.current (by rw [moves.allocated]) ?_
  rw [moves.status, if_neg (h.current_ne unblocked.blocked)]

/-- A thread is created on a free page. -/
theorem Inv.creates (h : Inv k) {name : Name} {priority : Int}
    (created : threadAllocate k t name priority = .ok after) :
    Inv after ∧ after.Live t ∧ after.code t = .parked ∧ SameControl k after ∧
      ∀ p, p ≠ t → SameFor k after p := by
  obtain ⟨free, _, _, effects⟩ := threadAllocate_effects created
  have dead : ¬ k.Live t := fun alive => free alive.1
  have ok := h.core.threads t
  have other : k.current ≠ t := fun same => free (same ▸ h.live.1)
  have control : SameControl k after :=
    ⟨effects.mode, effects.current, effects.idleThread, effects.initialThread⟩
  have allocated : ∀ p, after.allocated p = if p = t then true else k.allocated p := by
    intro p
    rw [effects.allocated]
    by_cases here : p = t <;> simp [pallocGetPage, here]
  have status : after.status t = .blocked := by rw [effects.status, if_pos rfl]
  have live : after.Live t := by
    refine ⟨?_, ?_⟩
    · rw [allocated, if_pos rfl]
    · rw [status]
      simp
  have code : after.code t = .parked := by rw [effects.code, if_pos rfl]
  have noWaiter : ∀ s, t ∉ (k.sema s).waiters :=
    fun s member => dead ((ok.waiters s).mp member).1
  have ownerless : ∀ p, p ≠ t → ∀ s, s = .timer t → p ∉ (k.sema s).waiters := by
    rintro p apart s rfl member
    obtain ⟨alive, _, down⟩ := ((h.core.threads p).waiters _).mp member
    exact apart ((h.core.threads p).ownTimer t alive down).symm
  have waiters : ∀ p s, p ∈ (after.sema s).waiters ↔ p ∈ (k.sema s).waiters := by
    intro p s
    rw [effects.sema]
    split
    · rename_i same
      by_cases here : p = t
      · simp [here, noWaiter s]
      · simp [ownerless p here s same]
    · rfl
  have others : ∀ p, p ≠ t → SameFor k after p := by
    intro p apart
    refine ⟨?_, ?_, ?_, ?_, ?_, waiters p, ?_, fun member => ?_, ?_⟩
    · rw [effects.status, if_neg apart]
      rfl
    · rw [effects.code, if_neg apart]
      rfl
    · rw [allocated, if_neg apart]
    · rw [effects.allList]
      simp [apart, pallocGetPage]
    · rw [effects.ready]
      rfl
    · rw [effects.wait]
      rfl
    · exact .inl ((effects.mem_records member).resolve_right fun here => apart here.1)
    · rw [effects.sema, if_neg fun same => apart (SemaId.timer.inj same)]
      rfl
  have here : ThreadOk after t := by
    refine .of_unqueued live status code (by simp [effects.allList]) ?_ (fun s => ?_) ?_ nofun nofun
      nofun (fun _ => rfl) ?_ nofun (fun member => ?_) ?_
    · rw [effects.ready]
      exact fun member => dead (ok.ready.mp member).1
    · rw [waiters]
      exact noWaiter s
    · rw [effects.wait]
      exact fun member => dead (ok.wait.mp member).1
    · rw [control.idleThread, ok.idle]
      exact iff_of_false (fun idle => dead idle.1) (by simp [Code.isIdle])
    · rw [control.mode]
      rcases effects.mem_records member with old | ⟨_, sjf⟩
      · exact (ok.record old).2
      · exact sjf
    · rw [effects.sema, if_pos rfl]
  refine ⟨h.goes_on (h.core.change control t others here ?_ (effects.ready ▸ h.core.ready_nodup) ?_
    (effects.wait ▸ h.core.wait_nodup) ?_ ?_ ?_) control.current (others _ other).allocated
    (others _ other).status, live, code, control, others⟩
  · rw [effects.allList]
    refine List.Nodup.append h.core.all_nodup (nodup_singleton t) ?_
    simpa [pallocGetPage] using fun member => dead (ok.all.mp member)
  · intro s
    rw [effects.sema]
    split
    · exact nodup_nil
    · exact h.core.waiters_nodup s
  · exact fun _ => live.1
  · intro _ enter
    rw [code] at enter
    cases enter
  · intro _ early
    rw [code] at early
    cases early

/-- The idle thread stores its address. -/
theorem Inv.idleSets (h : Inv k) (enters : k.code k.current = .idleEntry) :
    Inv ({ k with idleThread := some k.current }.setCode k.current .idleUp) := by
  have here := h.core.threads k.current
  obtain ⟨unset, _⟩ := here.entry h.live enters
  obtain ⟨all, notReady, notAsleep, notWaiting⟩ := h.current_free
  obtain ⟨after, made⟩ : ∃ after : Kernel, after =
    { k with idleThread := some k.current }.setCode k.current .idleUp := ⟨_, rfl⟩
  rw [← made]
  have status : ∀ p, after.status p = k.status p := by
    intro p
    rw [made]
    by_cases same : p = k.current <;> simp [same]
  have code : ∀ p, after.code p = if p = k.current then .idleUp else k.code p := by
    intro p
    rw [made]
    by_cases same : p = k.current <;> simp [same]
  have sema : ∀ x, after.sema x = k.sema x := by
    intro x
    rw [made, Kernel.setCode_sema]
    cases x <;> rfl
  have allocated : after.allocated = k.allocated := by rw [made]; rfl
  have live : ∀ p, after.Live p ↔ k.Live p := by
    intro p
    rw [Kernel.Live, Kernel.Live, status, allocated]
  have current : after.current = k.current := by rw [made]; rfl
  have idleThread : after.idleThread = some k.current := by rw [made]; rfl
  have only : ∀ p, k.Live p → k.code p = .idleEntry → p = k.current :=
    fun p alive enter => h.core.entry_unique p k.current alive h.live enter enters
  have others : ∀ p, p ≠ k.current → SameFor k after p := by
    intro p other
    exact ⟨status p, by rw [code, if_neg other], by rw [allocated], made ▸ Iff.rfl, made ▸ Iff.rfl,
      fun s => by rw [sema], made ▸ Iff.rfl, made ▸ Or.inl, by rw [sema]⟩
  have running : ThreadOk after k.current := by
    refine .of_unqueued ((live _).mpr h.live) ((status _).trans h.running)
      ((code _).trans (if_pos rfl)) (made ▸ all) (made ▸ notReady) (fun s => sema s ▸ notWaiting s)
      (made ▸ notAsleep) (by simp) (by simp) (fun _ => current.symm) (by simp)
      (iff_of_true idleThread (.inl rfl)) (by simp) (made ▸ fun member => (here.record member).2) ?_
    rw [sema]
    exact h.timer_zero fun down => by cases enters.symm.trans down
  have threads : ∀ p, ThreadOk after p := by
    intro p
    by_cases same : p = k.current
    · rw [same]
      exact running
    · refine (h.core.threads p).keep (others p same) (made ▸ rfl) current ?_ fun alive enter =>
        absurd (only p alive enter) same
      simpa [idleThread, unset] using Ne.symm same
  refine h.goes_on ⟨made ▸ h.core.all_nodup, made ▸ h.core.ready_nodup,
    fun s => sema s ▸ h.core.waiters_nodup s, made ▸ h.core.wait_nodup, threads, ?_, ?_,
    made ▸ h.core.initial_allocated, made ▸ h.core.current_allocated⟩ current (by rw [allocated])
    (status _)
  · intro p q alive _ enter _
    have unset' := ((threads p).entry alive enter).1
    rw [idleThread] at unset'
    cases unset'
  · intro p alive early
    rw [code] at early
    split at early
    · cases early
    · exact absurd enters ((h.core.start p ((live p).mp alive) early).2.2 _ h.live)

end

end Calendarizador.Source
