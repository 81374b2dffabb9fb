import Calendarizador.Invariant.Places
import Calendarizador.Source.Console

/-!
# The lock of the console

`acquire_console` takes `console_lock` once and counts further calls of its holder. The
invariant ties the semaphore, the holder and the depth to the `printf` calls that threads
have begun, and holds in every run. The unit of the semaphore has an owner also where the lock
has no holder, in the middle of taking it or giving it back. A `schedule` call of this model
differs from the one of `Source.Scheduler` in what it leaves to be executed, so it keeps the
representation invariant.
-/
namespace Calendarizador.Source
open Foundation Function List

def Task.isBody : Task → Bool
  | .body _ => true
  | _ => false

/-- The thread has the unit of the lock and does not hold the lock. -/
def Task.isPending : Task → Bool
  | .took | .cleared => true
  | _ => false

/-- Between the `sema_down` and the `sema_up` of the lock. -/
def Task.inside (t : Task) : Bool := t.isBody || t.isPending

/-- Executed with interrupts off, and not in the middle of a wait. -/
def Task.quiet : Task → Bool
  | .acquire masked | .body masked => masked
  | .retest _ | .took | .cleared => false
  | _ => true

/-- The tasks that `schedule` adds; they take no lock. -/
def Task.silent : Task → Bool
  | .check _ | .line => true
  | _ => false

/-- The lock, and the thread that has the unit of its semaphore. -/
structure ConsoleLock (c : Console) (owner : Option Page) : Prop where
  value : (c.kernel.sema consoleSema).value = if owner = none then 1 else 0
  owned : ∀ p, c.holder = some p → owner = some p
  flat : c.holder = none → c.depth = 0
  bodies : ∀ p, (c.tasks p).countP Task.isBody = if c.holder = some p then c.depth + 1 else 0
  pending : ∀ p, (c.tasks p).countP Task.isPending =
    if c.holder = none ∧ owner = some p then 1 else 0

/-- The thread has the unit of the lock: it holds the lock, or it is in the middle of taking it
or of giving it back. -/
def Console.owns (c : Console) (p : Page) : Bool :=
  c.holder = some p || (c.tasks p).any Task.isPending

/-- What `schedule` does, up to the tasks it leaves to the thread it dispatches. -/
structure Switches (c : Console) (next : Page) (rest : List Page) (after : Console) : Prop where
  picked : c.kernel.readyList = next :: rest ∨
    c.kernel.readyList = [] ∧ rest = [] ∧ c.kernel.idleThread = some next
  same : SamePlaces (dispatch { c.kernel with readyList := rest } next) after.kernel
  base : schedule c.kernel = .ok (dispatch { c.kernel with readyList := rest } next)
  name : ∀ p, (after.kernel.thread p).name = (c.kernel.thread p).name
  print : after.kernel.threadsPrint = c.kernel.threadsPrint
  verbose : after.verbose = c.verbose
  holder : after.holder = c.holder
  depth : after.depth = c.depth
  tasks : ∃ front, (∀ t ∈ front, t.silent = true) ∧
    after.tasks = Function.update c.tasks next (front ++ c.tasks next)

/-- The running thread's state at the wait of `sema_down` on the lock. -/
def waitingConsole (c : Console) (masked : Bool) (rest : List Task) : Console :=
  { c with
    kernel := (c.kernel.setSema consoleSema { c.kernel.sema consoleSema with
      waiters := (c.kernel.sema consoleSema).waiters ++ [c.kernel.current] }).setStatus
        c.kernel.current .blocked
    tasks := Function.update c.tasks c.kernel.current (.retest masked :: rest) }

/-- The `sema_down` of the lock has found a unit. -/
def downedConsole (c : Console) : Console :=
  { c with
    kernel := c.kernel.setSema consoleSema
      { c.kernel.sema consoleSema with value := (c.kernel.sema consoleSema).value - 1 } }

/-- The task on top is at the `sema_down` of the lock. -/
def Console.downs (c : Console) (masked : Bool) (top : Task) : Prop :=
  top = .acquire masked ∧ c.holder ≠ some c.kernel.current ∨ top = .retest masked

/-- What a call of `printf` and the next task of the running thread can do. -/
inductive TaskStep (c : Console) : Console → Prop where
  | calls {masked : Bool} (empty : c.tasks c.kernel.current = [])
      (place : c.kernel.code c.kernel.current = .user ∨
        ∃ rep seen, c.kernel.code c.kernel.current = .exiting rep seen) :
      TaskStep c (c.setTasks [.acquire masked])
  | row {rest : List Task} (old : c.tasks c.kernel.current = .rows :: rest) :
      TaskStep c (c.setTasks (.acquire true :: .acquire true :: .rows :: rest))
  | skips {top : Task} {rest : List Task} (old : c.tasks c.kernel.current = top :: rest)
      (plain : (∃ next, top = .check next) ∨ top = .rows) : TaskStep c (c.setTasks rest)
  | table {next : Page} {rest : List Task} (old : c.tasks c.kernel.current = .check next :: rest)
      (prints : c.kernel.threadsPrint = true) :
      TaskStep c ({ c with kernel := { c.kernel with
        totalReadyThreads := i32 c.kernel.readyList.length } }.setTasks
          (.acquire true :: .rows :: .acquire true :: .printed :: rest))
  | printed {rest : List Task} (old : c.tasks c.kernel.current = .printed :: rest) :
      TaskStep c ({ c with kernel := { c.kernel with threadsPrint := false } }.setTasks rest)
  | line {rest : List Task} (old : c.tasks c.kernel.current = .line :: rest) :
      TaskStep c ({ c with
        kernel := c.kernel.upd c.kernel.current Thread.countRepeat }.setTasks (c.lineCalls ++ rest))
  | nests {masked : Bool} {rest : List Task}
      (old : c.tasks c.kernel.current = .acquire masked :: rest)
      (mine : c.holder = some c.kernel.current) :
      TaskStep c ({ c with depth := c.depth + 1 }.setTasks (.body masked :: rest))
  | takes {top : Task} {masked : Bool} {rest : List Task}
      (old : c.tasks c.kernel.current = top :: rest)
      (tests : top = .acquire masked ∨ top = .retest masked)
      (unit : (c.kernel.sema consoleSema).value ≠ 0) :
      TaskStep c (if masked then (downedConsole c).setHolder masked rest
        else (downedConsole c).setTasks (.took :: rest))
  | holds {rest : List Task} (old : c.tasks c.kernel.current = .took :: rest) :
      TaskStep c (c.setHolder false rest)
  | waits {top : Task} {masked : Bool} {rest : List Task} {after : Console}
      (old : c.tasks c.kernel.current = top :: rest) (tests : c.downs masked top)
      (zero : (c.kernel.sema consoleSema).value = 0)
      (scheduled : (waitingConsole c masked rest).schedule = .ok after) : TaskStep c after
  | releases {masked : Bool} {rest : List Task} {after : Console}
      (old : c.tasks c.kernel.current = .body masked :: rest)
      (released : c.releaseConsole masked rest = .ok after) : TaskStep c after
  | ups {rest : List Task} {after : Console} (old : c.tasks c.kernel.current = .cleared :: rest)
      (upped : c.consoleUp rest = .ok after) : TaskStep c after

section
variable {c after : Console} {e : Event}

theorem SamePlaces.symm {k after : Kernel} (h : SamePlaces k after) : SamePlaces after k where
  status p := (h.status p).symm
  code p := (h.code p).symm
  sema s := (h.sema s).symm
  readyList := h.readyList.symm
  allList := h.allList.symm
  allAllList := h.allAllList.symm
  waitList := h.waitList.symm
  allocated := h.allocated.symm
  control := ⟨h.control.mode.symm, h.control.current.symm, h.control.idleThread.symm,
    h.control.initialThread.symm⟩

theorem countRepeat_same (k : Kernel) (p : Page) : SamePlaces k (k.upd p Thread.countRepeat) :=
  ⟨Kernel.keeps_upd (fun t => t.status) k p _ fun _ => rfl,
    Kernel.keeps_upd (fun t => t.code) k p _ fun _ => rfl,
    fun s => Kernel.upd_sema k p _ s rfl, rfl, rfl, rfl, rfl, rfl, ⟨rfl, rfl, rfl, rfl⟩⟩

/-- The end of `schedule` counts and prints. -/
theorem scheduleReturn_same (k : Kernel) (next : Page) : SamePlaces k (scheduleReturn k next) := by
  have counted := countRepeat_same k k.current
  exact ⟨counted.status, counted.code, fun s => by rw [← counted.sema s]; cases s <;> rfl, rfl, rfl,
    rfl, rfl, rfl, ⟨rfl, rfl, rfl, rfl⟩⟩

theorem dispatch_same (k : Kernel) (next : Page) : SamePlaces (dispatch k next)
    (threadScheduleTail (switchTo k next) (if k.current = next then none else some k.current)) := by
  simp only [dispatch]
  split
  · exact (scheduleReturn_same _ _).symm
  · exact ⟨fun _ => rfl, fun _ => rfl, fun _ => rfl, rfl, rfl, rfl, rfl, rfl, ⟨rfl, rfl, rfl, rfl⟩⟩

theorem switches {next : Page} {rest : List Page} (picked : c.kernel.readyList = next :: rest ∨
      c.kernel.readyList = [] ∧ rest = [] ∧ c.kernel.idleThread = some next)
    (base : schedule c.kernel = .ok (dispatch { c.kernel with readyList := rest } next)) :
    Switches c next rest { c with
      kernel := threadScheduleTail (switchTo { c.kernel with readyList := rest } next)
        (if c.kernel.current = next then none else some c.kernel.current)
      tasks := match resumedCall { c.kernel with readyList := rest } next with
        | some remembered =>
          update c.tasks next (.check remembered :: .line :: c.tasks next)
        | none => c.tasks } := by
  refine ⟨picked, dispatch_same { c.kernel with readyList := rest } next, base, fun p => ?_, rfl,
    rfl, rfl, rfl, ?_⟩
  · rw [threadScheduleTail_thread, switchTo_thread]
    split
    · split
      · rfl
      · split <;> rfl
    · split
      · rfl
      · split <;> rfl
  · cases resumedCall { c.kernel with readyList := rest } next with
    | some remembered => exact ⟨[.check remembered, .line], by simp [Task.silent], rfl⟩
    | none => exact ⟨[], by simp, by simp⟩

theorem Console.schedule_effects (taken : c.schedule = .ok after) :
    ∃ next rest, Switches c next rest after := by
  unfold Console.schedule nextThreadToRun at taken
  cases list : c.kernel.readyList with
  | nil =>
    cases idle : c.kernel.idleThread with
    | none => simp [list, idle] at taken
    | some next =>
      simp only [list, idle] at taken
      split at taken
      · cases taken
      · rename_i left
        cases taken
        refine ⟨next, [], ?_⟩
        have same : { c.kernel with readyList := [] } = c.kernel := by rw [← list]
        have base : Source.schedule c.kernel = .ok (dispatch c.kernel next) := by
          simp only [Source.schedule, nextThreadToRun, list, idle]
          exact if_neg left
        have found := switches (c := c) (.inr ⟨list, rfl, idle⟩) (by rw [same]; exact base)
        rw [same] at found
        exact found
  | cons next rest =>
    simp only [list] at taken
    split at taken
    · cases taken
    · rename_i left
      cases taken
      refine ⟨next, rest, switches (.inl list) ?_⟩
      simp only [Source.schedule, nextThreadToRun, list]
      exact if_neg left

theorem consoleDown_effects {top : Task} {masked : Bool} {rest : List Task}
    (old : c.tasks c.kernel.current = top :: rest) (tests : c.downs masked top)
    (taken : c.consoleDown masked rest = .ok after) : TaskStep c after := by
  unfold Console.consoleDown at taken
  dsimp only at taken
  split at taken
  · rename_i zero
    exact .waits old tests zero taken
  · rename_i unit
    cases taken
    exact .takes old (tests.imp And.left id) unit

theorem runTask_effects (taken : c.runTask = .ok after) : TaskStep c after := by
  unfold Console.runTask at taken
  dsimp only at taken
  split at taken
  · cases taken
  · rename_i next rest old
    split at taken
    · rename_i prints
      cases taken
      exact .table old prints.2.2
    · cases taken
      exact .skips old (.inl ⟨next, rfl⟩)
  · rename_i rest old
    cases taken
    exact .skips old (.inr rfl)
  · rename_i rest old
    cases taken
    exact .printed old
  · rename_i rest old
    cases taken
    exact .line old
  · rename_i masked rest old
    unfold Console.acquireConsole at taken
    split at taken
    · rename_i mine
      cases taken
      exact .nests old mine
    · rename_i other
      exact consoleDown_effects old (.inl ⟨rfl, other⟩) taken
  · rename_i masked rest old
    exact consoleDown_effects old (.inr rfl) taken
  · rename_i rest old
    cases taken
    exact .holds old
  · rename_i masked rest old
    exact .releases old taken
  · rename_i rest old
    exact .ups old taken

/-- Where the running thread may call into the kernel, or be interrupted. -/
theorem Console.allows_cases (allowed : c.allows e = true) :
    (e.enabled c.kernel = true ∧ (c.tasks c.kernel.current = [] ∨
      ∃ top ∈ c.tasks c.kernel.current, top.quiet = false)) ∨
    ∃ t, e = .unblock t ∧ c.kernel.allocated t = true ∧ c.kernel.code t = .parked := by
  unfold Console.allows at allowed
  split at allowed
  · rename_i empty
    exact .inl ⟨allowed, .inl empty⟩
  iterate 4
    rename_i old
    exact .inl ⟨(Bool.and_eq_true_iff.mp allowed).1, .inr ⟨_, old ▸ mem_cons_self, rfl⟩⟩
  · split at allowed
    · rename_i t
      obtain ⟨used, parked⟩ := Bool.and_eq_true_iff.mp allowed
      exact .inr ⟨t, rfl, used, of_decide_eq_true parked⟩
    · cases allowed
  · cases allowed

theorem Console.step_task {e : ConsoleEvent} (taken : c.step e = .ok after)
    (other : ∀ e', e ≠ .kernel e') : TaskStep c after := by
  cases e with
  | kernel e => exact absurd rfl (other e)
  | printf =>
    simp only [Console.step] at taken
    split at taken
    · rename_i ready
      cases taken
      exact .calls ready.1 (.inl ready.2)
    · cases taken
  | exitPrintf =>
    simp only [Console.step] at taken
    split at taken
    · rename_i rep seen empty exiting
      cases taken
      exact .calls empty (.inr ⟨rep, seen, exiting⟩)
    · cases taken
  | task => exact runTask_effects taken
  | row =>
    simp only [Console.step] at taken
    split at taken
    · rename_i rest old
      cases taken
      exact .row old
    · cases taken

theorem Console.step_kernel (taken : c.step (.kernel e) = .ok after) :
    c.allows e = true ∧ namesConsole c.kernel e = false ∧
      ∃ outcome, opBody c.kernel e = .ok outcome ∧ c.finish outcome = .ok after := by
  simp only [Console.step] at taken
  split at taken
  · rename_i allowed
    obtain ⟨outcome, body, finished⟩ := bind_eq_ok.mp taken
    exact ⟨allowed.1, allowed.2, outcome, body, finished⟩
  · cases taken

theorem semaAfter_console {k : Kernel} (other : namesConsole k e = false) :
    semaAfter k e consoleSema = k.sema consoleSema := by
  have apart : ∀ n, decide (n = 0) = false → consoleSema ≠ .user n := by
    rintro n nonzero same
    cases same
    cases nonzero
  cases e with
  | semaDown n | semaTryDown n | semaUp n => exact if_neg (apart n other)
  | semaRetry =>
    simp only [semaAfter, semaCall]
    simp only [namesConsole, decide_eq_false_iff_not] at other
    split
    · rename_i s op called
      split at called
      · rename_i down
        cases called
        refine if_neg fun same => other ?_
        rw [same]
        exact down
      · cases called
    · rfl
  | _ => rfl

/-- No section of the kernel but those of `console.c` touches the lock. -/
theorem opBody_consoleSema (allowed : c.allows e = true) (other : namesConsole c.kernel e = false)
    {outcome : Outcome} (body : opBody c.kernel e = .ok outcome) :
    outcome.kernel.sema consoleSema = c.kernel.sema consoleSema := by
  rcases c.allows_cases allowed with ⟨enabled, _⟩ | ⟨t, rfl, _⟩
  · rw [opBody_sema body (by simp [consoleSema]), semaAfter_console other]
  · obtain ⟨unblocked, unblocking, ⟨⟩⟩ := bind_eq_ok.mp body
    change (unblocked.setCode t .user).sema consoleSema = _
    rw [Kernel.setCode_sema, (threadUnblock_effects unblocking).sema]

namespace Switches
variable {next : Page} {rest : List Page}

theorem current (h : Switches c next rest after) : after.kernel.current = next :=
  h.same.control.current.trans (dispatch_current _ _)

theorem readyList (h : Switches c next rest after) : after.kernel.readyList = rest :=
  h.same.readyList.trans (dispatch_readyList _ _)

theorem idleThread (h : Switches c next rest after) :
    after.kernel.idleThread = c.kernel.idleThread :=
  h.same.control.idleThread.trans (dispatch_idleThread _ _)

theorem code (h : Switches c next rest after) (p : Page) : after.kernel.code p = c.kernel.code p :=
  (h.same.code p).trans (dispatch_code _ _ p)

theorem sema (h : Switches c next rest after) (s : SemaId) :
    after.kernel.sema s = c.kernel.sema s := by
  rw [h.same.sema, dispatch_sema]
  cases s <;> rfl

theorem allocated (h : Switches c next rest after) {p : Page} (used : c.kernel.allocated p = true)
    (stays : p = c.kernel.current → c.kernel.status p ≠ .dying) :
    after.kernel.allocated p = true := by
  rw [h.same.allocated, dispatch_allocated, if_neg]
  · exact used
  · rintro ⟨here, _, dying, _⟩
    exact stays here dying

/-- Whoever was ready runs or is still ready. -/
theorem stays (h : Switches c next rest after) {p : Page} (ready : p ∈ c.kernel.readyList) :
    p = after.kernel.current ∨ p ∈ after.kernel.readyList := by
  rw [h.current, h.readyList]
  rcases h.picked with list | ⟨list, _⟩
  · rw [list] at ready
    exact mem_cons.mp ready
  · rw [list] at ready
    cases ready

end Switches

variable {t : Task} {list : List Task}

theorem Task.outside_of_silent (h : t.silent = true) : t.inside = false := by
  cases t <;> first | rfl | cases h

theorem countP_front {front : List Task} {p : Task → Bool} (plain : ∀ t ∈ front, p t = false) :
    (front ++ list).countP p = list.countP p := by
  rw [countP_append, countP_eq_zero.mpr fun t member => by simp [plain t member],
    Nat.zero_add]

namespace ConsoleLock
variable {owner : Option Page} {rest : List Task} {masked : Bool}

/-- Tasks outside the lock come and go. -/
theorem moves (h : ConsoleLock c owner) {q : Page} (gone front : List Task)
    (old : c.tasks q = gone ++ rest) (none : ∀ t ∈ gone, t.inside = false)
    (plain : ∀ t ∈ front, t.inside = false)
    (tasks : after.tasks = update c.tasks q (front ++ rest))
    (value : (after.kernel.sema consoleSema).value = (c.kernel.sema consoleSema).value)
    (holder : after.holder = c.holder) (depth : after.depth = c.depth) :
    ConsoleLock after owner := by
  have counts {f : Task → Bool} (sub : ∀ t : Task, t.inside = false → f t = false) (p : Page) :
      (after.tasks p).countP f = (c.tasks p).countP f := by
    rw [tasks]
    by_cases here : p = q
    · subst here
      rw [update_self, old, countP_front fun t member => sub t (none t member),
        countP_front fun t member => sub t (plain t member)]
    · rw [update_of_ne here]
  refine ⟨value.trans h.value, holder ▸ h.owned, holder ▸ depth ▸ h.flat, fun p => ?_, fun p => ?_⟩
  · rw [counts (fun t plain => (Bool.or_eq_false_iff.mp plain).1), holder, depth, h.bodies]
  · rw [counts (fun t plain => (Bool.or_eq_false_iff.mp plain).2), holder, h.pending]

/-- The same for the running thread. -/
theorem sets (h : ConsoleLock c owner) (gone front : List Task) {k : Kernel}
    (old : c.tasks c.kernel.current = gone ++ rest) (none : ∀ t ∈ gone, t.inside = false)
    (plain : ∀ t ∈ front, t.inside = false)
    (current : k.current = c.kernel.current)
    (sema : k.sema consoleSema = c.kernel.sema consoleSema) :
    ConsoleLock ({ c with kernel := k }.setTasks (front ++ rest)) owner := by
  refine h.moves gone front old none plain ?_ (congrArg Semaphore.value sema) rfl rfl
  rw [← current]
  rfl

theorem switches (h : ConsoleLock c owner) {next : Page} {rest : List Page}
    (switched : Switches c next rest after) : ConsoleLock after owner := by
  obtain ⟨front, silent, tasks⟩ := switched.tasks
  exact h.moves [] front (nil_append _).symm (forall_mem_nil _)
    (fun t member => Task.outside_of_silent (silent t member)) tasks (by rw [switched.sema])
    switched.holder switched.depth

/-- What the first task of a thread says of the others. -/
theorem counts (h : ConsoleLock c owner) (b q : Bool) {p : Page} {top : Task}
    (old : c.tasks p = top :: rest) (body : top.isBody = b) (pending : top.isPending = q) :
    rest.countP Task.isBody + b.toNat = (if c.holder = some p then c.depth + 1 else 0) ∧
    rest.countP Task.isPending + q.toNat =
      (if c.holder = none ∧ owner = some p then 1 else 0) := by
  constructor
  · rw [← h.bodies p, old, countP_cons, body]
    cases b <;> rfl
  · rw [← h.pending p, old, countP_cons, pending]
    cases q <;> rfl

/-- Whoever holds the lock has begun a `printf`. -/
theorem holds (h : ConsoleLock c owner) {p : Page} (none : ∀ t ∈ c.tasks p, t.isBody = false) :
    c.holder ≠ some p := by
  intro here
  have count := h.bodies p
  rw [countP_eq_zero.mpr fun t member => by simp [none t member], if_pos here] at count
  omega

/-- The unit passes between nobody and the running thread `q`. -/
theorem passes (h : ConsoleLock c owner) {q : Page} {list : List Task} {now : Option Page}
    (tasks : after.tasks = update c.tasks q list)
    (before : ∀ p, owner = some p → p = q) (later : ∀ p, now = some p → p = q)
    (bodies : list.countP Task.isBody = if after.holder = some q then after.depth + 1 else 0)
    (pending : list.countP Task.isPending = if after.holder = none ∧ now = some q then 1 else 0)
    (value : (after.kernel.sema consoleSema).value = if now = none then 1 else 0)
    (owned : ∀ p, after.holder = some p → now = some p)
    (flat : after.holder = none → after.depth = 0) : ConsoleLock after now := by
  refine ⟨value, owned, flat, fun p => ?_, fun p => ?_⟩ <;>
    by_cases here : p = q <;> simp only [tasks, here, update_self, update_of_ne, ne_eq,
      not_false_eq_true]
  · exact bodies
  · rw [h.bodies, if_neg fun holds => here (before p (h.owned p holds)),
      if_neg fun holds => here (later p (owned p holds))]
  · exact pending
  · rw [h.pending, if_neg fun has => here (before p has.2), if_neg fun has => here (later p has.2)]

theorem only {p q : Page} (has : owner = some q) (here : owner = some p) : p = q :=
  Option.some.inj (here.symm.trans has)

/-- The holder calls `acquire_console` again. -/
theorem nests (h : ConsoleLock c owner) (old : c.tasks c.kernel.current = .acquire masked :: rest)
    (mine : c.holder = some c.kernel.current) :
    ConsoleLock ({ c with depth := c.depth + 1 }.setTasks (.body masked :: rest)) owner := by
  obtain ⟨bodies, pending⟩ := h.counts false false old rfl rfl
  have has := h.owned _ mine
  rw [if_pos mine] at bodies
  exact h.passes rfl (fun _ => only has) (fun _ => only has)
    ((countP_cons_of_pos rfl).trans ((congrArg (· + 1) bodies).trans (if_pos mine).symm))
    ((countP_cons_of_neg Bool.false_ne_true).trans pending)
    h.value h.owned fun none => by cases mine.symm.trans none

/-- A `sema_down` finds the unit. -/
theorem downs (h : ConsoleLock c owner) {top : Task} (old : c.tasks c.kernel.current = top :: rest)
    (outside : top.inside = false) (unit : (c.kernel.sema consoleSema).value ≠ 0) :
    owner = none ∧
      ConsoleLock ((downedConsole c).setTasks (.took :: rest)) (some c.kernel.current) := by
  have vacant : owner = none := by
    by_contra taken
    exact unit (h.value.trans (if_neg taken))
  have free : c.holder = none := by
    by_contra held
    obtain ⟨p, here⟩ := Option.ne_none_iff_exists'.mp held
    cases vacant.symm.trans (h.owned p here)
  obtain ⟨noBody, noPending⟩ := Bool.or_eq_false_iff.mp outside
  obtain ⟨bodies, pending⟩ := h.counts false false old noBody noPending
  rw [if_neg (by simp [vacant])] at pending
  refine ⟨vacant, h.passes rfl (by simp [vacant]) (fun _ same => (Option.some.inj same).symm)
    ((countP_cons_of_neg Bool.false_ne_true).trans bodies) ((countP_cons_of_pos rfl).trans
      ((congrArg (· + 1) pending).trans (if_pos ⟨free, rfl⟩).symm)) ?_
    (fun p here => by cases free.symm.trans here) h.flat⟩
  change ((c.kernel.setSema consoleSema _).sema consoleSema).value = 0
  rw [Kernel.setSema_sema, if_pos rfl, h.value, if_pos vacant]

/-- Whoever is in the middle of taking the lock or giving it back has the unit. -/
theorem has_pending (h : ConsoleLock c owner) {p : Page} {t : Task} (here : t ∈ c.tasks p)
    (pending : t.isPending = true) : c.holder = none ∧ owner = some p := by
  have count := h.pending p
  by_contra other
  rw [if_neg other, countP_eq_zero] at count
  exact count t here pending

/-- The owner of the unit becomes the holder of the lock. -/
theorem setsHolder (h : ConsoleLock c owner) (old : c.tasks c.kernel.current = .took :: rest) :
    ConsoleLock (c.setHolder masked rest) owner := by
  obtain ⟨free, has⟩ := h.has_pending (old ▸ mem_cons_self) rfl
  obtain ⟨bodies, pending⟩ := h.counts false true old rfl rfl
  rw [if_neg (by simp [free])] at bodies
  rw [if_pos ⟨free, has⟩] at pending
  refine h.passes rfl (fun _ => only has) (fun _ => only has) ((countP_cons_of_pos rfl).trans ?_)
    ((countP_cons_of_neg Bool.false_ne_true).trans ((Nat.succ.inj pending).trans
      (if_neg fun none => by cases none.1).symm)) h.value
    (fun _ same => has.trans same) (by rintro ⟨⟩)
  exact (congrArg (· + 1) (bodies.trans (h.flat free).symm)).trans (if_pos rfl).symm

theorem takes (h : ConsoleLock c owner) {top : Task} (old : c.tasks c.kernel.current = top :: rest)
    (outside : top.inside = false) (unit : (c.kernel.sema consoleSema).value ≠ 0) :
    ConsoleLock (if masked then (downedConsole c).setHolder masked rest
      else (downedConsole c).setTasks (.took :: rest)) (some c.kernel.current) := by
  have took := (h.downs old outside unit).2
  cases masked with
  | false => exact took
  | true =>
    have sets : ConsoleLock (((downedConsole c).setTasks (.took :: rest)).setHolder true rest) _ :=
      took.setsHolder (update_self _ _ _)
    simpa [Console.setHolder, Console.setTasks] using sets

theorem consoleUp_setTasks (c : Console) (list rest : List Task) :
    (c.setTasks list).consoleUp rest = c.consoleUp rest := by
  unfold Console.consoleUp
  change (semaUp c.kernel consoleSema).map _ = _
  cases upping : semaUp c.kernel consoleSema with
  | error fault => rfl
  | ok k => simp [Except.map, Console.setTasks, (semaUp_globals upping).current]

/-- The semaphore gets its unit back. -/
theorem ups (h : ConsoleLock c owner) (old : c.tasks c.kernel.current = .cleared :: rest)
    (taken : c.consoleUp rest = .ok after) : ConsoleLock after none := by
  obtain ⟨free, has⟩ := h.has_pending (old ▸ mem_cons_self) rfl
  obtain ⟨bodies, pending⟩ := h.counts false true old rfl rfl
  rw [if_neg (by simp [free])] at bodies
  rw [if_pos ⟨free, has⟩] at pending
  obtain ⟨upped, upping, rfl⟩ := map_eq_ok.mp taken
  have tasks : ({ c with kernel := upped }.setTasks rest).tasks =
      update c.tasks c.kernel.current rest := by
    rw [← (semaUp_globals upping).current]
    rfl
  refine h.passes tasks (fun _ => only has) (fun _ none => by cases none)
    (bodies.trans (if_neg fun held => by cases free.symm.trans held).symm)
    ((Nat.succ.inj pending).trans (if_neg fun none => by cases none.2).symm) ?_
    (fun p here => by cases free.symm.trans here) h.flat
  change (upped.sema consoleSema).value = 1
  rw [semaUp_sema upping, if_pos rfl, Semaphore.up, h.value, if_neg (by simp [has])]

/-- `release_console` counts down, gives the lock back or is about to. -/
theorem releases (h : ConsoleLock c owner) (old : c.tasks c.kernel.current = .body masked :: rest)
    (taken : c.releaseConsole masked rest = .ok after) : ∃ now, ConsoleLock after now := by
  obtain ⟨bodies, pending⟩ := h.counts true false old rfl rfl
  have mine : c.holder = some c.kernel.current := by
    by_contra other
    rw [if_neg other] at bodies
    cases bodies
  have has := h.owned _ mine
  rw [if_pos mine] at bodies
  rw [if_neg (by simp [mine])] at pending
  unfold Console.releaseConsole at taken
  split at taken
  · rename_i deep
    cases taken
    refine ⟨owner, h.passes rfl (fun _ => only has) (fun _ => only has) ?_
      (pending.trans (if_neg fun free => by cases mine.symm.trans free.1).symm) h.value h.owned
      fun none => by cases mine.symm.trans none⟩
    exact ((Nat.succ.inj bodies).trans (Nat.sub_add_cancel deep).symm).trans (if_pos mine).symm
  · rename_i last
    have flat : c.depth = 0 := Nat.eq_zero_of_not_pos last
    have clears : ConsoleLock ({ c with holder := none }.setTasks (.cleared :: rest)) owner :=
      h.passes rfl (fun _ => only has) (fun _ => only has)
        ((countP_cons_of_neg Bool.false_ne_true).trans ((Nat.succ.inj bodies).trans flat))
        ((countP_cons_of_pos rfl).trans
          ((congrArg (· + 1) pending).trans (if_pos (And.intro rfl has)).symm))
        h.value (fun _ none => by cases none) fun _ => flat
    cases masked with
    | false =>
      cases taken
      exact ⟨owner, clears⟩
    | true =>
      exact ⟨none, clears.ups (update_self _ _ _) ((consoleUp_setTasks _ _ _).trans taken)⟩

/-- The running thread enters the list of waiters, inside the lock's `sema_down`. -/
theorem waits (h : ConsoleLock c owner) {top : Task} (old : c.tasks c.kernel.current = top :: rest)
    (outside : top.inside = false) : ConsoleLock (waitingConsole c masked rest) owner := by
  refine h.moves [top] [.retest masked] old (by simpa using outside)
    (by simp [Task.inside, Task.isBody, Task.isPending]) rfl ?_ rfl rfl
  rw [waitingConsole, Kernel.setStatus_sema, Kernel.setSema_sema, if_pos rfl]

theorem lineCalls_plain (c : Console) : ∀ t ∈ c.lineCalls, t = .acquire true := by
  intro t member
  unfold Console.lineCalls at member
  split at member
  · exact eq_of_mem_replicate member
  · cases member

theorem task (h : ConsoleLock c owner) (step : TaskStep c after) :
    ∃ now, ConsoleLock after now := by
  have one : ∀ {t : Task}, t.inside = false → ∀ x ∈ [t], x.inside = false := by
    rintro t plain x member
    rw [mem_singleton.mp member]
    exact plain
  cases step with
  | calls empty _ => exact ⟨owner, h.sets [] [_] empty (forall_mem_nil _) (one rfl) rfl rfl⟩
  | row old =>
    exact ⟨owner, h.sets [.rows] [.acquire true, .acquire true, .rows] old (one rfl)
      (by decide) rfl rfl⟩
  | @skips top rest old plain =>
    refine ⟨owner, h.sets [top] [] old (one ?_) (forall_mem_nil _) rfl rfl⟩
    rcases plain with ⟨_, rfl⟩ | rfl <;> rfl
  | @table next rest old _ =>
    exact ⟨owner, h.sets [.check next] [.acquire true, .rows, .acquire true, .printed] old (one rfl)
      (by decide) rfl (by simp only [Kernel.sema])⟩
  | printed old => exact ⟨owner, h.sets [.printed] [] old (one rfl) (forall_mem_nil _) rfl rfl⟩
  | line old =>
    refine ⟨owner, h.sets [.line] c.lineCalls old (one rfl) (fun t member => ?_) rfl rfl⟩
    rw [lineCalls_plain c t member]
    rfl
  | nests old mine => exact ⟨owner, h.nests old mine⟩
  | takes old tests unit =>
    refine ⟨_, h.takes old ?_ unit⟩
    rcases tests with rfl | rfl <;> rfl
  | holds old => exact ⟨owner, h.setsHolder old⟩
  | waits old tests zero scheduled =>
    obtain ⟨next, ready, switched⟩ := Console.schedule_effects scheduled
    refine ⟨owner, (h.waits old ?_).switches switched⟩
    rcases tests with ⟨rfl, _⟩ | rfl <;> rfl
  | releases old released => exact h.releases old released
  | ups old upped => exact ⟨none, h.ups old upped⟩

theorem kernel (h : ConsoleLock c owner) {k : Kernel}
    (sema : k.sema consoleSema = c.kernel.sema consoleSema) :
    ConsoleLock { c with kernel := k } owner :=
  ⟨sema ▸ h.value, h.owned, h.flat, h.bodies, h.pending⟩

theorem finish (h : ConsoleLock c owner) {outcome : Outcome}
    (sema : outcome.kernel.sema consoleSema = c.kernel.sema consoleSema)
    (finished : c.finish outcome = .ok after) : ConsoleLock after owner := by
  cases outcome with
  | returns k =>
    cases finished
    exact h.kernel sema
  | schedules k =>
    obtain ⟨next, ready, switched⟩ := Console.schedule_effects finished
    exact (h.kernel sema).switches switched

theorem step (h : ConsoleLock c owner) {e : ConsoleEvent} (taken : c.step e = .ok after) :
    ∃ now, ConsoleLock after now := by
  cases e with
  | kernel e =>
    obtain ⟨allowed, other, outcome, body, finished⟩ := Console.step_kernel taken
    exact ⟨owner, h.finish (opBody_consoleSema allowed other body) finished⟩
  | _ => exact h.task (Console.step_task taken (by simp))

/-- The owner of the unit can be read off. -/
theorem owns_iff (h : ConsoleLock c owner) (p : Page) : c.owns p = true ↔ owner = some p := by
  simp only [Console.owns, Bool.or_eq_true, decide_eq_true_eq, any_eq_true]
  constructor
  · rintro (held | ⟨t, member, pending⟩)
    · exact h.owned p held
    · exact (h.has_pending member pending).2
  · intro has
    cases holder : c.holder with
    | some q => exact .inl ((h.owned q holder).symm.trans has)
    | none =>
      have count := h.pending p
      rw [if_pos ⟨holder, has⟩] at count
      exact .inr (countP_pos_iff.mp (count ▸ Nat.one_pos))

theorem owns_of (h : ConsoleLock c owner) (h' : ConsoleLock after owner) {p : Page}
    (owns : after.owns p = true) : c.owns p = true :=
  (h.owns_iff p).mpr ((h'.owns_iff p).mp owns)

end ConsoleLock

theorem threadInit_userSema {mode : Mode} {values : Nat → Nat} {k : Kernel}
    (booted : threadInit mode values = .ok k) (n : Nat) : k.sema (.user n) = ⟨values n, []⟩ := by
  obtain ⟨made, effects, rfl⟩ := threadInit_effects booted
  exact congrFun effects.userSema n

theorem initial_consoleLock {mode : Mode} (start : (consoleSystem mode).initial c) :
    ConsoleLock c none := by
  obtain ⟨values, k, one, booted, rfl, free, flat, idle⟩ := start
  refine ⟨?_, fun p here => (by cases free.symm.trans here), fun _ => flat, fun p => ?_,
    fun p => ?_⟩
  · rw [consoleSema, threadInit_userSema booted]
    exact one
  · rw [idle, free]
    rfl
  · rw [idle, if_neg (by simp)]
    rfl

end
end Calendarizador.Source
