import Calendarizador.Invariant.Console
import Calendarizador.Invariant.Printing
import Calendarizador.Invariant.Records

/-!
# The idle thread and the console

Until the idle thread stores `idle_thread` the kernel is in `thread_start`, where only tasks
with interrupts off print and the running thread is the only one that can hold the console.
From then on the idle thread prints nothing but the table of ready threads, which is printed
once, so it asks for the console only while `threads_print` is set. If until then the owner of
the console's unit is always running or ready, the idle thread finds it free: it is dispatched
only when nobody is ready.
-/
namespace Calendarizador.Source
open Foundation Function List

/-- The kernel has not left `thread_start`. -/
structure Early (k : Kernel) : Prop where
  booting : Booting k
  starting : k.Starting
  none : k.idleThread = none
  live : ∀ p, (k.code p).early → k.Live p
  named : ∀ p, k.code p = .idleEntry → (k.thread p).name = idleName

/-- The console before `idle_thread` is set. -/
structure ConsoleBoot (c : Console) : Prop where
  inv : Inv c.kernel
  early : Early c.kernel
  others : ∀ p, p ≠ c.kernel.current → c.tasks p = []
  quiet : ∀ t ∈ c.tasks c.kernel.current, t.quiet = true

/-- Nothing below a part of `schedule` that takes no lock takes one either, and nothing
below the assignment to `threads_print`. -/
def Ordered (list : List Task) : Prop :=
  list.Pairwise fun upper lower =>
    upper = .printed ∨ upper.silent = true → lower.silent = true

/-- The idle thread `i` is on no list. -/
structure IdlePlaced (k : Kernel) (i : Page) : Prop where
  notReady : i ∉ k.readyList
  notWaiting : ∀ s, i ∉ (k.sema s).waiters
  code : (k.code i).isIdle
  settled : ∀ p, ¬ (k.code p).early
  allocated : k.allocated i = true
  name : (k.thread i).name = idleName

/-- Tasks the idle thread may have; `print` is the value of `threads_print`. -/
structure IdleTasks (print : Bool) (list : List Task) : Prop where
  quiet : ∀ t ∈ list, t.quiet = true
  ordered : Ordered list
  printed : print = false → ∀ t ∈ list, t.silent = true

structure IdleOk (c : Console) (i : Page) : Prop where
  placed : IdlePlaced c.kernel i
  away : c.kernel.current ≠ i → c.tasks i = []
  tasks : IdleTasks c.kernel.threadsPrint (c.tasks i)
  alone : c.kernel.threadsPrint = true → c.kernel.current = i → ∀ p, c.owns p = true → p = i

structure ConsoleOk (c : Console) : Prop where
  lock : ∃ owner, ConsoleLock c owner
  runs : c.kernel.threadsPrint = true → ∀ p, c.owns p = true →
    p = c.kernel.current ∨ p ∈ c.kernel.readyList
  boot : c.kernel.idleThread = none → ConsoleBoot c
  idle : ∀ i, c.kernel.idleThread = some i → IdleOk c i

/-- What a task does to the kernel if it does not call `schedule`. -/
structure Gentle (k after : Kernel) : Prop where
  rouses : Rouses k after
  control : SameControl k after
  name : ∀ p, (after.thread p).name = (k.thread p).name
  started : after.idleStarted = k.idleStarted
  inv : Inv k → Inv after
  allList : after.allList = k.allList

/-- A task that does not call `schedule`: the running thread has `list` to execute in place of
`old`. -/
structure LocalStep (c after : Console) (old list : List Task) : Prop where
  before : c.tasks c.kernel.current = old
  kernel : Gentle c.kernel after.kernel
  tasks : after.tasks = Function.update c.tasks c.kernel.current list
  holder : ∀ p, after.holder = some p → p = c.kernel.current ∨ c.holder = some p
  print : after.kernel.threadsPrint = true → c.kernel.threadsPrint = true
  quiet : (∀ t ∈ old, t.quiet = true) → ∀ t ∈ list, t.quiet = true
  idle : (c.kernel.thread c.kernel.current).name = idleName →
    IdleTasks c.kernel.threadsPrint old → IdleTasks after.kernel.threadsPrint list

/-- The next task of the running thread enters the list of waiters for the console. -/
def Console.waits (c : Console) : Bool :=
  match c.tasks c.kernel.current with
  | .acquire _ :: _ =>
    c.holder ≠ some c.kernel.current && (c.kernel.sema consoleSema).value = 0
  | .retest _ :: _ => (c.kernel.sema consoleSema).value = 0
  | _ => false

/-- Until the table is printed, a thread that has the unit of the console neither waits, for the
console itself or anything else, nor exits. -/
def HolderStays (c : Console) (e : ConsoleEvent) : Prop :=
  c.kernel.threadsPrint = true → c.owns c.kernel.current = true →
    match e with
    | .kernel e => ¬ GivesUp c.kernel e
    | _ => c.waits = false

instance (c : Console) (e : ConsoleEvent) : Decidable (HolderStays c e) := by
  unfold HolderStays
  cases e <;> infer_instance

section
variable {k after : Kernel} {e : Event}

theorem Early.frame (h : Early k) (code : ∀ p, after.code p = k.code p)
    (live : ∀ p, after.Live p ↔ k.Live p) (started : after.idleStarted = k.idleStarted)
    (initial : after.initialThread = k.initialThread) (idle : after.idleThread = k.idleThread)
    (name : ∀ p, (after.thread p).name = (k.thread p).name) : Early after := by
  have starting : after.Starting ↔ k.Starting := by
    rw [Kernel.Starting, Kernel.Starting, code, initial]
  refine ⟨⟨fun inside p alive other => ?_, fun inside unit => ?_⟩, starting.mpr h.starting,
    idle.trans h.none, fun p early => ?_, fun p entry => ?_⟩
  · rw [code]
    rw [initial] at other
    exact h.booting.others (starting.mp inside) p ((live p).mp alive) other
  · rw [started] at unit
    obtain ⟨p, alive, loop⟩ := h.booting.unit (starting.mp inside) unit
    exact ⟨p, (live p).mpr alive, by rw [code, loop]⟩
  · rw [code] at early
    exact (live p).mpr (h.live p early)
  · rw [code] at entry
    rw [name]
    exact h.named p entry

theorem Early.same (h : Early k) (same : SamePlaces k after)
    (name : ∀ p, (after.thread p).name = (k.thread p).name) : Early after := by
  refine h.frame same.code (fun p => ?_) (same.sema .idleStarted) same.control.initialThread
    same.control.idleThread name
  rw [Kernel.Live, Kernel.Live, same.status, same.allocated]

/-- Nobody runs in `thread_start` but `main` and the idle thread. -/
theorem Early.notUser (h : Early k) (inv : Inv k) :
    k.code k.current ≠ .user ∧ ∀ rep seen, k.code k.current ≠ .exiting rep seen := by
  rcases h.booting.current h.starting inv.live with inside | idles
  · refine ⟨fun no => ?_, fun rep seen no => ?_⟩ <;> rw [no] at inside <;> cases inside
  · refine ⟨fun no => ?_, fun rep seen no => ?_⟩ <;> rw [no] at idles <;>
      rcases idles with no | no | no <;> cases no

/-- An event of `thread_start` other than the assignment to `idle_thread`. -/
theorem Early.opBody (h : Early k) (inv : Inv k) (enabled : e.enabled k = true)
    (other : e ≠ .idleSet) {outcome : Outcome} (taken : Source.opBody k e = .ok outcome) :
    Early outcome.kernel := by
  have initial := (opBody_current taken).2
  have code := opBody_code inv enabled taken
  have idle : outcome.kernel.idleThread = Option.none := by
    rcases opBody_control taken with same | ⟨set, _⟩
    · exact same.idleThread.trans h.none
    · exact absurd set other
  have survive := (opBody_live inv enabled taken).2 (by
    rintro rfl
    simp only [Event.enabled] at enabled
    split at enabled
    · rename_i rep seen exiting
      exact (h.notUser inv).2 rep seen exiting
    · cases enabled)
  have starting : outcome.kernel.Starting := by
    by_contra outside
    rw [Kernel.Starting, code, initial] at outside
    obtain ⟨_, unit, _⟩ := codeAfter_leaves enabled (fun _ => created_fresh inv enabled taken
      inv.core.initial_allocated) h.starting outside
    obtain ⟨p, alive, loop⟩ := h.booting.unit h.starting unit
    have set := (inv.core.threads p).idle.mpr ⟨alive, .inr loop⟩
    rw [h.none] at set
    cases set
  have pages : ∀ p, (outcome.kernel.code p).early → outcome.kernel.Live p ∧
      (outcome.kernel.code p = .idleEntry → (outcome.kernel.thread p).name = idleName) := by
    intro p early
    by_cases starts : ∃ q, e = .startIdle q
    · obtain ⟨q, rfl⟩ := starts
      have written : outcome.kernel.code p =
          update (update k.code k.current .startWait) q .idleEntry p :=
        congrFun code p
      rw [startIdle_name taken]
      by_cases here : p = q
      · subst here
        exact ⟨(created_live inv enabled taken rfl).2, fun _ => if_pos rfl⟩
      · rw [update_of_ne here] at written
        rw [if_neg here]
        by_cases main : p = k.current
        · subst main
          rw [written, update_self] at early
          rcases early with no | no <;> cases no
        · rw [update_of_ne main] at written
          rw [written] at early ⊢
          exact ⟨survive p (h.live p early), h.named p⟩
    · rcases opBody_settled (fun q same => starts ⟨q, same⟩) taken p with same | late
      · rw [same] at early ⊢
        have alive := h.live p early
        rw [opBody_name taken alive.1]
        exact ⟨survive p alive, h.named p⟩
      · exact absurd early late
  exact ⟨h.booting.opBody inv enabled taken, starting, idle, fun p early => (pages p early).1,
    fun p entry => (pages p (.inr entry)).2 entry⟩

theorem Early.schedule (h : Early k) (core : Core k) (taken : Source.schedule k = .ok after)
    (name : ∀ p, (after.thread p).name = (k.thread p).name) : Early after := by
  have switched := schedule_switched core taken
  exact h.frame (congrFun switched.code) switched.live (congrFun switched.sema .idleStarted)
    switched.initialThread switched.idleThread name

theorem IdlePlaced.opBody {i : Page} (h : IdlePlaced k i) (set : k.idleThread = some i)
    (enabled : e.enabled k = true ∨ ∃ t, e = .unblock t ∧ k.code t = .parked) {outcome : Outcome}
    (taken : Source.opBody k e = .ok outcome) :
    IdlePlaced outcome.kernel i ∧ SameControl k outcome.kernel := by
  have placed := opBody_placed enabled taken
  have notStart : ∀ q, e ≠ .startIdle q := by
    rintro q rfl
    rcases enabled with enabled | ⟨_, ⟨⟩, _⟩
    exact h.settled k.current (.inl (of_decide_eq_true enabled))
  have notSet : e ≠ .idleSet := by
    rintro rfl
    rcases enabled with enabled | ⟨_, ⟨⟩, _⟩
    exact h.settled k.current (.inr (of_decide_eq_true enabled))
  refine ⟨⟨fun member => ?_, fun s member => ?_, placed.idles i h.allocated h.code,
    fun p early => ?_, placed.allocated i h.allocated, ?_⟩, ?_⟩
  · rcases placed.arrives i member with old | ⟨s, waiting⟩ | ⟨_, notIdle⟩ | free | parked
    · exact h.notReady old
    · exact h.notWaiting s waiting
    · exact notIdle set
    · rw [h.allocated] at free
      cases free
    · rcases h.code with up | loop
      · cases up.symm.trans parked
      · cases loop.symm.trans parked
  · rcases placed.waits s i member with old | ⟨here, notIdle⟩
    · exact h.notWaiting s old
    · exact notIdle (here ▸ h.code)
  · rcases opBody_settled notStart taken p with same | late
    · exact h.settled p (same ▸ early)
    · exact late early
  · rw [opBody_name taken h.allocated]
    exact h.name
  · rcases opBody_control taken with same | ⟨set, _⟩
    · exact same
    · exact absurd set notSet

/-- The idle thread leaves the processor by blocking or for its quantum. -/
theorem idle_schedules (idles : (k.code k.current).isIdle) (enabled : e.enabled k = true)
    {ready : Kernel} (body : Source.opBody k e = .ok (.schedules ready)) :
    ready.status k.current ≠ .dying := by
  have elsewhere : ∀ {c : Code}, k.code k.current = c → ¬ c.isIdle → False :=
    fun place notIdle => notIdle (place ▸ idles)
  generalize same : Outcome.schedules ready = outcome at body
  cases opBody_performs body with
  | idleBlock =>
    cases same
    simp
  | timer handles =>
    obtain ⟨handled, interrupted, chosen⟩ := bind_eq_ok.mp handles
    obtain ⟨_, lists, _⟩ := timerInterrupt_keeps (fun t => t.code) {} interrupted
    have current : handled.current = k.current := lists.current
    cases chosen
    split at same
    · cases same
      rw [← current]
      simp
    · cases same
  | startDown =>
    exact (elsewhere (of_decide_eq_true enabled) (by simp [Code.isIdle])).elim
  | block | yield | semaDown | sleep =>
    exact (elsewhere (of_decide_eq_true enabled) (by simp [Code.isIdle])).elim
  | semaRetry down => exact (elsewhere down (by simp [Code.isIdle])).elim
  | exitFinish exiting => exact (elsewhere exiting (by simp [Code.isIdle])).elim
  | _ => cases same

theorem IdlePlaced.rouses {i : Page} (h : IdlePlaced k i) (rouses : Rouses k after)
    (name : (after.thread i).name = (k.thread i).name) : IdlePlaced after i := by
  refine ⟨fun member => ?_, fun s member => h.notWaiting s (rouses.waits s i member), ?_,
    fun p => ?_, ?_, name.trans h.name⟩
  · rcases rouses.arrives i member with old | ⟨s, waiting⟩
    · exact h.notReady old
    · exact h.notWaiting s waiting
  · rw [rouses.code]
    exact h.code
  · rw [rouses.code]
    exact h.settled p
  · rw [rouses.allocated]
    exact h.allocated

theorem SamePlaces.rouses (h : SamePlaces k after) : Rouses k after := by
  refine ⟨fun p member => ?_, fun p member => .inl ?_, fun s p member => ?_, h.code, h.allocated⟩
  · rw [h.readyList]
    exact member
  · rw [h.readyList] at member
    exact member
  · rw [h.sema] at member
    exact member

theorem Task.quiet_of_silent {t : Task} (h : t.silent = true) : t.quiet = true := by
  cases t <;> first | rfl | cases h

namespace IdleTasks
variable {print : Bool} {top : Task} {front list : List Task}

theorem of_silent (silent : ∀ t ∈ list, t.silent = true) : IdleTasks print list :=
  ⟨fun t member => Task.quiet_of_silent (silent t member),
    pairwise_of_forall_mem_list fun _ _ lower member _ => silent lower member,
    fun _ => silent⟩

theorem tail (h : IdleTasks print (top :: list)) : IdleTasks print list :=
  ⟨fun t member => h.quiet t (mem_cons_of_mem _ member), (pairwise_cons.mp h.ordered).2,
    fun done t member => h.printed done t (mem_cons_of_mem _ member)⟩

theorem below (h : IdleTasks print (top :: list)) (last : top = .printed ∨ top.silent = true) :
    ∀ t ∈ list, t.silent = true :=
  fun t member => (pairwise_cons.mp h.ordered).1 t member last

/-- The idle thread prints only while the flag is set. -/
theorem prints (h : IdleTasks print (top :: list)) (loud : top.silent = false) : print = true := by
  by_contra done
  have silent := h.printed (by simpa using done) top mem_cons_self
  rw [loud] at silent
  cases silent

theorem cons (h : IdleTasks true list) (quiet : top.quiet = true) (loud : top.silent = false)
    (more : top ≠ .printed) : IdleTasks true (top :: list) := by
  refine ⟨fun t member => ?_, pairwise_cons.mpr ⟨fun t _ last => ?_, h.ordered⟩,
    fun done => by cases done⟩
  · rcases mem_cons.mp member with rfl | below
    · exact quiet
    · exact h.quiet t below
  · rcases last with same | silent
    · exact absurd same more
    · rw [loud] at silent
      cases silent

/-- The assignment to `threads_print` stands above tasks that print nothing. -/
theorem cons_printed (silent : ∀ t ∈ list, t.silent = true) :
    IdleTasks true (.printed :: list) := by
  have below : IdleTasks true list := of_silent silent
  refine ⟨fun t member => ?_, pairwise_cons.mpr ⟨fun t member _ => silent t member,
    below.ordered⟩, fun done => by cases done⟩
  rcases mem_cons.mp member with rfl | member
  · rfl
  · exact below.quiet t member

end IdleTasks

end

section
variable {c after : Console} {top : Task} {rest old list : List Task}

theorem quiet_tail (quiet : ∀ t ∈ top :: rest, t.quiet = true) : ∀ t ∈ rest, t.quiet = true :=
  (forall_mem_cons.mp quiet).2

/-- The task on top is replaced by one that is as quiet. -/
theorem quiet_top {new : Task} (as : top.quiet = true → new.quiet = true)
    (quiet : ∀ t ∈ top :: rest, t.quiet = true) : ∀ t ∈ new :: rest, t.quiet = true :=
  forall_mem_cons.mpr ((forall_mem_cons.mp quiet).imp as id)

theorem Gentle.same {k after : Kernel} (same : SamePlaces k after)
    (name : ∀ p, (after.thread p).name = (k.thread p).name) : Gentle k after :=
  ⟨same.rouses, same.control, name, same.sema .idleStarted, fun h => h.samePlaces same,
    same.allList⟩

theorem Gentle.refl (k : Kernel) : Gentle k k :=
  .same ⟨fun _ => rfl, fun _ => rfl, fun _ => rfl, rfl, rfl, rfl, rfl, rfl, ⟨rfl, rfl, rfl, rfl⟩⟩
    fun _ => rfl

theorem LocalStep.sets {k : Kernel} {h : Option Page} {d : Nat}
    (here : c.tasks c.kernel.current = old) (kernel : Gentle c.kernel k)
    (holder : ∀ p, h = some p → p = c.kernel.current ∨ c.holder = some p)
    (print : k.threadsPrint = true → c.kernel.threadsPrint = true)
    (quiet : (∀ t ∈ old, t.quiet = true) → ∀ t ∈ list, t.quiet = true)
    (idle : (c.kernel.thread c.kernel.current).name = idleName →
      IdleTasks c.kernel.threadsPrint old → IdleTasks k.threadsPrint list) :
    LocalStep c ({ c with kernel := k, holder := h, depth := d }.setTasks list) old list :=
  ⟨here, kernel, by rw [← kernel.control.current]; rfl, holder, print, quiet, idle⟩

/-- The unit passes to nobody else. -/
theorem LocalStep.owns (step : LocalStep c after old list) {p : Page}
    (owns : after.owns p = true) : p = c.kernel.current ∨ c.owns p = true := by
  by_cases here : p = c.kernel.current
  · exact .inl here
  · rw [Console.owns, step.tasks, update_of_ne here] at owns
    rcases Bool.or_eq_true_iff.mp owns with held | pending
    · refine (step.holder p (of_decide_eq_true held)).imp id fun held => ?_
      exact Bool.or_eq_true_iff.mpr (.inl (decide_eq_true held))
    · exact .inr (Bool.or_eq_true_iff.mpr (.inr pending))

/-- The `sema_up` of the lock, after the assignment to `holder`. -/
theorem LocalStep.ups {h : Option Page} (here : c.tasks c.kernel.current = top :: rest)
    (holder : ∀ p, h = some p → c.holder = some p)
    (upped : { c with holder := h }.consoleUp rest = .ok after) :
    LocalStep c after (top :: rest) rest := by
  obtain ⟨k, upping, rfl⟩ := map_eq_ok.mp upped
  have globals := semaUp_globals upping
  have print := semaUp_print upping
  refine .sets here ⟨semaUp_rouses upping, globals.control, (semaUp_calm upping).name,
    semaUp_sema upping .idleStarted, fun inv => inv.semaUp (by simp [consoleSema]) upping,
    globals.allList⟩ (fun p held => .inr (holder p held)) print.symm.trans quiet_tail
    fun _ idle => ?_
  rw [print]
  exact idle.tail

theorem totalReadyThreads_same (k : Kernel) (n : Int) :
    SamePlaces k { k with totalReadyThreads := n } :=
  ⟨fun _ => rfl, fun _ => rfl, fun s => by cases s <;> rfl, rfl, rfl, rfl, rfl, rfl,
    ⟨rfl, rfl, rfl, rfl⟩⟩

theorem threadsPrint_same (k : Kernel) (print : Bool) :
    SamePlaces k { k with threadsPrint := print } :=
  ⟨fun _ => rfl, fun _ => rfl, fun s => by cases s <;> rfl, rfl, rfl, rfl, rfl, rfl,
    ⟨rfl, rfl, rfl, rfl⟩⟩

/-- The verbose line is left out for the idle thread. -/
theorem lineCalls_idle (named : (c.kernel.thread c.kernel.current).name = idleName) :
    c.lineCalls = [] :=
  if_neg fun both => both.1 named

/-- Once begun, a `printf` of the idle thread is like its call. -/
theorem IdleTasks.begins {print : Bool} {masked : Bool} (h : IdleTasks print (top :: rest))
    (tests : top = .acquire masked ∨ top = .retest masked) :
    masked = true ∧ IdleTasks print (.body masked :: rest) := by
  have quiet := h.quiet top mem_cons_self
  rcases tests with rfl | rfl
  · have set := h.prints rfl
    subst set
    exact ⟨quiet, h.tail.cons quiet rfl (by simp)⟩
  · cases quiet

/-- The lock's `sema_down` has found a unit. -/
theorem LocalStep.takes {masked : Bool} (here : c.tasks c.kernel.current = top :: rest)
    (tests : top = .acquire masked ∨ top = .retest masked) :
    ∃ list, LocalStep c (if masked then (downedConsole c).setHolder masked rest
      else (downedConsole c).setTasks (.took :: rest)) (top :: rest) list := by
  have kernel : Gentle c.kernel (downedConsole c).kernel :=
    ⟨setValue_rouses c.kernel consoleSema _, ⟨rfl, rfl, rfl, rfl⟩,
      Kernel.keeps_setSema c.kernel consoleSema _ (fun t => t.name) fun _ _ => rfl, rfl,
      fun inv => inv.semaValue (s := consoleSema) (by simp [consoleSema]) _, rfl⟩
  cases masked with
  | true =>
    exact ⟨_, .sets here kernel (fun p here => .inl (Option.some.inj here).symm) id
      (quiet_top fun _ => rfl) fun _ idle => (idle.begins tests).2⟩
  | false =>
    have loud : top.quiet = false := by
      rcases tests with rfl | rfl <;> rfl
    refine ⟨_, .sets here kernel (fun _ => .inr) id (quiet_top fun no => ?_) fun _ idle => ?_⟩
    · cases loud.symm.trans no
    · cases (idle.begins tests).1

namespace ConsoleOk

theorem replaces (h : ConsoleOk c) (lock : ∃ owner, ConsoleLock after owner)
    (step : LocalStep c after old list) : ConsoleOk after := by
  have kernel := step.kernel
  have current := kernel.control.current
  refine ⟨lock, fun still p here => ?_, fun none => ?_, fun i set => ?_⟩
  · rw [current]
    rcases step.owns here with mine | owns
    · exact .inl mine
    · exact (h.runs (step.print still) p owns).imp id (kernel.rouses.keeps p)
  · have boot := h.boot (kernel.control.idleThread.symm.trans none)
    have inv := kernel.inv boot.inv
    refine ⟨inv, boot.early.frame kernel.rouses.code (fun p => ?_) kernel.started
      kernel.control.initialThread kernel.control.idleThread kernel.name, fun p other => ?_, ?_⟩
    · rw [← (inv.core.threads p).all, ← (boot.inv.core.threads p).all, kernel.allList]
    · rw [current] at other
      rw [step.tasks, update_of_ne other]
      exact boot.others p other
    · rw [step.tasks, current, update_self]
      exact step.quiet (step.before ▸ boot.quiet)
  · have idle := h.idle i (kernel.control.idleThread.symm.trans set)
    refine ⟨idle.placed.rouses kernel.rouses (kernel.name i), fun other => ?_, ?_,
      fun still here p => ?_⟩
    · rw [current] at other
      rw [step.tasks, update_of_ne (Ne.symm other)]
      exact idle.away other
    · rw [step.tasks]
      by_cases here : i = c.kernel.current
      · subst here
        rw [update_self]
        exact step.idle idle.placed.name (step.before ▸ idle.tasks)
      · rw [update_of_ne here, idle.away (Ne.symm here)]
        exact .of_silent (forall_mem_nil _)
    · intro held
      rw [current] at here
      rcases step.owns held with mine | before
      · exact mine.trans here
      · exact idle.alone (step.print still) here p before

/-- Between quiet tasks only the holder has the unit. -/
theorem holder_of_quiet {p : Page} (quiet : ∀ t ∈ c.tasks p, t.quiet = true)
    (owns : c.owns p = true) : c.holder = some p := by
  rcases Bool.or_eq_true_iff.mp owns with held | pending
  · exact of_decide_eq_true held
  · obtain ⟨t, member, pending⟩ := any_eq_true.mp pending
    have quiet := quiet t member
    cases t <;> contradiction

/-- A thread without tasks has no unit. -/
theorem not_owns (h : ConsoleOk c) {p : Page} (empty : c.tasks p = []) : c.owns p ≠ true := by
  intro owns
  obtain ⟨owner, lock⟩ := h.lock
  refine lock.holds (p := p) ?_ (holder_of_quiet ?_ owns) <;> simp [empty]

/-- A thread that waits for the console is neither in `thread_start` nor the idle thread. -/
theorem waiter (h : ConsoleOk c) {masked : Bool} (old : c.tasks c.kernel.current = top :: rest)
    (tests : c.downs masked top)
    (zero : (c.kernel.sema consoleSema).value = 0) :
    c.kernel.idleThread ≠ none ∧ c.kernel.idleThread ≠ some c.kernel.current := by
  obtain ⟨owner, lock⟩ := h.lock
  obtain ⟨p, has⟩ : ∃ p, owner = some p := by
    refine Option.ne_none_iff_exists'.mp fun vacant => ?_
    rw [lock.value, if_pos vacant] at zero
    cases zero
  have owns := (lock.owns_iff p).mpr has
  -- a quiet thread that has the unit holds the lock and does not wait for it
  have never (quiet : ∀ t ∈ c.tasks c.kernel.current, t.quiet = true)
      (mine : p = c.kernel.current) : False := by
    rcases tests with ⟨_, other⟩ | rfl
    · exact other (holder_of_quiet quiet (mine ▸ owns))
    · have top := quiet _ (old ▸ mem_cons_self)
      cases top
  constructor
  · intro none
    refine never (h.boot none).quiet ?_
    by_contra other
    exact h.not_owns ((h.boot none).others p other) owns
  · intro set
    have idle := h.idle _ set
    have tasks := idle.tasks
    rw [old] at tasks
    refine never idle.tasks.quiet ?_
    rcases tests with ⟨rfl, _⟩ | rfl
    · exact idle.alone (tasks.prints rfl) rfl p owns
    · have top := tasks.quiet _ mem_cons_self
      cases top

end ConsoleOk

variable {i : Page} {e : Event} {outcome : Outcome}

/-- The idle thread after a call of `schedule`. -/
theorem IdlePlaced.dispatched {next : Page} {ready : List Page} (h : IdlePlaced c.kernel i)
    (switched : Switches c next ready after) (empty : c.tasks i = [])
    (stays : i = c.kernel.current → c.kernel.status i ≠ .dying)
    (runs : after.kernel.threadsPrint = true → ∀ p, after.owns p = true →
      p = after.kernel.current ∨ p ∈ after.kernel.readyList) : IdleOk after i := by
  obtain ⟨front, silent, tasks⟩ := switched.tasks
  have fits : after.kernel.readyList = ready := switched.readyList
  refine ⟨⟨fun member => ?_, fun s member => ?_, ?_, fun p => ?_, switched.allocated h.allocated
    stays, ?_⟩, fun other => ?_, .of_silent fun t member => ?_, fun still here p held => ?_⟩
  · rw [fits] at member
    rcases switched.picked with list | ⟨_, rfl, _⟩
    · exact h.notReady (list ▸ mem_cons_of_mem _ member)
    · cases member
  · rw [switched.sema] at member
    exact h.notWaiting s member
  · rw [switched.code]
    exact h.code
  · rw [switched.code]
    exact h.settled p
  · rw [switched.name]
    exact h.name
  · rw [switched.current] at other
    rw [tasks, update_of_ne (Ne.symm other), empty]
  · rw [tasks] at member
    by_cases here : i = next
    · subst here
      rw [update_self, empty, append_nil] at member
      exact silent t member
    · rw [update_of_ne here, empty] at member
      cases member
  · -- the idle thread is picked only if nobody is ready
    rcases runs still p held with mine | waits
    · exact mine.trans here
    · rw [switched.current] at here
      rw [fits] at waits
      rcases switched.picked with list | ⟨_, rfl, _⟩
      · exact absurd (list ▸ here ▸ mem_cons_self) h.notReady
      · cases waits

theorem IdlePlaced.waiting (h : IdlePlaced c.kernel i) (apart : i ≠ c.kernel.current)
    {masked : Bool} {rest : List Task} : IdlePlaced (waitingConsole c masked rest).kernel i := by
  have code : ∀ p, (waitingConsole c masked rest).kernel.code p = c.kernel.code p := by
    intro p
    rw [waitingConsole, setStatus_code]
    exact Kernel.setSema_code c.kernel _ _ p
  refine ⟨h.notReady, fun s member => ?_, ?_, fun p => ?_, h.allocated, ?_⟩
  · rw [waitingConsole, Kernel.setStatus_sema, Kernel.setSema_sema]
      at member
    split at member
    · rcases mem_append.mp member with old | new
      · exact h.notWaiting consoleSema old
      · exact apart (mem_singleton.mp new)
    · exact h.notWaiting s member
  · rw [code]
    exact h.code
  · rw [code]
    exact h.settled p
  · rw [← h.name]
    exact Kernel.keeps_upd (fun t => t.name) _ c.kernel.current (Thread.setStatus .blocked)
      (fun _ => rfl) i

theorem ConsoleOk.waits (h : ConsoleOk c) (stays : c.kernel.threadsPrint = true →
      c.owns c.kernel.current = true → c.waits = false) {masked : Bool}
    (old : c.tasks c.kernel.current = top :: rest) (tests : c.downs masked top)
    (zero : (c.kernel.sema consoleSema).value = 0)
    (scheduled : (waitingConsole c masked rest).schedule = .ok after) : ConsoleOk after := by
  obtain ⟨next, ready, switched⟩ := Console.schedule_effects scheduled
  obtain ⟨booted, notIdle⟩ := h.waiter old tests zero
  obtain ⟨owner, lock⟩ := h.lock
  have waiting : c.waits = true ∧ top.inside = false := by
    unfold Console.waits
    rw [old]
    rcases tests with ⟨rfl, other⟩ | rfl
    · exact ⟨by simp [other, zero], rfl⟩
    · exact ⟨decide_eq_true zero, rfl⟩
  have lock' := (lock.waits old waiting.2).switches switched
  have idleThread : after.kernel.idleThread = c.kernel.idleThread := switched.idleThread
  have runs : after.kernel.threadsPrint = true → ∀ p, after.owns p = true →
      p = after.kernel.current ∨ p ∈ after.kernel.readyList := by
    intro still p owns
    rw [switched.print] at still
    have owns := lock.owns_of lock' owns
    rcases h.runs still p owns with rfl | ready
    · cases (stays still owns).symm.trans waiting.1
    · exact switched.stays ready
  refine ⟨⟨owner, lock'⟩, runs, fun none => absurd (idleThread.symm.trans none) booted,
    fun i set => ?_⟩
  rw [idleThread] at set
  have apart : i ≠ c.kernel.current := by
    rintro rfl
    exact notIdle set
  have idle := h.idle i set
  refine (idle.placed.waiting apart).dispatched switched ?_ (fun same => absurd same apart) runs
  exact (update_of_ne apart _ _).trans (idle.away (Ne.symm apart))

/-- In `thread_start` and in the idle thread every section starts between two tasks. -/
theorem allows_quiet (allowed : c.allows e = true)
    (quiet : ∀ t ∈ c.tasks c.kernel.current, t.quiet = true) (other : ∀ t, e ≠ .unblock t) :
    e.enabled c.kernel = true ∧ c.tasks c.kernel.current = [] := by
  rcases c.allows_cases allowed with ⟨enabled, empty | ⟨top, here, loud⟩⟩ | ⟨t, same, _⟩
  · exact ⟨enabled, empty⟩
  · cases loud.symm.trans (quiet top here)
  · exact absurd same (other t)

/-- Nobody can be unblocked in `thread_start`. -/
theorem ConsoleBoot.notUnblock (h : ConsoleBoot c) (allowed : c.allows e = true)
    (body : opBody c.kernel e = .ok outcome) (t : Page) : e ≠ .unblock t := by
  rintro rfl
  have parked : c.kernel.code t = .parked ∧ c.kernel.allocated t = true := by
    rcases c.allows_cases allowed with ⟨enabled, _⟩ | ⟨_, ⟨⟩, used, parked⟩
    · exact ⟨(of_decide_eq_true enabled).2.2, (of_decide_eq_true enabled).2.1⟩
    · exact ⟨parked, used⟩
  obtain ⟨unblocked, unblocking, _⟩ := bind_eq_ok.mp body
  have blocked := (threadUnblock_effects unblocking).blocked
  have alive : c.kernel.Live t := ⟨parked.2, by rw [blocked]; simp⟩
  by_cases main : t = c.kernel.initialThread
  · have inside := h.early.starting
    rw [Kernel.Starting, ← main, parked.1] at inside
    cases inside
  · rcases h.early.booting.others h.early.starting t alive main with no | no | no
    · cases no.symm.trans parked.1
    · cases no.symm.trans parked.1
    · cases no.symm.trans parked.1

/-- `thread_start` switches to another thread. -/
theorem ConsoleBoot.switches (h : ConsoleBoot c) (empty : c.tasks c.kernel.current = [])
    {k : Kernel} (core : Core k) (early : Early k) {next : Page} {ready : List Page}
    (switched : Switches { c with kernel := k } next ready after) : ConsoleBoot after := by
  have nobody : ∀ p, c.tasks p = [] := by
    intro p
    by_cases here : p = c.kernel.current
    · rw [here, empty]
    · exact h.others p here
  obtain ⟨front, silent, tasks⟩ := switched.tasks
  have tasks : after.tasks = update c.tasks next (front ++ c.tasks next) := tasks
  have names : ∀ p, ((dispatch { k with readyList := ready } next).thread p).name =
      (k.thread p).name :=
    dispatch_keeps _ next (fun t => t.name) {}
  refine ⟨(core.schedule switched.base).samePlaces switched.same,
    (early.schedule core switched.base names).same switched.same fun p =>
      (switched.name p).trans (names p).symm, fun p other => ?_, fun t member => ?_⟩
  · rw [switched.current] at other
    rw [tasks, update_of_ne other]
    exact nobody p
  · rw [tasks, switched.current, update_self, nobody next, append_nil] at member
    exact Task.quiet_of_silent (silent t member)

theorem Console.finish_idleThread (finished : c.finish outcome = .ok after) :
    after.kernel.idleThread = outcome.kernel.idleThread := by
  cases outcome with
  | returns k =>
    cases finished
    rfl
  | schedules k =>
    obtain ⟨next, ready, switched⟩ := Console.schedule_effects finished
    exact switched.idleThread

/-- The owner of the unit keeps running or becomes ready. -/
theorem ConsoleOk.owner_runs (h : ConsoleOk c) (stays : HolderStays c (.kernel e))
    (allowed : c.allows e = true) (body : opBody c.kernel e = .ok outcome)
    (placed : Placed c.kernel outcome.kernel) (finished : c.finish outcome = .ok after)
    (still : after.kernel.threadsPrint = true) {p : Page} (owns : c.owns p = true) :
    p = after.kernel.current ∨ p ∈ after.kernel.readyList := by
  have print := opBody_print body
  have current := (opBody_current body).1
  cases outcome with
  | returns k =>
    cases finished
    have still : c.kernel.threadsPrint = true := print.symm.trans still
    exact (h.runs still p owns).imp (fun mine => mine.trans current.symm) (placed.keeps p)
  | schedules k =>
    obtain ⟨next, ready, switched⟩ := Console.schedule_effects finished
    rw [switched.print] at still
    have still : c.kernel.threadsPrint = true := print.symm.trans still
    refine switched.stays ?_
    rcases h.runs still p owns with rfl | waiting
    · by_cases interrupts : e = .timer
      · subst interrupts
        refine (intrHandler_placed body).2 ⟨k, rfl⟩ fun set => ?_
        -- the idle thread takes no timer interrupt while it prints
        exact h.not_owns (allows_quiet allowed (h.idle _ set).tasks.quiet (by simp)).2 owns
      · exact absurd (opBody_givesUp interrupts body) (stays still owns)
    · exact placed.keeps p waiting

/-- The idle thread stores `idle_thread`. -/
theorem ConsoleBoot.idleSet (h : ConsoleBoot c) (ok : ConsoleOk c)
    (empty : c.tasks c.kernel.current = []) (enabled : Event.enabled c.kernel .idleSet = true)
    (body : opBody c.kernel .idleSet = .ok outcome) : outcome = .returns outcome.kernel ∧
      IdleOk { c with kernel := outcome.kernel } c.kernel.current := by
  have entry : c.kernel.code c.kernel.current = .idleEntry := of_decide_eq_true enabled
  have placed := opBody_placed (.inl enabled) body
  obtain ⟨_, notReady, _, notWaiting⟩ := h.inv.current_free
  have current := (opBody_current body).1
  have settled := opBody_settled (fun q => by simp) body
  have code : outcome.kernel.code c.kernel.current = .idleUp := by
    rw [opBody_code h.inv enabled body]
    exact update_self _ _ _
  have early : ∀ p, ¬ (outcome.kernel.code p).early := by
    intro p early
    by_cases here : p = c.kernel.current
    · rw [here, code] at early
      rcases early with no | no <;> cases no
    · rcases settled p with same | late
      · rw [same] at early
        have alive := h.early.live p early
        rcases early with start | again
        · exact (h.inv.core.start p alive start).2.2 _ h.inv.live entry
        · exact here (h.inv.core.entry_unique p _ alive h.inv.live again entry)
      · exact late early
  refine ⟨by cases body; rfl, ⟨fun member => ?_, fun s member => ?_, ?_, early, ?_, ?_⟩,
    fun _ => empty, ?_, fun _ _ p held => ?_⟩
  · cases body
    exact notReady member
  · cases body
    refine notWaiting s ?_
    change _ ∈ (Kernel.sema (Kernel.setCode { c.kernel with idleThread := some c.kernel.current }
      c.kernel.current .idleUp) s).waiters at member
    rw [Kernel.setCode_sema] at member
    cases s <;> exact member
  · rw [code]
    exact .inl rfl
  · exact placed.allocated _ h.inv.live.1
  · rw [opBody_name body h.inv.live.1]
    exact h.early.named _ entry
  · rw [empty]
    exact .of_silent (forall_mem_nil _)
  · by_contra other
    exact ok.not_owns (h.others p other) held

theorem ConsoleBoot.kernel (h : ConsoleBoot c) (allowed : c.allows e = true)
    (body : opBody c.kernel e = .ok outcome) (finished : c.finish outcome = .ok after)
    (none : after.kernel.idleThread = none) : ConsoleBoot after := by
  obtain ⟨enabled, empty⟩ := allows_quiet allowed h.quiet (h.notUnblock allowed body)
  have notSet : e ≠ .idleSet := by
    rintro rfl
    rw [Console.finish_idleThread finished] at none
    cases body
    cases none
  have early := h.early.opBody h.inv enabled notSet body
  have good := opBody_inv h.inv e enabled body
  have current := (opBody_current body).1
  cases outcome with
  | returns k =>
    cases finished
    refine ⟨good, early, fun p other => h.others p fun same => other (same.trans current.symm),
      fun t member => ?_⟩
    have member : t ∈ c.tasks k.current := member
    rw [show k.current = c.kernel.current from current, empty] at member
    cases member
  | schedules k =>
    obtain ⟨next, ready, switched⟩ := Console.schedule_effects finished
    exact h.switches empty good early switched

theorem ConsoleOk.idle_kernel (h : ConsoleOk c) (set : c.kernel.idleThread = some i)
    (allowed : c.allows e = true) (body : opBody c.kernel e = .ok outcome)
    (finished : c.finish outcome = .ok after)
    (runs : after.kernel.threadsPrint = true → ∀ p, after.owns p = true →
      p = after.kernel.current ∨ p ∈ after.kernel.readyList) :
    after.kernel.idleThread = some i ∧ IdleOk after i := by
  have enabled : e.enabled c.kernel = true ∨ ∃ t, e = .unblock t ∧ c.kernel.code t = .parked :=
    (c.allows_cases allowed).imp And.left fun ⟨t, same, _, parked⟩ => ⟨t, same, parked⟩
  have idle := h.idle i set
  obtain ⟨placed, control⟩ := idle.placed.opBody set enabled body
  refine ⟨(Console.finish_idleThread finished).trans (control.idleThread.trans set), ?_⟩
  cases outcome with
  | returns k =>
    cases finished
    have current : k.current = c.kernel.current := control.current
    have print : k.threadsPrint = c.kernel.threadsPrint := opBody_print body
    refine ⟨placed, fun other => idle.away (current ▸ other), ?_, fun still here =>
      idle.alone (print ▸ still) (current ▸ here)⟩
    rw [print]
    exact idle.tasks
  | schedules k =>
    obtain ⟨next, ready, switched⟩ := Console.schedule_effects finished
    have current : k.current = c.kernel.current := control.current
    have running : c.kernel.current = i → e.enabled c.kernel = true ∧ c.tasks i = [] := by
      rintro rfl
      refine allows_quiet allowed idle.tasks.quiet ?_
      rintro t rfl
      obtain ⟨_, _, no⟩ := bind_eq_ok.mp body
      cases no
    have empty : c.tasks i = [] := by
      by_cases here : c.kernel.current = i
      · exact (running here).2
      · exact idle.away here
    refine IdlePlaced.dispatched (c := { c with kernel := k }) placed switched empty
      (fun here => ?_) runs
    have here : c.kernel.current = i := current.symm.trans here.symm
    have left := idle_schedules (here ▸ idle.placed.code) (running here).1 body
    rwa [here] at left

theorem ConsoleOk.kernel (h : ConsoleOk c) (stays : HolderStays c (.kernel e))
    (taken : c.step (.kernel e) = .ok after) : ConsoleOk after := by
  obtain ⟨allowed, other, outcome, body, finished⟩ := Console.step_kernel taken
  have enabled : e.enabled c.kernel = true ∨ ∃ t, e = .unblock t ∧ c.kernel.code t = .parked :=
    (c.allows_cases allowed).imp And.left fun ⟨t, same, _, parked⟩ => ⟨t, same, parked⟩
  obtain ⟨owner, lock⟩ := h.lock
  have lock' := lock.finish (opBody_consoleSema allowed other body) finished
  have runs := fun still p owns => h.owner_runs stays allowed body (opBody_placed enabled body)
    finished still (p := p) (lock.owns_of lock' owns)
  refine ⟨⟨owner, lock'⟩, runs, fun none => ?_, fun i set => ?_⟩
  · cases before : c.kernel.idleThread with
    | none => exact (h.boot before).kernel allowed body finished none
    | some j =>
      rw [(h.idle_kernel before allowed body finished runs).1] at none
      cases none
  · cases before : c.kernel.idleThread with
    | some j =>
      obtain ⟨same, idle⟩ := h.idle_kernel before allowed body finished runs
      cases same.symm.trans set
      exact idle
    | none =>
      have boot := h.boot before
      rw [Console.finish_idleThread finished] at set
      rcases opBody_control body with same | ⟨rfl, same⟩
      · cases before.symm.trans (same.idleThread.symm.trans set)
      · obtain ⟨enabled, empty⟩ := allows_quiet allowed boot.quiet (by simp)
        obtain ⟨returns, idle⟩ := boot.idleSet h empty enabled body
        rw [returns] at finished
        cases finished
        cases same.idleThread.symm.trans set
        exact idle

/-- Code that calls `printf` runs neither in `thread_start` nor in the idle thread. -/
theorem ConsoleOk.calls (h : ConsoleOk c) {masked : Bool} (empty : c.tasks c.kernel.current = [])
    (place : c.kernel.code c.kernel.current = .user ∨
      ∃ rep seen, c.kernel.code c.kernel.current = .exiting rep seen)
    (lock : ∃ owner, ConsoleLock (c.setTasks [.acquire masked]) owner) :
    ConsoleOk (c.setTasks [.acquire masked]) := by
  have owns (p : Page) : (c.setTasks [.acquire masked]).owns p = c.owns p := by
    by_cases here : p = c.kernel.current
    · simp [Console.owns, Console.setTasks, here, empty, Task.isPending]
    · rw [Console.owns, show (c.setTasks [.acquire masked]).tasks p = c.tasks p from
        update_of_ne here _ _]
      rfl
  refine ⟨lock, fun still p mine => h.runs still p (owns p ▸ mine), fun none => ?_, fun i set => ?_⟩
  · have boot := h.boot none
    obtain ⟨notUser, notExiting⟩ := boot.early.notUser boot.inv
    rcases place with user | ⟨rep, seen, exiting⟩
    · exact absurd user notUser
    · exact absurd exiting (notExiting rep seen)
  · have idle := h.idle i set
    have apart : i ≠ c.kernel.current := by
      rintro rfl
      have idles := idle.placed.code
      rcases place with user | ⟨rep, seen, exiting⟩
      · rw [user] at idles
        rcases idles with no | no <;> cases no
      · rw [exiting] at idles
        rcases idles with no | no <;> cases no
    have same : (c.setTasks [.acquire masked]).tasks i = c.tasks i := update_of_ne apart _ _
    exact ⟨idle.placed, fun other => same.trans (idle.away other), same ▸ idle.tasks,
      fun _ here => absurd here.symm apart⟩

/-- A call of `printf` or the next task. -/
theorem ConsoleOk.task (h : ConsoleOk c) (stays : c.kernel.threadsPrint = true →
      c.owns c.kernel.current = true → c.waits = false)
    (lock : ∃ owner, ConsoleLock after owner) (step : TaskStep c after) : ConsoleOk after := by
  have same := Gentle.refl c.kernel
  cases step with
  | calls empty place => exact h.calls empty place lock
  | waits here tests zero scheduled => exact h.waits stays here tests zero scheduled
  | row here =>
    refine h.replaces lock (.sets here same (fun _ => .inr) id (fun quiet => ?_) fun _ idle => ?_)
    · simpa [Task.quiet] using quiet
    · have prints := idle.prints rfl
      rw [prints] at idle ⊢
      exact (idle.cons rfl rfl (by simp)).cons rfl rfl (by simp)
  | skips here =>
    exact h.replaces lock (.sets here same (fun _ => .inr) id quiet_tail fun _ idle => idle.tail)
  | table here prints =>
    refine h.replaces lock (.sets here (.same (totalReadyThreads_same _ _) fun _ => rfl)
      (fun _ => .inr) id (fun quiet => ?_) fun _ idle => ?_)
    · simpa [Task.quiet] using quiet
    · have table := IdleTasks.cons_printed (idle.below (.inr rfl))
      rw [prints]
      exact ((table.cons rfl rfl (by simp)).cons rfl rfl (by simp)).cons rfl rfl (by simp)
  | printed here =>
    exact h.replaces lock (.sets here (.same (threadsPrint_same _ _) fun _ => rfl) (fun _ => .inr)
      (fun no => by cases no) quiet_tail fun _ idle => .of_silent (idle.below (.inl rfl)))
  | line here =>
    refine h.replaces lock (.sets here (.same (countRepeat_same _ _)
      (Kernel.keeps_upd (fun t => t.name) _ _ _ fun _ => rfl)) (fun _ => .inr) id
      (fun quiet t member => ?_) fun named idle => ?_)
    · rcases mem_append.mp member with call | below
      · rw [ConsoleLock.lineCalls_plain c t call]
        rfl
      · exact quiet_tail quiet t below
    · rw [lineCalls_idle named]
      exact idle.tail
  | nests here mine =>
    exact h.replaces lock (.sets here same (fun _ => .inr) id (quiet_top id) fun _ idle =>
      (idle.begins (.inl rfl)).2)
  | takes here tests unit =>
    obtain ⟨list, step⟩ := LocalStep.takes here tests
    exact h.replaces lock step
  | holds here =>
    refine h.replaces lock (.sets here same (fun p held => .inl (Option.some.inj held).symm) id
      (quiet_top fun no => by cases no) fun _ idle => ?_)
    cases idle.quiet _ mem_cons_self
  | @releases masked rest after here released =>
    unfold Console.releaseConsole at released
    split at released
    · cases released
      exact h.replaces lock (.sets here same (fun _ => .inr) id quiet_tail fun _ idle => idle.tail)
    · split at released
      · cases masked with
        | true => exact h.replaces lock (.ups here (fun p none => by cases none) released)
        | false =>
          cases released
          refine h.replaces lock (.sets here same (fun p none => by cases none) id (quiet_top id)
            fun _ idle => ?_)
          cases idle.quiet _ mem_cons_self
      · cases released
  | ups here upped => exact h.replaces lock (.ups here (fun _ => id) upped)

theorem ConsoleOk.step (h : ConsoleOk c) {e : ConsoleEvent} (stays : HolderStays c e)
    (taken : c.step e = .ok after) : ConsoleOk after := by
  obtain ⟨owner, lock⟩ := h.lock
  have lock := lock.step taken
  cases e with
  | kernel e => exact h.kernel stays taken
  | _ => exact h.task stays lock (Console.step_task taken (by simp))

theorem threadInit_early {mode : Mode} {values : Nat → Nat} {k : Kernel}
    (booted : threadInit mode values = .ok k) : Early k := by
  have facts := threadInit_booted booted
  have code := threadInit_code booted
  have start : k.code k.initialThread = .start := by
    rw [code, if_pos facts.initialThread]
  refine ⟨threadInit_booting booted, ?_, ?_, fun p early => ?_, fun p entry => ?_⟩
  · rw [Kernel.Starting, start]
    rfl
  · obtain ⟨made, effects, rfl⟩ := threadInit_effects booted
    exact effects.idleThread
  · rw [code] at early
    split at early
    · rename_i main
      rw [main, ← facts.current]
      exact (threadInit_inv booted).live
    · rcases early with no | no <;> cases no
  · rw [code] at entry
    split at entry <;> cases entry

theorem initial_consoleOk {mode : Mode} (start : (consoleSystem mode).initial c) : ConsoleOk c := by
  have lock := initial_consoleLock start
  obtain ⟨values, k, _, booted, rfl, free, _, empty⟩ := start
  have early := threadInit_early booted
  refine ⟨⟨none, lock⟩, fun _ p owns => ?_, fun _ => ⟨threadInit_inv booted, early,
    fun p _ => empty p, ?_⟩, fun i set => ?_⟩
  · cases (lock.owns_iff p).mp owns
  · rw [empty]
    exact forall_mem_nil _
  · rw [early.none] at set
    cases set

end
end Calendarizador.Source
