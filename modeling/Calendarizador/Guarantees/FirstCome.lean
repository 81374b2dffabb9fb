import Calendarizador.Invariant.Arrivals

/-!
# First come, first served

From the return of `thread_start` on, `QueueLog` records every thread that is put on the
ready list and every thread other than `idle_thread` that `schedule` dispatches. Under FCFS
the two sequences differ by the ready list itself, which is the part still to be served.
-/
namespace Calendarizador.Guarantees
open Foundation Source

structure QueueLog where
  enqueued : List Page
  dispatched : List Page
  deriving DecidableEq, Repr

def logQueue (k : Kernel) (e : Event) (after : Kernel) (log : QueueLog) : QueueLog :=
  if k.Starting then log
  else ⟨log.enqueued ++ enqueues k e, log.dispatched ++ dispatches k e after⟩

/-- FCFS, or the kernel without the option `-alg`, with the record of its queue. -/
def fcfsRun : System (Kernel × QueueLog) Event Fault :=
  (kernelSystem .fcfs).recording ⟨[], []⟩ logQueue

section
variable {k after : Kernel} {e : Event}

/-- What the record says about a state. -/
structure InOrderOfArrival (k : Kernel) (log : QueueLog) : Prop where
  starting : k.Starting → log = ⟨[], []⟩
  running : ¬ k.Starting → log.enqueued = log.dispatched ++ k.readyList

theorem step_starting (h : Inv k) (taken : step k e = .ok after) (inside : after.Starting) :
    k.Starting := by
  obtain ⟨enabled, body | ⟨ready, body, scheduled⟩⟩ := step_effects taken
  · have code : after.code = codeAfter k e := opBody_code h enabled body
    have initial : after.initialThread = k.initialThread := (opBody_current body).2
    rw [Kernel.Starting, code, initial] at inside
    exact codeAfter_starting enabled inside
  · have core : Core ready := (opBody_inv h e enabled body).core
    have switched := schedule_switched core scheduled
    have code : ready.code = codeAfter k e := opBody_code h enabled body
    have initial : ready.initialThread = k.initialThread := (opBody_current body).2
    rw [Kernel.Starting, switched.code, switched.initialThread, code, initial] at inside
    exact codeAfter_starting enabled inside

theorem InOrderOfArrival.step {log : QueueLog} (h : Inv k) (boot : Booting k)
    (mode : k.mode = .fcfs) (served : InOrderOfArrival k log)
    (taken : Source.step k e = .ok after) :
    InOrderOfArrival after (logQueue k e after log) := by
  unfold logQueue
  by_cases inside : k.Starting
  · rw [if_pos inside, served.starting inside]
    refine ⟨fun _ => rfl, fun outside => ?_⟩
    rw [starting_ends h boot taken inside outside]
    rfl
  · rw [if_neg inside]
    refine ⟨fun again => absurd (step_starting h taken again) inside, fun _ => ?_⟩
    calc log.enqueued ++ enqueues k e
        = log.dispatched ++ (k.readyList ++ enqueues k e) := by
          rw [served.running inside, List.append_assoc]
      _ = log.dispatched ++ dispatches k e after ++ after.readyList := by
          rw [step_queue h mode taken, List.append_assoc]

theorem reachable_served {log : QueueLog} (h : Reachable fcfsRun (k, log)) :
    Reachable (kernelSystem .fcfs) k ∧ InOrderOfArrival k log := by
  refine Reachable.recorded ?_ ?_ h
  · rintro s ⟨values, booted⟩
    refine ⟨fun _ => rfl, fun _ => ?_⟩
    rw [(threadInit_booted booted).readyList]
    rfl
  · intro s log e after reached served taken
    exact served.step (reachable_inv reached) (reachable_booting reached) (reachable_mode reached)
      taken

/-- Who runs changes under FCFS only if the running thread gives up the CPU. -/
theorem step_replaces (h : Inv k) (mode : k.mode = .fcfs) (taken : step k e = .ok after)
    (replaced : after.current ≠ k.current) : GivesUp k e := by
  obtain ⟨enabled, body | ⟨ready, body, scheduled⟩⟩ := step_effects taken
  · exact absurd (opBody_current body).1 replaced
  · refine opBody_givesUp ?_ body
    rintro rfl
    obtain ⟨handled, returned, _⟩ := intrHandler_returns h (.inl mode) body
    cases returned

/-- First come, first served: after `thread_start` a timer interrupt never changes the
running thread, which is replaced only by its own `thread_block`, `thread_yield` or
`thread_exit`, and the dispatches are the enqueues in their order, up to the ready list. -/
theorem first_come_first_served {log : QueueLog} (h : Reachable fcfsRun (k, log)) :
    log.dispatched <+: log.enqueued ∧
      (¬ k.Starting → log.enqueued = log.dispatched ++ k.readyList ∧
        ∀ e after, step k e = .ok after →
          (e = .timer → after.current = k.current) ∧
          (after.current ≠ k.current → GivesUp k e)) := by
  obtain ⟨reached, served⟩ := reachable_served h
  have inv := reachable_inv reached
  have mode := reachable_mode reached
  refine ⟨?_, fun outside => ⟨served.running outside, fun e after taken => ⟨?_, ?_⟩⟩⟩
  · by_cases inside : k.Starting
    · exact served.starting inside ▸ List.prefix_refl _
    · exact ⟨k.readyList, (served.running inside).symm⟩
  · rintro rfl
    by_contra replaced
    exact step_replaces inv mode taken replaced
  · exact step_replaces inv mode taken

/-- Two threads become ready and `main` parks: the first of them runs, and a tick leaves
it on the CPU. -/
theorem first_come_first_served_block : ∃ k log, Reachable fcfsRun (k, log) ∧ ¬ k.Starting ∧
    log = ⟨[2, 3], [2]⟩ ∧ k.readyList = [3] ∧ log.dispatched <+: log.enqueued ∧
    ∃ after, step k .timer = .ok after ∧ k.current = 2 ∧ after.current = k.current := by
  obtain ⟨⟨k, log⟩, reached, outside, logged, queue, current, after, ticked, _⟩ :=
    executeRecording_holds .fcfs ⟨[], []⟩ logQueue (threadStart ++
      [.create (some 2) ['a'] 0, .unblock 2, .create (some 3) ['b'] 0, .unblock 3, .block])
    (P := fun s => ¬ s.1.Starting ∧ s.2 = ⟨[2, 3], [2]⟩ ∧ s.1.readyList = [3] ∧ s.1.current = 2 ∧
      ∃ after ∈ (step s.1 .timer).toOption, True) (by decide +kernel)
  have ticked := toOption_eq_some ticked
  obtain ⟨served, running⟩ := first_come_first_served reached
  exact ⟨k, log, reached, outside, logged, queue, served, after, ticked, current,
    ((running outside).2 .timer after ticked).1 rfl⟩

end
end Calendarizador.Guarantees
