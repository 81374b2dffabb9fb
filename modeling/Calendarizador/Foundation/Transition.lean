import Mathlib.Logic.Relation

/-!
# Deterministic systems driven by events

A system has admissible initial states and a partial step: an event either takes a
state to its successor or faults. `Reachable` is the least set closed under successful
steps, and `Reachable.invariant` is the one induction from which every safety result
over whole runs is derived. `run` executes a list of events, so that concrete runs can
be evaluated and then used as reachable states.
-/
namespace Calendarizador.Foundation
open List
variable {Fault α β State : Type} {s after : State}

/-- A sequence succeeds exactly when both of its parts do. -/
theorem bind_eq_ok {first : Except Fault α} {next : α → Except Fault β} {value : β} :
    (first >>= next) = .ok value ↔ ∃ x, first = .ok x ∧ next x = .ok value := by
  cases first with
  | error fault => simp [bind, Except.bind]
  | ok x => simp [bind, Except.bind]

theorem ok_bind (x : α) (next : α → Except Fault β) : (Except.ok x >>= next) = next x := rfl

theorem map_eq_ok {first : Except Fault α} {f : α → β} {value : β} :
    first.map f = .ok value ↔ ∃ x, first = .ok x ∧ f x = value := by
  cases first with
  | error fault => simp [Except.map]
  | ok x => simp [Except.map]

theorem toOption_eq_some {result : Except Fault α} {value : α}
    (succeeds : result.toOption = some value) : result = .ok value := by
  cases result with
  | error fault => cases succeeds
  | ok x =>
    cases succeeds
    rfl

/-- A property every round of a loop keeps holds after the loop. -/
theorem foldlM_invariant {P : State → Prop} {f : State → α → Except Fault State} (list : List α)
    (keep : ∀ s x after, x ∈ list → P s → f s x = .ok after → P after) (start : P s)
    (executed : list.foldlM f s = .ok after) : P after := by
  induction list generalizing s with
  | nil =>
    cases executed
    exact start
  | cons x rest ih =>
    rw [foldlM_cons, bind_eq_ok] at executed
    obtain ⟨middle, first, more⟩ := executed
    exact ih (fun s y after member => keep s y after (mem_cons_of_mem x member))
      (keep s x middle mem_cons_self start first) more

/-- A loop that succeeds succeeds in the round of each element. -/
theorem foldlM_round {f : State → α → Except Fault State} {list : List α} {x : α}
    (member : x ∈ list) (executed : list.foldlM f s = .ok after) :
    ∃ before next, f before x = .ok next := by
  induction list generalizing s with
  | nil => cases member
  | cons y rest ih =>
    rw [foldlM_cons, bind_eq_ok] at executed
    obtain ⟨middle, first, more⟩ := executed
    cases member with
    | head => exact ⟨s, middle, first⟩
    | tail _ later => exact ih later more

/-- A loop whose rounds succeed as those of another one succeeds as the other one. -/
theorem foldlM_mono {f g : State → α → Except Fault State} (list : List α)
    (same : ∀ s x after, f s x = .ok after → g s x = .ok after)
    (executed : list.foldlM f s = .ok after) : list.foldlM g s = .ok after := by
  induction list generalizing s with
  | nil => exact executed
  | cons x rest ih =>
    rw [foldlM_cons, bind_eq_ok] at executed
    obtain ⟨middle, first, more⟩ := executed
    rw [foldlM_cons, same s x middle first, ok_bind]
    exact ih more

/-- A loop whose rounds all succeed succeeds. -/
theorem foldlM_total {f : State → α → Except Fault State}
    (total : ∀ s x, ∃ after, f s x = .ok after) (list : List α) (s : State) :
    ∃ after, list.foldlM f s = .ok after := by
  induction list generalizing s with
  | nil => exact ⟨s, rfl⟩
  | cons x rest ih =>
    obtain ⟨middle, first⟩ := total s x
    obtain ⟨after, more⟩ := ih middle
    exact ⟨after, by rw [foldlM_cons, bind_eq_ok]; exact ⟨middle, first, more⟩⟩

structure System (State Event Fault : Type) where
  initial : State → Prop
  step : State → Event → Except Fault State

section
variable {State Event Fault : Type} (sys : System State Event Fault)

/-- States reached from an initial state by finitely many successful steps. -/
inductive Reachable : State → Prop
  | initial {s : State} (start : sys.initial s) : Reachable s
  | step {s after : State} (before : Reachable s) (e : Event)
      (taken : sys.step s e = .ok after) : Reachable after

/-- States reached by steps that are all allowed in the state in which they are taken. -/
inductive ReachableWhile (allowed : State → Event → Prop) : State → Prop
  | initial {s : State} (start : sys.initial s) : ReachableWhile allowed s
  | step {s after : State} (before : ReachableWhile allowed s) (e : Event) (fine : allowed s e)
      (taken : sys.step s e = .ok after) : ReachableWhile allowed after

/-- Executes events in order while they are allowed and succeed. -/
def runWhile (allowed : State → Event → Prop) [∀ s e, Decidable (allowed s e)] (s : State) :
    List Event → Option State
  | [] => some s
  | e :: rest =>
    match sys.step s e with
    | .ok after => if allowed s e then runWhile allowed after rest else none
    | .error _ => none

/-- Executes events in order and stops at the first fault. -/
def run (s : State) : List Event → Except Fault State
  | [] => .ok s
  | e :: rest =>
    match sys.step s e with
    | .ok after => run after rest
    | .error fault => .error fault

end

variable {State Event Fault : Type} {sys : System State Event Fault} {s : State}

/-- A property of the initial states that every successful step keeps holds in every
reachable state. The step premise may use that the state before it is reachable. -/
theorem Reachable.invariant {P : State → Prop} (start : ∀ s, sys.initial s → P s)
    (keep : ∀ s e after, Reachable sys s → P s → sys.step s e = .ok after → P after)
    (h : Reachable sys s) : P s := by
  induction h with
  | initial first => exact start _ first
  | step before e taken ih => exact keep _ e _ before ih taken

theorem ReachableWhile.invariant {allowed : State → Event → Prop} {P : State → Prop}
    (start : ∀ s, sys.initial s → P s)
    (keep : ∀ s e after, P s → allowed s e → sys.step s e = .ok after → P after)
    (h : ReachableWhile sys allowed s) : P s := by
  induction h with
  | initial first => exact start _ first
  | step before e fine taken ih => exact keep _ e _ ih fine taken

theorem ReachableWhile.reachable {allowed : State → Event → Prop}
    (h : ReachableWhile sys allowed s) : Reachable sys s := by
  induction h with
  | initial first => exact .initial first
  | step before e fine taken ih => exact ih.step e taken

/-- A weaker condition on the steps allows at least as much. -/
theorem ReachableWhile.imp {allowed other : State → Event → Prop} (h : ReachableWhile sys allowed s)
    (weaker : ∀ s e, Reachable sys s → allowed s e → other s e) : ReachableWhile sys other s := by
  induction h with
  | initial start => exact .initial start
  | step before e fine taken ih => exact .step ih e (weaker _ e before.reachable fine) taken

theorem ReachableWhile.run {allowed : State → Event → Prop} [∀ s e, Decidable (allowed s e)]
    {after : State} (h : ReachableWhile sys allowed s) (events : List Event)
    (executed : runWhile sys allowed s events = some after) : ReachableWhile sys allowed after := by
  induction events generalizing s with
  | nil =>
    cases executed
    exact h
  | cons e rest ih =>
    unfold runWhile at executed
    split at executed
    · rename_i middle taken
      split at executed
      · rename_i fine
        exact ih (h.step e fine taken) executed
      · cases executed
    · cases executed

theorem Reachable.run {after : State} (h : Reachable sys s) (events : List Event)
    (executed : run sys s events = .ok after) : Reachable sys after := by
  induction events generalizing s with
  | nil =>
    cases executed
    exact h
  | cons e rest ih =>
    unfold Foundation.run at executed
    split at executed
    · rename_i middle taken
      exact ih (h.step e taken) executed
    · cases executed

/-- What is found after a run holds in a reachable state. -/
theorem run_holds (sys : System State Event Fault) (s : State) (start : sys.initial s)
    (events : List Event) {P : State → Prop}
    (found : ∃ after ∈ (run sys s events).toOption, P after) :
    ∃ after, Reachable sys after ∧ P after := by
  obtain ⟨after, ran, holds⟩ := found
  have first : Reachable sys s := .initial start
  exact ⟨after, first.run events (toOption_eq_some ran), holds⟩

theorem runWhile_holds (sys : System State Event Fault) (allowed : State → Event → Prop)
    [∀ s e, Decidable (allowed s e)] (s : State) (start : sys.initial s) (events : List Event)
    {P : State → Prop} (found : ∃ after ∈ runWhile sys allowed s events, P after) :
    ∃ after, ReachableWhile sys allowed after ∧ P after := by
  obtain ⟨after, ran, holds⟩ := found
  have first : ReachableWhile sys allowed s := .initial start
  exact ⟨after, first.run events ran, holds⟩

end Calendarizador.Foundation
