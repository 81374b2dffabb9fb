import Calendarizador.Foundation.Transition

/-!
# History variables

`System.recording` runs a system and keeps a record of the run beside it. The steps never
read the record, so the two systems have the same runs; the record can then be used to say
what happened in a run, and `Reachable.recorded` proves such statements by one induction.
-/
namespace Calendarizador.Foundation

section
variable {State Event Fault History : Type}

/-- The system with a record of its run; `record` sees each step with both its states. -/
def System.recording (sys : System State Event Fault) (empty : History)
    (record : State → Event → State → History → History) :
    System (State × History) Event Fault where
  initial s := sys.initial s.1 ∧ s.2 = empty
  step s e := (sys.step s.1 e).map fun after => (after, record s.1 e after s.2)

variable {sys : System State Event Fault} {empty : History}
  {record : State → Event → State → History → History}

theorem recording_step {s next : State × History} {e : Event}
    (taken : (sys.recording empty record).step s e = .ok next) :
    ∃ after, sys.step s.1 e = .ok after ∧ next = (after, record s.1 e after s.2) := by
  obtain ⟨after, stepped, same⟩ := map_eq_ok.mp taken
  exact ⟨after, stepped, same.symm⟩

/-- A property of states and records that every step keeps holds along every run. The step
premise may use that the state before it is reachable. -/
theorem Reachable.recorded {P : State → History → Prop} (start : ∀ s, sys.initial s → P s empty)
    (keep : ∀ s history e after, Reachable sys s → P s history → sys.step s e = .ok after →
      P after (record s e after history)) {s : State × History}
    (h : Reachable (sys.recording empty record) s) : Reachable sys s.1 ∧ P s.1 s.2 := by
  induction h with
  | initial first =>
    obtain ⟨first, none⟩ := first
    rw [none]
    exact ⟨.initial first, start _ first⟩
  | step before e taken ih =>
    obtain ⟨after, stepped, rfl⟩ := recording_step taken
    exact ⟨ih.1.step e stepped, keep _ _ e after ih.1 ih.2 stepped⟩

/-- The same for runs whose steps are all allowed. -/
theorem ReachableWhile.recorded {allowed : State × History → Event → Prop}
    {P : State → History → Prop} (start : ∀ s, sys.initial s → P s empty)
    (keep : ∀ s history e after, Reachable sys s → P s history → allowed (s, history) e →
      sys.step s e = .ok after → P after (record s e after history))
    {s : State × History} (h : ReachableWhile (sys.recording empty record) allowed s) :
    Reachable sys s.1 ∧ P s.1 s.2 := by
  induction h with
  | initial first =>
    obtain ⟨first, none⟩ := first
    rw [none]
    exact ⟨.initial first, start _ first⟩
  | step before e fine taken ih =>
    obtain ⟨after, stepped, rfl⟩ := recording_step taken
    exact ⟨ih.1.step e stepped, keep _ _ e after ih.1 ih.2 fine stepped⟩

end
end Calendarizador.Foundation
