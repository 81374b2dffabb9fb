import Calendarizador.Invariant.ListSort
import Calendarizador.Source.Policy

/-!
# Lists as sequences

The operations of `lib/kernel/list.c` on a heap of pointers do what the corresponding
operations on finite sequences do. `Effect` is the sequence side: which calls are allowed,
and what they leave; it never mentions a pointer.
-/
namespace Calendarizador.Guarantees
open Foundation Source Source.ListHeap Function

section
variable {ι α : Type}

inductive ListOp (ι α : Type) where
  | init (l : ι)
  | insert (before : Cell ι α) (elem : α)
  | pushFront (l : ι) (elem : α)
  | pushBack (l : ι) (elem : α)
  | remove (elem : α)
  | popFront (l : ι)
  | popBack (l : ι)
  | splice (before first last : Cell ι α)
  | reverse (l : ι)
  | unique (l : ι) (duplicates : Option ι) (less : α → α → Bool)

/-- An element that is on no list. -/
def Free (lists : ι → Option (List α)) (a : α) : Prop := ∀ l xs, lists l = some xs → a ∉ xs

/-- Following `next` from the head gives the sequence and then the tail, following `prev` from
the tail gives its reverse and then the head, and no element is met twice. -/
structure WellFormed (m : CellHeap ι α) (lists : ι → Option (List α)) : Prop where
  forward : ∀ l xs, lists l = some xs → ∀ steps > xs.length,
    CellHeap.follow m.next steps (.head l) = xs.map .elem ++ [.tail l]
  backward : ∀ l xs, lists l = some xs → ∀ steps > xs.length,
    CellHeap.follow m.prev steps (.tail l) = xs.reverse.map .elem ++ [.head l]
  once : ∀ l xs, lists l = some xs → xs.Nodup
  apart : ∀ l l' xs ys, lists l = some xs → lists l' = some ys → l ≠ l' → xs.Disjoint ys

theorem wellFormed {m : CellHeap ι α} {lists : ι → Option (List α)} (h : Represents m lists) :
    WellFormed m lists where
  forward _ _ here _ enough := h.follow_next here enough
  backward _ _ here _ enough := h.follow_prev here enough
  once _ _ here := h.nodup here
  apart _ _ _ _ here there other _ inHere inThere := other (h.apart here there inHere inThere)

variable [DecidableEq ι] [DecidableEq α]

/-- A call of the operation; removals return a cell. -/
def ListOp.exec (fuel : Nat) (m : CellHeap ι α) :
    ListOp ι α → Except ListFault (CellHeap ι α × Option (Cell ι α))
  | .init l => .ok (listInit m l, none)
  | .insert before elem => (listInsert m before (.elem elem)).map (·, none)
  | .pushFront l elem => (listPushFront m l (.elem elem)).map (·, none)
  | .pushBack l elem => (listPushBack m l (.elem elem)).map (·, none)
  | .remove elem => (ListHeap.listRemove m (.elem elem)).map fun r => (r.1, some r.2)
  | .popFront l => (listPopFront m l).map fun r => (r.1, some r.2)
  | .popBack l => (listPopBack m l).map fun r => (r.1, some r.2)
  | .splice before first last => (listSplice m before first last).map (·, none)
  | .reverse l => (listReverse fuel m l).map (·, none)
  | .unique l duplicates less => (listUnique less fuel m l duplicates).map (·, none)

def execAll (fuel : Nat) (m : CellHeap ι α) :
    List (ListOp ι α) → Except ListFault (CellHeap ι α × List (Option (Cell ι α)))
  | [] => .ok (m, [])
  | op :: rest => do
    let (m, result) ← op.exec fuel m
    let (m, results) ← execAll fuel m rest
    .ok (m, result :: results)

/-- The allowed calls and what they do to the sequences: a place in a list is a cut of its
sequence, named by the first cell behind it. -/
inductive Effect (lists : ι → Option (List α)) :
    ListOp ι α → (ι → Option (List α)) → Option (Cell ι α) → Prop where
  | init (l : ι) : Effect lists (.init l) (Function.update lists l (some [])) none
  | insert {l : ι} {front back : List α} {a : α} (here : lists l = some (front ++ back))
      (free : Free lists a) : Effect lists (.insert (startCell l back) a)
        (Function.update lists l (some (front ++ a :: back))) none
  | pushFront {l : ι} {xs : List α} {a : α} (here : lists l = some xs) (free : Free lists a) :
      Effect lists (.pushFront l a) (Function.update lists l (some (a :: xs))) none
  | pushBack {l : ι} {xs : List α} {a : α} (here : lists l = some xs) (free : Free lists a) :
      Effect lists (.pushBack l a) (Function.update lists l (some (xs ++ [a]))) none
  | remove {l : ι} {front back : List α} {a : α} (here : lists l = some (front ++ a :: back)) :
      Effect lists (.remove a) (Function.update lists l (some (front ++ back)))
        (some (startCell l back))
  | popFront {l : ι} {rest : List α} {a : α} (here : lists l = some (a :: rest)) :
      Effect lists (.popFront l) (Function.update lists l (some rest)) (some (.elem a))
  | popBack {l : ι} {most : List α} {a : α} (here : lists l = some (most ++ [a])) :
      Effect lists (.popBack l) (Function.update lists l (some most)) (some (.elem a))
  /-- An empty range. -/
  | spliceNone {l : ι} {front back : List α} (here : lists l = some (front ++ back))
      (first : Cell ι α) : Effect lists (.splice (startCell l back) first first) lists none
  /-- A range is taken out; `before` is a place in the lists that are left, of the same list
  or of another. -/
  | splice {l l' : ι} {front range back front' back' : List α}
      (here : lists l = some (front ++ range ++ back)) (proper : range ≠ [])
      (there : Function.update lists l (some (front ++ back)) l' = some (front' ++ back')) :
      Effect lists (.splice (startCell l' back') (startCell l (range ++ back)) (startCell l back))
        (Function.update (Function.update lists l (some (front ++ back))) l'
          (some (front' ++ range ++ back'))) none
  | reverse {l : ι} {xs : List α} (here : lists l = some xs) :
      Effect lists (.reverse l) (Function.update lists l (some xs.reverse)) none
  | uniqueNone {l : ι} {less : α → α → Bool} (here : lists l = some [])
      (duplicates : Option ι) : Effect lists (.unique l duplicates less) lists none
  /-- Of neighbours that are equal the first stays; the others go to the list of duplicates in
  their order, or nowhere. -/
  | unique {l : ι} {duplicates : Option ι} {less : α → α → Bool} {a : α} {rest : List α}
      (here : lists l = some (a :: rest)) (receives : Receives lists l duplicates) :
      Effect lists (.unique l duplicates less)
        (Function.update (appendTo lists duplicates (uniqueFrom less a rest).2) l
          (some (uniqueFrom less a rest).1)) none

/-- Calls one after the other. -/
inductive Effects : (ι → Option (List α)) → List (ListOp ι α) → (ι → Option (List α)) →
    List (Option (Cell ι α)) → Prop where
  | nil (lists : ι → Option (List α)) : Effects lists [] lists []
  | cons {lists middle final : ι → Option (List α)} {op : ListOp ι α} {ops : List (ListOp ι α)}
      {result : Option (Cell ι α)} {results : List (Option (Cell ι α))}
      (first : Effect lists op middle result) (rest : Effects middle ops final results) :
      Effects lists (op :: ops) final (result :: results)

variable {lists final : ι → Option (List α)}

/-- One call on the heap does what it does on the sequences; only the loops need fuel, and how
much depends on the sequences alone. -/
theorem exec_effect {op : ListOp ι α} {result : Option (Cell ι α)}
    (allowed : Effect lists op final result) :
    ∃ bound, ∀ m : CellHeap ι α, Represents m lists → ∀ fuel ≥ bound, ∃ after,
      op.exec fuel m = .ok (after, result) ∧ Represents after final := by
  cases allowed with
  | init l => exact ⟨0, fun m h _ _ => ⟨_, rfl, listInit_represents h l⟩⟩
  | insert here free =>
    refine ⟨0, fun m h _ _ => ?_⟩
    obtain ⟨after, inserts, represented⟩ := listInsert_represents h here fun there => free _ _ there
    exact ⟨after, by rw [ListOp.exec, inserts]; rfl, represented⟩
  | pushFront here free =>
    refine ⟨0, fun m h _ _ => ?_⟩
    obtain ⟨after, pushes, represented⟩ :=
      listPushFront_represents h here fun there => free _ _ there
    exact ⟨after, by rw [ListOp.exec, pushes]; rfl, represented⟩
  | pushBack here free =>
    refine ⟨0, fun m h _ _ => ?_⟩
    obtain ⟨after, pushes, represented⟩ :=
      listPushBack_represents h here fun there => free _ _ there
    exact ⟨after, by rw [ListOp.exec, pushes]; rfl, represented⟩
  | remove here =>
    refine ⟨0, fun m h _ _ => ?_⟩
    obtain ⟨after, removes, represented⟩ := listRemove_represents h here
    exact ⟨after, by rw [ListOp.exec, removes]; rfl, represented⟩
  | popFront here =>
    refine ⟨0, fun m h _ _ => ?_⟩
    obtain ⟨after, pops, represented⟩ := listPopFront_represents h here
    exact ⟨after, by rw [ListOp.exec, pops]; rfl, represented⟩
  | popBack here =>
    refine ⟨0, fun m h _ _ => ?_⟩
    obtain ⟨after, pops, represented⟩ := listPopBack_represents h here
    exact ⟨after, by rw [ListOp.exec, pops]; rfl, represented⟩
  | spliceNone here first =>
    refine ⟨0, fun m h _ _ => ⟨m, ?_, h⟩⟩
    have place := insertable_startCell h here fun b => List.mem_append_right _
    rw [ListOp.exec, listSplice, place, listAssert_true, ok_bind, if_pos rfl]
    rfl
  | splice here proper there =>
    refine ⟨0, fun m h _ _ => ?_⟩
    obtain ⟨after, splices, represented⟩ := listSplice_represents h here proper there
    exact ⟨after, by rw [ListOp.exec, splices]; rfl, represented⟩
  | @reverse l xs here =>
    refine ⟨xs.length + 1, fun m h fuel enough => ?_⟩
    obtain ⟨after, reverses, represented⟩ := listReverse_represents h here enough
    exact ⟨after, by rw [ListOp.exec, reverses]; rfl, represented⟩
  | uniqueNone here duplicates =>
    refine ⟨0, fun m h fuel _ => ⟨m, ?_, h⟩⟩
    rw [ListOp.exec, listUnique_empty _ h here]
    rfl
  | @unique l duplicates less a rest here receives =>
    refine ⟨rest.length + 1, fun m h fuel enough => ?_⟩
    obtain ⟨after, loops, represented⟩ := listUnique_represents less h here receives enough
    exact ⟨after, by rw [ListOp.exec, loops]; rfl, represented⟩

theorem execAll_effects {ops : List (ListOp ι α)} {results : List (Option (Cell ι α))}
    (allowed : Effects lists ops final results) :
    ∃ bound, ∀ m : CellHeap ι α, Represents m lists → ∀ fuel ≥ bound, ∃ after,
      execAll fuel m ops = .ok (after, results) ∧ Represents after final := by
  induction allowed with
  | nil => exact ⟨0, fun m h _ _ => ⟨m, rfl, h⟩⟩
  | cons first rest ih =>
    obtain ⟨enough, calls⟩ := exec_effect first
    obtain ⟨enough', others⟩ := ih
    refine ⟨max enough enough', fun m h fuel more => ?_⟩
    obtain ⟨middle, executes, represented⟩ := calls m h fuel ((le_max_left _ _).trans more)
    obtain ⟨after, finishes, done⟩ :=
      others middle represented fuel ((le_max_right _ _).trans more)
    refine ⟨after, ?_, done⟩
    rw [execAll, executes, ok_bind]
    show (execAll fuel middle _ >>= _) = _
    rw [finishes]
    rfl

/-- Every sequence of allowed calls, on any heap of well-formed lists: with enough fuel all
calls return, with the results and the lists that the sequences have. -/
theorem list_operations (m : CellHeap ι α) (lists final : ι → Option (List α))
    (ops : List (ListOp ι α)) (results : List (Option (Cell ι α))) (h : Represents m lists)
    (allowed : Effects lists ops final results) :
    ∃ bound, ∀ fuel ≥ bound, ∃ after, execAll fuel m ops = .ok (after, results) ∧
      Represents after final ∧ WellFormed after final := by
  obtain ⟨bound, executes⟩ := execAll_effects allowed
  refine ⟨bound, fun fuel enough => ?_⟩
  obtain ⟨after, finishes, represented⟩ := executes m h fuel enough
  exact ⟨after, finishes, represented, wellFormed represented⟩

end

/-- No list is initialised yet, so nothing is required of the pointers. -/
theorem represents_none {ι α : Type} (m : CellHeap ι α) : Represents m fun _ => none where
  chain here := by cases here
  front here := by cases here
  back here := by cases here
  nodup here := by cases here
  apart here := by cases here

/-- The heap before anything is initialised, with null pointers. -/
def nullHeap : CellHeap Bool Nat := ⟨fun _ => none, fun _ => none⟩

/-- Two lists; one element is pushed, the one-element list is reversed, and the element moves
to the other list. -/
theorem list_operations_move : ∃ bound, ∀ fuel ≥ bound, ∃ after lists,
    execAll fuel nullHeap [.init false, .init true, .pushBack false 7, .reverse false,
      .splice (.tail true) (.elem 7) (.tail false)] = .ok (after, [none, none, none, none, none]) ∧
    lists false = some [] ∧ lists true = some [7] ∧ WellFormed after lists := by
  let empty : Bool → Option (List Nat) :=
    update (update (fun _ => none) false (some [])) true (some [])
  have free : Free empty 7 := by
    intro l xs holds
    cases l <;> cases holds <;> exact List.not_mem_nil
  have none_ : empty false = some [] := rfl
  have one : update empty false (some [7]) false = some [7] := rfl
  have first : Effect empty (.pushBack false 7) (update empty false (some [7])) none :=
    .pushBack none_ free
  have second : Effect (update empty false (some [7])) (.reverse false)
      (update (update empty false (some [7])) false (some [7])) none :=
    .reverse one
  let pushed := update (update empty false (some [7])) false (some [7])
  have here : pushed false = some ([] ++ [7] ++ []) := rfl
  have there : update pushed false (some ([] ++ [])) true = some ([] ++ []) := rfl
  have third := Effect.splice here (List.cons_ne_nil 7 []) there
  obtain ⟨bound, executes⟩ := list_operations nullHeap _ _ _ _ (represents_none _)
    (.cons (.init false) (.cons (.init true) (.cons first (.cons second
      (.cons third (.nil _))))))
  refine ⟨bound, fun fuel enough => ?_⟩
  obtain ⟨after, finishes, _, formed⟩ := executes fuel enough
  exact ⟨after, _, finishes, rfl, rfl, formed⟩

section
variable {ι α : Type} [DecidableEq ι] [DecidableEq α]

/-- `list_sort` on the heap, for every strict weak order: it ends, no assertion of it fails,
and the list then holds a stable rearrangement in order. The comparisons that the scheduler
passes are such orders. -/
theorem list_sort_correct (less : α → α → Bool) (weak : StrictWeak less) (m : CellHeap ι α)
    (lists : ι → Option (List α)) (h : Represents m lists) (l : ι) (xs : List α)
    (here : lists l = some xs) :
    (∀ fuel > xs.length, ∃ after, listSortHeap less fuel m l = .ok after ∧
      Represents after (Function.update lists l (some (listSort less xs)))) ∧
    (listSort less xs).Perm xs ∧ Ordered less (listSort less xs) ∧
    Stable less xs (listSort less xs) ∧
    ∀ k : Kernel, StrictWeak (durationCmp k) ∧ StrictWeak (priorityCmp k) ∧
      StrictWeak (wakeupCmp k) := by
  refine ⟨fun fuel enough => listSortHeap_sorts weak h here enough, listSort_perm less xs,
    naturalSort_ordered weak xs, naturalSort_stable weak xs, fun k => ?_⟩
  exact ⟨durationCmp_weak k, priorityCmp_weak k, wakeupCmp_weak k⟩

end

/-- Numbers compared by their last digit. -/
def lastDigitCmp (x y : Nat) : Bool := decide (x % 10 < y % 10)

theorem lastDigitCmp_weak : StrictWeak lastDigitCmp where
  asymm := by
    intro x y h
    simp only [lastDigitCmp, decide_eq_true_eq, decide_eq_false_iff_not] at h ⊢
    omega
  negTrans := by
    intro x y z
    simp only [lastDigitCmp, decide_eq_false_iff_not]
    omega

/-- Of 12 and 2 the one that stood first stays first. -/
theorem list_sort_correct_digits : ∃ (m : CellHeap Bool Nat) (lists : Bool → Option (List Nat)),
    lists true = some [12, 3, 2] ∧ ∃ after, listSortHeap lastDigitCmp 4 m true = .ok after ∧
      Represents after (Function.update lists true (some [12, 2, 3])) := by
  have start := listInit_represents (represents_none nullHeap) true
  obtain ⟨one, _, h₁⟩ := listPushBack_represents (a := 12) start (update_self ..) (by
    intro l xs holds
    cases l with
    | false => cases holds
    | true =>
      cases holds
      exact List.not_mem_nil)
  obtain ⟨two, _, h₂⟩ := listPushBack_represents (a := 3) h₁ (update_self ..) (by
    intro l xs holds
    cases l with
    | false => cases holds
    | true =>
      cases holds
      decide)
  obtain ⟨three, _, h₃⟩ := listPushBack_represents (a := 2) h₂ (update_self ..) (by
    intro l xs holds
    cases l with
    | false => cases holds
    | true =>
      cases holds
      decide)
  have sorts := (list_sort_correct lastDigitCmp lastDigitCmp_weak three _ h₃ true [12, 3, 2] rfl).1
  exact ⟨three, _, rfl, sorts 4 (by decide)⟩

end Calendarizador.Guarantees
