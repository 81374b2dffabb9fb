import Calendarizador.Foundation.LinkedHeap

/-!
# One doubly linked list

A heap that holds a single list. An element that is not in the list may be written freely;
`Linked.insert` and `Linked.remove` are the two ways in which the list itself changes.
-/
namespace Calendarizador.Foundation
open Function List

abbrev Node (α : Type) := Cell Unit α

abbrev Links (α : Type) := CellHeap Unit α

section
variable {α : Type}

/-- The empty list. -/
def Links.empty : Links α where
  prev
    | .tail _ => some (.head ())
    | _ => none
  next
    | .head _ => some (.tail ())
    | _ => none

/-- The memory holds the list `list`. -/
def Linked (l : Links α) (list : List α) : Prop := Represents l fun _ => some list

variable {l m : Links α} {list front back : List α} {a e : α}

theorem linked_of_chain (chain : (cells () list).IsChain l.Adj) (nodup : list.Nodup)
    (head : l.prev (.head ()) = none) (tail : l.next (.tail ()) = none) : Linked l list := by
  constructor
  · rintro _ _ ⟨⟩
    exact chain
  · rintro _ _ ⟨⟩
    exact head
  · rintro _ _ ⟨⟩
    exact tail
  · rintro _ _ ⟨⟩
    exact nodup
  · intros
    rfl

theorem Linked.empty : Linked (Links.empty : Links α) [] :=
  linked_of_chain (isChain_pair.mpr ⟨rfl, rfl⟩) nodup_nil rfl rfl

namespace Linked

theorem nodup (h : Linked l list) : list.Nodup := Represents.nodup h (l := ()) rfl

theorem tail (h : Linked l list) : l.next (.tail ()) = none := Represents.back h rfl

theorem cut (h : Linked l (front ++ back)) : l.Adj (endCell () front) (startCell () back) :=
  Represents.link h rfl

theorem first (h : Linked l list) : l.next (.head ()) = some (startCell () list) :=
  (show Linked l ([] ++ list) from h).cut.1

theorem last (h : Linked l list) : l.prev (.tail ()) = some (endCell () list) := by
  rw [← append_nil list] at h
  exact h.cut.2

/-- The pointers of an element. -/
theorem elem (h : Linked l (front ++ a :: back)) : l.prev (.elem a) = some (endCell () front) ∧
    l.next (.elem a) = some (startCell () back) :=
  ⟨h.cut.2, (Represents.link_elem h rfl).1⟩

/-- An element outside the list may be written. -/
theorem frame (h : Linked l list) (fresh : e ∉ list)
    (prev : ∀ n, n ≠ .elem e → m.prev n = l.prev n)
    (next : ∀ n, n ≠ .elem e → m.next n = l.next n) : Linked m list := by
  have apart : ∀ n ∈ cells () list, n ≠ .elem e := by
    rintro n member rfl
    exact fresh (elem_mem_cells.mp member)
  refine linked_of_chain ?_ h.nodup ?_ ?_
  · exact CellHeap.chain_frame (Represents.chain h rfl)
      (fun n member => next n (apart n (dropLast_subset _ member)))
      fun n member => prev n (apart n (mem_of_mem_tail member))
  · rw [prev _ (by simp)]
    exact Represents.front h rfl
  · rw [next _ (by simp)]
    exact h.tail

end Linked

theorem elem_ne_startCell (out : e ∉ back) : .elem e ≠ startCell () back := by
  cases back with
  | nil => simp [startCell]
  | cons a rest =>
    rintro ⟨⟩
    exact out mem_cons_self

theorem elem_ne_endCell (out : e ∉ front) : .elem e ≠ endCell () front := by
  rcases eq_nil_or_concat' front with rfl | ⟨most, a, rfl⟩
  · simp [endCell]
  · rw [endCell_concat]
    rintro ⟨⟩
    exact out (mem_append_right _ (mem_singleton_self _))

variable [DecidableEq α]

/-- The two writes that link `e` at a cut, once `e` itself points to its neighbours. -/
theorem Linked.insert (h : Linked l (front ++ back)) (fresh : e ∉ front ++ back)
    (prev : l.prev (.elem e) = l.prev (startCell () back))
    (next : l.next (.elem e) = some (startCell () back)) :
    Linked ((l.setNext (endCell () front) (some (.elem e))).setPrev (startCell () back)
      (some (.elem e))) (front ++ e :: back) := by
  have apart : .elem e ≠ endCell () front :=
    elem_ne_endCell fun member => fresh (mem_append_left _ member)
  have attached := Represents.attach h (l := ()) rfl (.singleton _) (nodup_singleton e)
    (fun same inside => by cases same; rwa [mem_singleton.mp inside]) head?_cons
    getLast?_singleton
  have lists : update (fun _ => some (front ++ back)) () (some (front ++ [e] ++ back)) =
      fun _ => some (front ++ e :: back) := by
    rw [append_assoc]
    rfl
  -- the pointers of `e` are written again as they are
  have heap : (l.join (endCell () front) (.elem e)).join (.elem e) (startCell () back) =
      (l.setNext (endCell () front) (some (.elem e))).setPrev (startCell () back)
        (some (.elem e)) := by
    have prevs : update l.prev (.elem e) (some (endCell () front)) = l.prev := by
      rw [← h.cut.2, ← prev, update_eq_self]
    have nexts : update (update l.next (endCell () front) (some (.elem e))) (.elem e)
        (some (startCell () back)) = update l.next (endCell () front) (some (.elem e)) := by
      rw [← next, ← update_of_ne apart (some (.elem e)) l.next, update_eq_self]
    simp only [CellHeap.join, CellHeap.setNext, CellHeap.setPrev, prevs, nexts]
  rw [lists, heap] at attached
  exact attached

/-- The two writes that unlink an element. -/
theorem Linked.remove (h : Linked l (front ++ a :: back)) :
    Linked ((l.setNext (endCell () front) (some (startCell () back))).setPrev (startCell () back)
      (some (endCell () front))) (front ++ back) := by
  have split : Linked l (front ++ [a] ++ back) := by
    rw [append_assoc]
    exact h
  exact (Represents.detach split rfl).1

end
end Calendarizador.Foundation
