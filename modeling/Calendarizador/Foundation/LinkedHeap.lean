import Mathlib.Data.List.Chain
import Mathlib.Data.List.Nodup
import Mathlib.Logic.Function.Basic

/-!
# A heap of doubly linked lists

Many lists share one memory of `prev` and `next` pointers. Each list has two sentinels,
and elements are linked between them. `Represents m lists` says which sequence every list
holds; `Represents.detach` takes a range out of its list and `Represents.attach` puts a
free range into one, with the pointer writes that do it. All other changes of a heap are
made of these two and of `Represents.replace`.
-/
namespace Calendarizador.Foundation
open Function List

/-- The place of a pair of pointers: a sentinel of the list `l`, or an element. -/
inductive Cell (ι α : Type) where
  | head (l : ι)
  | tail (l : ι)
  | elem (a : α)
  deriving DecidableEq

/-- The pointers of every cell; `none` is the null pointer. -/
structure CellHeap (ι α : Type) where
  prev : Cell ι α → Option (Cell ι α)
  next : Cell ι α → Option (Cell ι α)

namespace CellHeap
variable {ι α : Type}

/-- The pointers of two neighbours. -/
def Adj (m : CellHeap ι α) (x y : Cell ι α) : Prop := m.next x = some y ∧ m.prev y = some x

/-- The cells met by following a pointer at most `steps` times. -/
def follow (pointer : Cell ι α → Option (Cell ι α)) : Nat → Cell ι α → List (Cell ι α)
  | 0, _ => []
  | steps + 1, x =>
    match pointer x with
    | none => []
    | some y => y :: follow pointer steps y

/-- Another relation between neighbours; the last cell is no predecessor and the first no
successor. -/
theorem chain_imp {R S : Cell ι α → Cell ι α → Prop} {cells : List (Cell ι α)}
    (linked : cells.IsChain R)
    (implies : ∀ x ∈ cells.dropLast, ∀ y ∈ cells.tail, R x y → S x y) : cells.IsChain S := by
  induction cells with
  | nil => exact .nil
  | cons x rest ih =>
    cases rest with
    | nil => exact .singleton x
    | cons y rest =>
      obtain ⟨near, far⟩ := isChain_cons_cons.mp linked
      refine isChain_cons_cons.mpr ⟨?_, ih far fun u inFront v inTail => ?_⟩
      · exact implies x mem_cons_self y mem_cons_self near
      · exact implies u (mem_cons_of_mem x inFront) v (mem_cons_of_mem y inTail)

/-- Only the pointers along the chain matter. -/
theorem chain_frame {m after : CellHeap ι α} {cells : List (Cell ι α)}
    (linked : cells.IsChain m.Adj) (next : ∀ x ∈ cells.dropLast, after.next x = m.next x)
    (prev : ∀ x ∈ cells.tail, after.prev x = m.prev x) : cells.IsChain after.Adj := by
  refine chain_imp linked fun x inFront y inTail near => ⟨?_, ?_⟩
  · rw [next x inFront]
    exact near.1
  · rw [prev y inTail]
    exact near.2

/-- Following a pointer along a chain that ends at a null pointer. -/
theorem follow_chain {pointer : Cell ι α → Option (Cell ι α)} {last : Cell ι α}
    (ends : pointer last = none) (x : Cell ι α) (cells : List (Cell ι α))
    (linked : (x :: cells).IsChain fun y z => pointer y = some z)
    (stops : (x :: cells).getLast? = some last) {steps : Nat} (enough : cells.length ≤ steps) :
    follow pointer steps x = cells := by
  induction cells generalizing x steps with
  | nil =>
    have here : x = last := Option.some.inj stops
    cases steps with
    | zero => rfl
    | succ steps => rw [follow, here, ends]
  | cons y rest ih =>
    obtain ⟨near, far⟩ := isChain_cons_cons.mp linked
    cases steps with
    | zero => cases enough
    | succ steps =>
      rw [follow, near]
      exact congrArg (y :: ·) (ih y far stops (Nat.le_of_succ_le_succ enough))

variable [DecidableEq ι] [DecidableEq α]

def setPrev (m : CellHeap ι α) (x : Cell ι α) (value : Option (Cell ι α)) : CellHeap ι α :=
  { m with prev := Function.update m.prev x value }

def setNext (m : CellHeap ι α) (x : Cell ι α) (value : Option (Cell ι α)) : CellHeap ι α :=
  { m with next := Function.update m.next x value }

section
variable (m : CellHeap ι α) (x : Cell ι α) (value : Option (Cell ι α))

@[simp] theorem setPrev_next : (m.setPrev x value).next = m.next := rfl
@[simp] theorem setNext_prev : (m.setNext x value).prev = m.prev := rfl
@[simp] theorem setPrev_prev_self : (m.setPrev x value).prev x = value := by simp [setPrev]
@[simp] theorem setNext_next_self : (m.setNext x value).next x = value := by simp [setNext]

@[simp] theorem setPrev_prev_of_ne {y : Cell ι α} (other : y ≠ x) :
    (m.setPrev x value).prev y = m.prev y := by simp [setPrev, other]

@[simp] theorem setNext_next_of_ne {y : Cell ι α} (other : y ≠ x) :
    (m.setNext x value).next y = m.next y := by simp [setNext, other]

end

/-- Two cells become neighbours. -/
def join (m : CellHeap ι α) (x y : Cell ι α) : CellHeap ι α :=
  (m.setNext x (some y)).setPrev y (some x)

section
variable {m : CellHeap ι α} {x y : Cell ι α}

@[simp] theorem join_adj : (m.join x y).Adj x y := ⟨by simp [join], by simp [join]⟩

theorem join_next {z : Cell ι α} (other : z ≠ x) : (m.join x y).next z = m.next z := by
  simp [join, other]

theorem join_prev {z : Cell ι α} (other : z ≠ y) : (m.join x y).prev z = m.prev z := by
  simp [join, other]

/-- A chain in which neither `x` has a successor nor `y` a predecessor stays. -/
theorem join_chain {cells : List (Cell ι α)} (linked : cells.IsChain m.Adj)
    (first : x ∉ cells.dropLast) (second : y ∉ cells.tail) : cells.IsChain (m.join x y).Adj := by
  refine chain_frame linked (fun z member => ?_) fun z member => ?_
  · refine join_next fun same => first ?_
    rwa [← same]
  · refine join_prev fun same => second ?_
    rwa [← same]

/-- Two chains become one. -/
theorem join_append {left right : List (Cell ι α)} (before : (left ++ [x]).IsChain m.Adj)
    (behind : (y :: right).IsChain m.Adj) (nodup : (left ++ [x] ++ y :: right).Nodup) :
    (left ++ [x] ++ y :: right).IsChain (m.join x y).Adj := by
  obtain ⟨nodupLeft, nodupRight, apart⟩ := nodup_append.mp nodup
  have apart : ∀ z ∈ left ++ [x], z ∉ y :: right := fun z inLeft inRight =>
    apart z inLeft z inRight rfl
  have last : x ∈ left ++ [x] := mem_append_right _ (mem_singleton_self x)
  refine isChain_append.mpr ⟨join_chain before ?_ ?_, join_chain behind ?_ ?_, ?_⟩
  · rw [dropLast_concat]
    exact fun member => (nodup_append.mp nodupLeft).2.2 x member x
      (mem_singleton_self x) rfl
  · exact fun member => apart y (mem_of_mem_tail member) mem_cons_self
  · exact fun member => apart x last (dropLast_subset _ member)
  · exact (nodup_cons.mp nodupRight).1
  · intro p atEnd q atStart
    rw [List.getLast?_concat, Option.mem_some_iff] at atEnd
    rw [List.head?_cons, Option.mem_some_iff] at atStart
    subst atEnd atStart
    exact join_adj

end
end CellHeap

section
variable {ι α : Type}

/-- The cells of a list that holds `xs`, from sentinel to sentinel. -/
def cells (l : ι) (xs : List α) : List (Cell ι α) := .head l :: xs.map .elem ++ [.tail l]

/-- The cell in front of which a list that ends with `back` is cut. -/
def startCell (l : ι) : List α → Cell ι α
  | [] => .tail l
  | a :: _ => .elem a

/-- The last cell of a list that starts with `front`. -/
def endCell (l : ι) (front : List α) : Cell ι α :=
  match front.getLast? with
  | none => .head l
  | some a => .elem a

@[simp] theorem endCell_concat (l : ι) (front : List α) (a : α) :
    endCell l (front ++ [a]) = .elem a := by
  rw [endCell, List.getLast?_concat]

theorem before_cut (l : ι) (front : List α) :
    ∃ left, .head l :: front.map .elem = left ++ [endCell l front] := by
  rcases eq_nil_or_concat front with rfl | ⟨most, a, rfl⟩
  · exact ⟨[], rfl⟩
  · rw [concat_eq_append, endCell_concat]
    exact ⟨.head l :: most.map .elem, by simp⟩

theorem after_cut (l : ι) (back : List α) :
    ∃ right, back.map .elem ++ [.tail l] = startCell l back :: right := by
  cases back with
  | nil => exact ⟨[], rfl⟩
  | cons a rest => exact ⟨rest.map .elem ++ [.tail l], rfl⟩

theorem cells_append (l : ι) (front back : List α) :
    cells l (front ++ back) = (.head l :: front.map .elem) ++ (back.map .elem ++ [.tail l]) := by
  simp [cells]

/-- The cells of a list with a range in the middle, and without it. -/
theorem cells_cut (l : ι) (front range back : List α) : ∃ left right,
    cells l (front ++ range ++ back) =
      left ++ [endCell l front] ++ (range.map .elem ++ startCell l back :: right) ∧
    cells l (front ++ back) = left ++ [endCell l front] ++ startCell l back :: right := by
  obtain ⟨left, before⟩ := before_cut l front
  obtain ⟨right, behind⟩ := after_cut l back
  refine ⟨left, right, ?_, ?_⟩
  · have later : (range ++ back).map .elem ++ [.tail l] =
        range.map .elem ++ startCell l back :: right := by
      rw [map_append, append_assoc, behind]
    rw [append_assoc, cells_append, before, later]
  · rw [cells_append, before, behind]

theorem startCell_mem (l : ι) (front back : List α) :
    startCell l back ∈ cells l (front ++ back) := by
  obtain ⟨right, cut⟩ := after_cut l back
  rw [cells_append, cut]
  exact mem_append_right _ mem_cons_self

theorem endCell_mem (l : ι) (front back : List α) : endCell l front ∈ cells l (front ++ back) := by
  obtain ⟨left, cut⟩ := before_cut l front
  rw [cells_append, cut]
  exact mem_append_left _ (mem_append_right _ (mem_singleton_self _))

theorem startCell_ne_head (l : ι) (back : List α) : .head l ≠ startCell l back := by
  cases back <;> simp [startCell]

theorem endCell_ne_tail (l : ι) (front : List α) : .tail l ≠ endCell l front := by
  rw [endCell]
  split <;> simp

theorem elem_mem_cells {l : ι} {xs : List α} {a : α} : .elem a ∈ cells l xs ↔ a ∈ xs := by
  simp [cells]

theorem mem_cells {l : ι} {xs : List α} {x : Cell ι α} :
    x ∈ cells l xs ↔ x = .head l ∨ (∃ a ∈ xs, x = .elem a) ∨ x = .tail l := by
  simp [cells, eq_comm]

theorem cells_nodup {l : ι} {xs : List α} : (cells l xs).Nodup ↔ xs.Nodup := by
  have injective : Function.Injective (Cell.elem : α → Cell ι α) := fun _ _ same =>
    Cell.elem.inj same
  simp [cells, nodup_append, nodup_map_iff injective]

/-- The sequences that the initialised lists of a heap hold. -/
structure Represents (m : CellHeap ι α) (lists : ι → Option (List α)) : Prop where
  chain : ∀ {l xs}, lists l = some xs → (cells l xs).IsChain m.Adj
  front : ∀ {l xs}, lists l = some xs → m.prev (.head l) = none
  back : ∀ {l xs}, lists l = some xs → m.next (.tail l) = none
  nodup : ∀ {l xs}, lists l = some xs → xs.Nodup
  apart : ∀ {l l' xs ys a}, lists l = some xs → lists l' = some ys → a ∈ xs → a ∈ ys → l = l'

namespace Represents
variable {m after : CellHeap ι α} {lists : ι → Option (List α)}

/-- No cell is on two lists. -/
theorem cells_apart (h : Represents m lists) {l l' : ι} {xs ys : List α} {x : Cell ι α}
    (here : lists l = some xs) (there : lists l' = some ys) (inside : x ∈ cells l xs)
    (outside : x ∈ cells l' ys) : l = l' := by
  rcases mem_cells.mp inside with rfl | ⟨a, member, rfl⟩ | rfl <;>
    rcases mem_cells.mp outside with same | ⟨b, member', same⟩ | same <;> cases same
  · rfl
  · exact h.apart here there member member'
  · rfl

/-- The two cells at a cut are neighbours. -/
theorem link (h : Represents m lists) {l : ι} {front back : List α}
    (here : lists l = some (front ++ back)) : m.Adj (endCell l front) (startCell l back) := by
  obtain ⟨left, before⟩ := before_cut l front
  obtain ⟨right, behind⟩ := after_cut l back
  have linked := h.chain here
  rw [cells_append, before, behind, isChain_append] at linked
  exact linked.2.2 _ (by simp) _ (by simp)

/-- The cell behind an element. -/
theorem link_elem (h : Represents m lists) {l : ι} {front back : List α} {a : α}
    (here : lists l = some (front ++ a :: back)) : m.Adj (.elem a) (startCell l back) := by
  have moved : lists l = some ((front ++ [a]) ++ back) := by
    rw [here, append_assoc]
    rfl
  have linked := h.link moved
  rwa [endCell_concat] at linked

/-- Following the pointers finds the sequence and its reverse. -/
theorem follow_next (h : Represents m lists) {l : ι} {xs : List α} (here : lists l = some xs)
    {steps : Nat} (enough : xs.length < steps) :
    CellHeap.follow m.next steps (.head l) = xs.map .elem ++ [.tail l] := by
  refine CellHeap.follow_chain (h.back here) _ _ ?_ ?_ ?_
  · exact (h.chain here).imp fun _ _ linked => linked.1
  · rw [← cons_append, List.getLast?_concat]
  · simpa using Nat.succ_le_of_lt enough

theorem follow_prev (h : Represents m lists) {l : ι} {xs : List α} (here : lists l = some xs)
    {steps : Nat} (enough : xs.length < steps) :
    CellHeap.follow m.prev steps (.tail l) = xs.reverse.map .elem ++ [.head l] := by
  have turned : (cells l xs).reverse = .tail l :: (xs.reverse.map .elem ++ [.head l]) := by
    simp [cells]
  refine CellHeap.follow_chain (h.front here) _ _ ?_ ?_ ?_
  · rw [← turned, isChain_reverse]
    exact (h.chain here).imp fun _ _ linked => linked.2
  · rw [← cons_append, List.getLast?_concat]
  · simpa using Nat.succ_le_of_lt enough

variable [DecidableEq ι]

/-- One list changes and the cells of the others keep their pointers. -/
theorem replace (h : Represents m lists) {l : ι} {new : List α}
    (linked : (cells l new).IsChain after.Adj) (front : after.prev (.head l) = none)
    (back : after.next (.tail l) = none) (nodup : new.Nodup)
    (fresh : ∀ {l' xs a}, l' ≠ l → lists l' = some xs → a ∈ new → a ∉ xs)
    (same : ∀ {l' xs x}, l' ≠ l → lists l' = some xs → x ∈ cells l' xs →
      after.prev x = m.prev x ∧ after.next x = m.next x) :
    Represents after (update lists l (some new)) := by
  have cases_list : ∀ {l' xs}, update lists l (some new) l' = some xs →
      (l' = l ∧ xs = new) ∨ (l' ≠ l ∧ lists l' = some xs) := by
    intro l' xs there
    by_cases here : l' = l
    · rw [here, update_self] at there
      exact .inl ⟨here, (Option.some.inj there).symm⟩
    · rw [update_of_ne here] at there
      exact .inr ⟨here, there⟩
  constructor
  · intro l' xs there
    rcases cases_list there with ⟨rfl, rfl⟩ | ⟨other, there⟩
    · exact linked
    · refine CellHeap.chain_frame (h.chain there) (fun x member => ?_) fun x member => ?_
      · exact (same other there (dropLast_subset _ member)).2
      · exact (same other there (mem_of_mem_tail member)).1
  · intro l' xs there
    rcases cases_list there with ⟨rfl, rfl⟩ | ⟨other, there⟩
    · exact front
    · rw [(same other there (by simp [cells])).1]
      exact h.front there
  · intro l' xs there
    rcases cases_list there with ⟨rfl, rfl⟩ | ⟨other, there⟩
    · exact back
    · rw [(same other there (by simp [cells])).2]
      exact h.back there
  · intro l' xs there
    rcases cases_list there with ⟨rfl, rfl⟩ | ⟨_, there⟩
    · exact nodup
    · exact h.nodup there
  · intro l₁ l₂ xs ys a first second inFirst inSecond
    rcases cases_list first with ⟨same₁, holds₁⟩ | ⟨other₁, there₁⟩
    · rcases cases_list second with ⟨same₂, _⟩ | ⟨other₂, there₂⟩
      · rw [same₁, same₂]
      · exact absurd inSecond (fresh other₂ there₂ (holds₁ ▸ inFirst))
    · rcases cases_list second with ⟨_, holds₂⟩ | ⟨other₂, there₂⟩
      · exact absurd inFirst (fresh other₁ there₁ (holds₂ ▸ inSecond))
      · exact h.apart there₁ there₂ inFirst inSecond

variable [DecidableEq α]

/-- A join of two cells of one list does not touch the others. -/
theorem join_elsewhere (h : Represents m lists) {l l' : ι} {xs ys : List α} {x y z : Cell ι α}
    (here : lists l = some xs) (inx : x ∈ cells l xs) (iny : y ∈ cells l xs) (other : l' ≠ l)
    (there : lists l' = some ys) (inz : z ∈ cells l' ys) :
    (m.join x y).prev z = m.prev z ∧ (m.join x y).next z = m.next z := by
  constructor
  · refine CellHeap.join_prev fun same => other (h.cells_apart there here inz ?_)
    rwa [same]
  · refine CellHeap.join_next fun same => other (h.cells_apart there here inz ?_)
    rwa [same]

/-- A range is taken out by joining its two neighbours; it stays linked in itself. -/
theorem detach (h : Represents m lists) {l : ι} {front range back : List α}
    (here : lists l = some (front ++ range ++ back)) :
    Represents (m.join (endCell l front) (startCell l back))
        (update lists l (some (front ++ back))) ∧
      (range.map Cell.elem).IsChain (m.join (endCell l front) (startCell l back)).Adj := by
  obtain ⟨left, right, whole, shorter⟩ := cells_cut l front range back
  have nodup := cells_nodup (l := l).mpr (h.nodup here)
  have linked := h.chain here
  rw [whole] at nodup linked
  obtain ⟨linkedFront, linkedRest, _⟩ := isChain_append.mp linked
  obtain ⟨linkedRange, linkedBack, _⟩ := isChain_append.mp linkedRest
  obtain ⟨_, nodupRest, apart⟩ := nodup_append.mp nodup
  have fewer : (left ++ [endCell l front] ++ startCell l back :: right).Nodup :=
    nodup.sublist (List.Sublist.append_left (sublist_append_right _ _) _)
  have inFront : endCell l front ∈ left ++ [endCell l front] :=
    mem_append_right _ (mem_singleton_self _)
  have inList : ∀ x ∈ cells l (front ++ back), x ∈ cells l (front ++ range ++ back) := by
    intro x member
    rw [shorter] at member
    rw [whole]
    exact (List.Sublist.append_left (sublist_append_right _ _) _).subset member
  refine ⟨h.replace ?_ ?_ ?_ ?_ ?_ ?_, CellHeap.join_chain linkedRange ?_ ?_⟩
  · rw [shorter]
    exact CellHeap.join_append linkedFront linkedBack fewer
  · rw [CellHeap.join_prev (startCell_ne_head l back)]
    exact h.front here
  · rw [CellHeap.join_next (endCell_ne_tail l front)]
    exact h.back here
  · refine cells_nodup (l := l).mp ?_
    rw [shorter]
    exact fewer
  · intro l' xs a other there inNew inOther
    refine other (h.apart there here inOther ?_)
    exact elem_mem_cells.mp (inList _ (elem_mem_cells.mpr inNew))
  · intro l' xs x other there inside
    exact h.join_elsewhere here (inList _ (endCell_mem l front back))
      (inList _ (startCell_mem l front back)) other there inside
  · exact fun member => apart _ inFront _ (mem_append_left _
      (dropLast_subset _ member)) rfl
  · exact fun member => (nodup_append.mp nodupRest).2.2 _ (mem_of_mem_tail member) _
      mem_cons_self rfl

/-- A free range, linked in itself, is put in at a cut. -/
theorem attach (h : Represents m lists) {l : ι} {front range back : List α} {first last : α}
    (here : lists l = some (front ++ back)) (linked : (range.map Cell.elem).IsChain m.Adj)
    (nodup : range.Nodup) (fresh : ∀ {l' xs a}, lists l' = some xs → a ∈ range → a ∉ xs)
    (starts : range.head? = some first) (stops : range.getLast? = some last) :
    Represents ((m.join (endCell l front) (.elem first)).join (.elem last) (startCell l back))
      (update lists l (some (front ++ range ++ back))) := by
  obtain ⟨left, right, longer, shorter⟩ := cells_cut l front range back
  obtain ⟨rest, ahead⟩ := List.head?_eq_some_iff.mp starts
  obtain ⟨most, behind⟩ := List.getLast?_eq_some_iff.mp stops
  have begins : range.map Cell.elem = (.elem first : Cell ι α) :: rest.map .elem := by simp [ahead]
  have ends : range.map Cell.elem = most.map .elem ++ [(.elem last : Cell ι α)] := by simp [behind]
  have chained := h.chain here
  rw [← append_assoc] at longer
  have inRange : first ∈ range ∧ last ∈ range := ⟨by simp [ahead], by simp [behind]⟩
  have unique : (front ++ range ++ back).Nodup := by
    have old := h.nodup here
    have new : (range ++ (front ++ back)).Nodup := nodup_append.mpr
      ⟨nodup, old, fun a inNew b inOld same => fresh here inNew (same ▸ inOld)⟩
    refine List.Perm.nodup_iff ?_ |>.mp new
    rw [← append_assoc]
    exact List.Perm.append_right back perm_append_comm
  have distinct := cells_nodup (l := l).mpr unique
  rw [longer] at distinct
  rw [shorter] at chained
  obtain ⟨linkedFront, linkedBack, _⟩ := isChain_append.mp chained
  obtain ⟨distinctFront, _, apartBack⟩ := nodup_append.mp distinct
  have apartBack : ∀ x ∈ left ++ [endCell l front] ++ range.map Cell.elem,
      x ∉ startCell l back :: right := fun x inside behind => apartBack x inside x behind rfl
  -- the first join extends the front by the range, the second adds the back
  have extended : (left ++ [endCell l front] ++ range.map Cell.elem).IsChain
      (m.join (endCell l front) (.elem first)).Adj := by
    rw [begins] at linked distinctFront ⊢
    exact CellHeap.join_append linkedFront linked distinctFront
  have untouched : (startCell l back :: right).IsChain
      (m.join (endCell l front) (.elem first)).Adj := by
    refine CellHeap.join_chain linkedBack (fun member => ?_) fun member => ?_
    · exact apartBack _ (mem_append_left _ (mem_append_right _
        (mem_singleton_self _))) (dropLast_subset _ member)
    · exact apartBack (.elem first) (mem_append_right _ (mem_map_of_mem inRange.1))
        (mem_cons_of_mem _ member)
  have away : ∀ {l' : ι} {xs : List α} {a : α}, lists l' = some xs → a ∈ range →
      (.elem a : Cell ι α) ∉ cells l' xs := fun there inside member =>
    fresh there inside (elem_mem_cells.mp member)
  refine h.replace ?_ ?_ ?_ unique ?_ ?_
  · rw [longer]
    have assoc : left ++ [endCell l front] ++ range.map Cell.elem =
        left ++ [endCell l front] ++ most.map .elem ++ [Cell.elem last] := by
      rw [ends, append_assoc _ (most.map _)]
    rw [assoc] at extended distinct ⊢
    exact CellHeap.join_append extended untouched distinct
  · rw [CellHeap.join_prev (startCell_ne_head l back), CellHeap.join_prev (by simp)]
    exact h.front here
  · rw [CellHeap.join_next (by simp), CellHeap.join_next (endCell_ne_tail l front)]
    exact h.back here
  · intro l' xs a other there inNew inOther
    rw [mem_append, mem_append] at inNew
    rcases inNew with (inFront | inside) | inBack
    · exact other (h.apart there here inOther (mem_append_left _ inFront))
    · exact fresh there inside inOther
    · exact other (h.apart there here inOther (mem_append_right _ inBack))
  · intro l' xs x other there inside
    have notEnd : x ≠ endCell l front := fun same =>
      other (h.cells_apart there here inside (same ▸ endCell_mem l front back))
    have notStart : x ≠ startCell l back := fun same =>
      other (h.cells_apart there here inside (same ▸ startCell_mem l front back))
    have notFirst : x ≠ .elem first := fun same => away there inRange.1 (same ▸ inside)
    have notLast : x ≠ .elem last := fun same => away there inRange.2 (same ▸ inside)
    constructor
    · rw [CellHeap.join_prev notStart, CellHeap.join_prev notFirst]
    · rw [CellHeap.join_next notLast, CellHeap.join_next notEnd]

end Represents
end
end Calendarizador.Foundation
