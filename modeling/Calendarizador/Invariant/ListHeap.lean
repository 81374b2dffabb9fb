import Calendarizador.Foundation.Transition
import Calendarizador.Source.ListHeap

/-!
# The list operations on sequences

What each operation of `lib/kernel/list.c` does to the sequences that the heap represents.
Under the premises of a lemma no assertion fails and no null pointer is followed.
-/
namespace Calendarizador.Source.ListHeap
open Foundation Function List

section
variable {ι α : Type} {m after : CellHeap ι α} {lists : ι → Option (List α)} {l : ι}
  {xs front range back : List α} {a : α}
variable {fuel : Nat}

@[simp] theorem load_some (x : Cell ι α) : load (some x) = .ok x := rfl

@[simp] theorem listAssert_true : listAssert true = .ok () := rfl

/-! ## Reading -/

theorem isInterior_elem (h : Represents m lists) (here : lists l = some xs) (member : a ∈ xs) :
    isInterior m (.elem a) = true := by
  obtain ⟨front, back, rfl⟩ := append_of_mem member
  have into : m.Adj (endCell l front) (.elem a) := h.link here
  rw [isInterior, into.2, (h.link_elem here).1]
  rfl

theorem isTail_tail (h : Represents m lists) (here : lists l = some xs) :
    isTail m (.tail l) = true := by
  have into : m.Adj (endCell l xs) (startCell l []) := by
    refine h.link ?_
    rw [here, append_nil]
  have prev : m.prev (.tail l) = some (endCell l xs) := into.2
  rw [isTail, prev, h.back here]
  rfl

/-- A place where elements can be put in. -/
theorem insertable_startCell (h : Represents m lists) (here : lists l = some xs)
    (suffix : ∀ b ∈ back, b ∈ xs) :
    (isInterior m (startCell l back) || isTail m (startCell l back)) = true := by
  cases back with
  | nil => rw [startCell, isTail_tail h here, Bool.or_true]
  | cons b rest =>
    rw [startCell, isInterior_elem h here (suffix b mem_cons_self), Bool.true_or]

theorem link_head (h : Represents m lists) (here : lists l = some xs) :
    m.Adj (.head l) (startCell l xs) := by
  have cut : lists l = some ([] ++ xs) := here
  exact h.link cut

theorem listBegin_startCell (h : Represents m lists) (here : lists l = some xs) :
    listBegin m l = .ok (startCell l xs) := by
  rw [listBegin, (link_head h here).1]
  rfl

/-- The element after `a`, or the tail. -/
theorem listNext_elem (h : Represents m lists) (here : lists l = some (front ++ a :: back)) :
    listNext m (.elem a) = .ok (startCell l back) := by
  rw [listNext, isInterior_elem h here (by simp), Bool.or_true, (h.link_elem here).1]
  rfl

theorem listPrev_elem (h : Represents m lists) (here : lists l = some (front ++ a :: back)) :
    listPrev m (startCell l back) = .ok (.elem a) := by
  have readable := insertable_startCell h here fun b member =>
    mem_append_right front (mem_cons_of_mem a member)
  rw [listPrev, readable, (h.link_elem here).2]
  rfl

variable [DecidableEq ι] [DecidableEq α]

theorem listEmpty_iff (h : Represents m lists) (here : lists l = some xs) :
    listEmpty m l = .ok (decide (xs = [])) := by
  rw [listEmpty, listBegin_startCell h here]
  cases xs with
  | nil => simp [startCell, listEnd, bind, Except.bind]
  | cons b rest => simp [startCell, listEnd, bind, Except.bind]

/-! ## Writing -/

theorem listInit_represents (h : Represents m lists) (l : ι) :
    Represents (listInit m l) (update lists l (some [])) := by
  refine h.replace ?_ ?_ ?_ nodup_nil ?_ ?_
  · refine isChain_cons_cons.mpr ⟨⟨?_, ?_⟩, .singleton _⟩ <;> simp [listInit]
  · simp [listInit]
  · simp [listInit]
  · intro l' xs a _ _ member
    cases member
  · intro l' xs x other there inside
    rcases mem_cells.mp inside with rfl | ⟨a, _, rfl⟩ | rfl <;> simp [listInit, other]

/-- The writes of `list_insert` make two pairs of neighbours. -/
theorem listInsert_eq {before elem left : Cell ι α}
    (place : (isInterior m before || isTail m before) = true) (prev : m.prev before = some left)
    (notBefore : elem ≠ before) (notLeft : elem ≠ left) :
    listInsert m before elem = .ok ((m.join left elem).join elem before) := by
  rw [listInsert, place, prev]
  have kept : ((m.setPrev elem (some left)).setNext elem (some before)).prev before =
      some left := by
    rw [CellHeap.setNext_prev, CellHeap.setPrev_prev_of_ne _ _ _ notBefore.symm, prev]
  show (load _ >>= _) = _
  rw [kept]
  simp only [load_some, CellHeap.join, CellHeap.setPrev, CellHeap.setNext, bind, Except.bind]
  rw [update_comm notLeft]

theorem listInsert_represents (h : Represents m lists) (here : lists l = some (front ++ back))
    (fresh : ∀ {l' xs}, lists l' = some xs → a ∉ xs) :
    ∃ after, listInsert m (startCell l back) (.elem a) = .ok after ∧
      Represents after (update lists l (some (front ++ a :: back))) := by
  have outside : ∀ x ∈ cells l (front ++ back), (.elem a : Cell ι α) ≠ x := by
    rintro x member rfl
    exact fresh here (elem_mem_cells.mp member)
  refine ⟨_, listInsert_eq (insertable_startCell h here fun b => mem_append_right front)
    (h.link here).2 (outside _ (startCell_mem l front back)) (outside _ (endCell_mem l front back)),
    ?_⟩
  have single : ([a].map (.elem : α → Cell ι α)).IsChain m.Adj := .singleton _
  have attached := h.attach here single (nodup_singleton a)
    (fun there member => mem_singleton.mp member ▸ fresh there) rfl rfl
  rwa [append_assoc, singleton_append] at attached

/-- The writes of `list_splice` make one pair of neighbours where the range was and two
where it is put. -/
theorem listSplice_eq {before first stop last left right mid : Cell ι α}
    (place : (isInterior m before || isTail m before) = true) (proper : first ≠ stop)
    (ends : listPrev m stop = .ok last) (firstInside : isInterior m first = true)
    (lastInside : isInterior m last = true) (prev : m.prev first = some left)
    (next : m.next last = some right) (there : (m.join left right).prev before = some mid)
    (notLeft : last ≠ left) (notFirst : before ≠ first) (notMid : last ≠ mid) :
    listSplice m before first stop =
      .ok (((m.join left right).join mid first).join last before) := by
  rw [listSplice, place]
  rw [if_neg proper, ends]
  show (listAssert (isInterior m first) >>= _) = _
  rw [firstInside]
  rw [lastInside, prev]
  show (load ((m.setNext left (m.next last)).next last) >>= _) = _
  rw [CellHeap.setNext_next_of_ne _ _ _ notLeft, next, CellHeap.setNext_prev, prev]
  show (load ((((m.join left right).setPrev first ((m.join left right).prev before)).setNext last
    (some before)).prev before) >>= _) = _
  rw [CellHeap.setNext_prev, CellHeap.setPrev_prev_of_ne _ _ _ notFirst, there]
  have value : update m.prev right (some left) before = some mid := there
  show Except.ok _ = Except.ok _
  simp only [CellHeap.join, CellHeap.setPrev, CellHeap.setNext]
  rw [value, update_comm notMid]

/-- A range moves in front of any cell of the lists that are left without it. -/
theorem listSplice_represents (h : Represents m lists)
    (here : lists l = some (front ++ range ++ back)) (some_ : range ≠ []) {l' : ι}
    {front' back' : List α}
    (there : update lists l (some (front ++ back)) l' = some (front' ++ back')) :
    ∃ after, listSplice m (startCell l' back') (startCell l (range ++ back)) (startCell l back) =
        .ok after ∧
      Represents after (update (update lists l (some (front ++ back))) l'
        (some (front' ++ range ++ back'))) := by
  obtain ⟨first, rest, starts⟩ := exists_cons_of_ne_nil some_
  obtain ⟨most, last, stops⟩ := (eq_nil_or_concat range).resolve_left some_
  rw [concat_eq_append] at stops
  have firstIn : first ∈ range := by simp [starts]
  have lastIn : last ∈ range := by simp [stops]
  have nodup := h.nodup here
  obtain ⟨removed, linked⟩ := h.detach here
  -- elements of the range are on no list once it is out
  have gone : ∀ {l₁ xs a}, update lists l (some (front ++ back)) l₁ = some xs →
      a ∈ range → a ∉ xs := by
    intro l₁ xs a holds inside member
    by_cases same : l₁ = l
    · rw [same, update_self, Option.some.injEq] at holds
      rw [← holds, mem_append] at member
      rw [append_assoc] at nodup
      obtain ⟨_, later, apartFront⟩ := nodup_append.mp nodup
      rcases member with inFront | inBack
      · exact apartFront a inFront a (mem_append_left _ inside) rfl
      · exact (nodup_append.mp later).2.2 a inside a inBack rfl
    · rw [update_of_ne same] at holds
      refine same (h.apart holds here member ?_)
      exact mem_append_left _ (mem_append_right _ inside)
  have free : ∀ x ∈ cells l' (front' ++ back'), ∀ a ∈ range, x ≠ .elem a := by
    rintro x member a inside rfl
    exact gone there inside (elem_mem_cells.mp member)
  have place : (isInterior m (startCell l' back') || isTail m (startCell l' back')) = true := by
    by_cases same : l' = l
    · rw [same, update_self, Option.some.injEq] at there
      rw [same]
      refine insertable_startCell h here fun b member => ?_
      have inside : b ∈ front ++ back := by
        rw [there]
        exact mem_append_right _ member
      rw [append_assoc]
      exact (List.Sublist.append_left (sublist_append_right _ _) _).subset inside
    · rw [update_of_ne same] at there
      exact insertable_startCell h there fun b => mem_append_right _
  have ahead : lists l = some (front ++ first :: (rest ++ back)) := by
    rw [here, starts]
    simp
  have behind : lists l = some ((front ++ most) ++ last :: back) := by
    rw [here, stops]
    simp
  have begins : startCell l (range ++ back) = .elem first := by rw [starts]; rfl
  have into : m.Adj (endCell l front) (.elem first) := h.link ahead
  have out := h.link_elem behind
  have around : ∀ x ∈ cells l (front ++ back), ∀ a ∈ range, x ≠ .elem a := by
    rintro x member a inside rfl
    exact gone (update_self l _ lists) inside (elem_mem_cells.mp member)
  refine ⟨_, ?_, removed.attach there linked ?_ gone (by rw [starts]; rfl)
    (by rw [stops, List.getLast?_concat])⟩
  · rw [begins]
    exact listSplice_eq place (around _ (startCell_mem l front back) first firstIn).symm
      (listPrev_elem h behind) (isInterior_elem h here (by simp [firstIn]))
      (isInterior_elem h here (by simp [lastIn])) into.2 out.1 (removed.link there).2
      (around _ (endCell_mem l front back) last lastIn).symm
      (free _ (startCell_mem l' front' back') first firstIn)
      (free _ (endCell_mem l' front' back') last lastIn).symm
  · exact (nodup.sublist (sublist_append_left _ _)).sublist (sublist_append_right _ _)

theorem listRemove_represents (h : Represents m lists)
    (here : lists l = some (front ++ a :: back)) :
    ∃ after, listRemove m (.elem a) = .ok (after, startCell l back) ∧
      Represents after (update lists l (some (front ++ back))) := by
  have range : lists l = some (front ++ [a] ++ back) := by
    rw [here, append_assoc]
    rfl
  have into : m.Adj (endCell l front) (.elem a) := h.link here
  have out := h.link_elem here
  have notLeft : (.elem a : Cell ι α) ≠ endCell l front := by
    have nodup := h.nodup here
    intro same
    have member := endCell_mem l front ([] : List α)
    rw [← same, append_nil, elem_mem_cells] at member
    exact (nodup_append.mp nodup).2.2 a member a mem_cons_self rfl
  refine ⟨_, ?_, (h.detach range).1⟩
  rw [listRemove, isInterior_elem h here (by simp), into.2]
  show (load ((m.setNext (endCell l front) (m.next (.elem a))).next (.elem a)) >>= _) = _
  rw [CellHeap.setNext_next_of_ne _ _ _ notLeft, out.1, CellHeap.setNext_prev, into.2]
  show (load ((m.setNext (endCell l front) (some (startCell l back))).next (.elem a)) >>= _) = _
  rw [CellHeap.setNext_next_of_ne _ _ _ notLeft, out.1]
  rfl

theorem listPushFront_represents (h : Represents m lists) (here : lists l = some xs)
    (fresh : ∀ {l' xs}, lists l' = some xs → a ∉ xs) :
    ∃ after, listPushFront m l (.elem a) = .ok after ∧
      Represents after (update lists l (some (a :: xs))) := by
  have cut : lists l = some ([] ++ xs) := here
  rw [listPushFront, listBegin_startCell h here]
  exact listInsert_represents h cut fresh

theorem listPushBack_represents (h : Represents m lists) (here : lists l = some xs)
    (fresh : ∀ {l' xs}, lists l' = some xs → a ∉ xs) :
    ∃ after, listPushBack m l (.elem a) = .ok after ∧
      Represents after (update lists l (some (xs ++ [a]))) := by
  rw [← append_nil xs] at here
  exact listInsert_represents h here fresh

theorem listPopFront_represents (h : Represents m lists) (here : lists l = some (a :: back)) :
    ∃ after, listPopFront m l = .ok (after, .elem a) ∧
      Represents after (update lists l (some back)) := by
  have cut : lists l = some ([] ++ a :: back) := here
  obtain ⟨after, removes, represented⟩ := listRemove_represents h cut
  have next : m.next (.head l) = some (.elem a) := (link_head h here).1
  have front : listFront m l = .ok (.elem a) := by
    rw [listFront, listEmpty_iff h here, next]
    rfl
  refine ⟨after, ?_, represented⟩
  rw [listPopFront, front]
  show (listRemove m (.elem a) >>= _) = _
  rw [removes]
  rfl

theorem listPopBack_represents (h : Represents m lists) (here : lists l = some (front ++ [a])) :
    ∃ after, listPopBack m l = .ok (after, .elem a) ∧
      Represents after (update lists l (some front)) := by
  obtain ⟨after, removes, represented⟩ := listRemove_represents h here
  have prev : m.prev (.tail l) = some (.elem a) := (h.link_elem here).2
  have last : listBack m l = .ok (.elem a) := by
    rw [listBack, listEmpty_iff h here, prev]
    simp [listAssert, bind, Except.bind]
  refine ⟨after, ?_, ?_⟩
  · rw [listPopBack, last]
    show (listRemove m (.elem a) >>= _) = _
    rw [removes]
    rfl
  · rwa [append_nil] at represented

/-! ## `list_reverse` -/

/-- The heap after the loop of `list_reverse`: both pointers of each element are swapped. -/
def turned (m : CellHeap ι α) (xs : List α) : CellHeap ι α where
  prev x := if x ∈ xs.map .elem then m.next x else m.prev x
  next x := if x ∈ xs.map .elem then m.prev x else m.next x

/-- One round of the loop turns one element. -/
theorem turned_cons {rest : List α} (fresh : a ∉ rest) :
    turned (swapLinks m (.elem a) (.elem a)) rest = turned m (a :: rest) := by
  have outside : (.elem a : Cell ι α) ∉ rest.map .elem := by simpa using fresh
  have swapped : ∀ x : Cell ι α,
      (turned (swapLinks m (.elem a) (.elem a)) rest).prev x = (turned m (a :: rest)).prev x ∧
      (turned (swapLinks m (.elem a) (.elem a)) rest).next x = (turned m (a :: rest)).next x := by
    intro x
    by_cases here : x = .elem a
    · subst here
      simp [turned, swapLinks, fresh]
    · simp [turned, swapLinks, here]
  show CellHeap.mk _ _ = CellHeap.mk _ _
  congr 1
  · funext x
    exact (swapped x).1
  · funext x
    exact (swapped x).2

theorem reverseLoop_turned (fuel : Nat) (nodup : xs.Nodup) (enough : xs.length < fuel)
    (linked : (xs.map Cell.elem ++ [Cell.tail l]).IsChain fun x y => m.next x = some y) :
    reverseLoop fuel m l (startCell l xs) = .ok (turned m xs) := by
  induction xs generalizing fuel m with
  | nil =>
    cases fuel with
    | zero => cases enough
    | succ fuel =>
      have here : startCell l ([] : List α) = listEnd l := rfl
      rw [reverseLoop, if_pos here]
      simp [turned]
  | cons a rest ih =>
    obtain ⟨fresh, nodupRest⟩ := nodup_cons.mp nodup
    cases fuel with
    | zero => cases enough
    | succ fuel =>
      have next : m.next (.elem a) = some (startCell l rest) := by
        cases rest with
        | nil => exact (isChain_cons_cons.mp linked).1
        | cons b more => exact (isChain_cons_cons.mp linked).1
      have later : (rest.map Cell.elem ++ [Cell.tail l]).IsChain fun x y =>
          (swapLinks m (.elem a) (.elem a)).next x = some y := by
        refine CellHeap.chain_imp linked.tail fun x inFront y _ near => ?_
        have other : x ≠ .elem a := by
          rintro rfl
          rw [dropLast_concat] at inFront
          exact fresh (by simpa using inFront)
        rw [swapLinks, CellHeap.setNext_next_of_ne _ _ _ other]
        exact near
      rw [reverseLoop, startCell, if_neg (by simp [listEnd])]
      have prev : (swapLinks m (.elem a) (.elem a)).prev (.elem a) = some (startCell l rest) := by
        rw [swapLinks, CellHeap.setNext_prev, CellHeap.setPrev_prev_self, next]
      show (load ((swapLinks m (.elem a) (.elem a)).prev (.elem a)) >>= _) = _
      rw [prev]
      show reverseLoop fuel (swapLinks m (.elem a) (.elem a)) l (startCell l rest) = _
      rw [ih fuel nodupRest (Nat.lt_of_succ_lt_succ enough) later, turned_cons fresh]

/-- The sentinels of the list are exchanged. -/
def mirror (l : ι) : Cell ι α → Cell ι α
  | .head _ => .tail l
  | .tail _ => .head l
  | .elem a => .elem a

/-- `list_reverse` exchanges the directions and the sentinels. -/
theorem listReverse_mirrors {first last : α} (h : Represents m lists) (here : lists l = some xs)
    (enough : xs.length < fuel) (starts : xs.head? = some first) (stops : xs.getLast? = some last) :
    ∃ after, listReverse fuel m l = .ok after ∧
      (∀ x ∈ cells l xs, ∀ y ∈ cells l xs, m.Adj x y → after.Adj (mirror l y) (mirror l x)) ∧
      after.prev (.head l) = none ∧ after.next (.tail l) = none ∧
      ∀ x ∉ cells l xs, after.prev x = m.prev x ∧ after.next x = m.next x := by
  obtain ⟨rest, ahead⟩ : ∃ rest, xs = first :: rest := List.head?_eq_some_iff.mp starts
  obtain ⟨most, behind⟩ : ∃ most, xs = most ++ [last] := List.getLast?_eq_some_iff.mp stops
  have firstIn : first ∈ xs := by simp [ahead]
  have lastIn : last ∈ xs := by simp [behind]
  have fromHead : m.Adj (.head l) (.elem first) := by
    have linked := link_head h here
    rwa [ahead] at linked
  have toTail : m.Adj (.elem last) (.tail l) := h.link_elem (here.trans (congrArg some behind))
  have loop : reverseLoop fuel m l (startCell l xs) = .ok (turned m xs) := by
    refine reverseLoop_turned fuel (h.nodup here) enough ?_
    have whole := (h.chain here).tail
    exact whole.imp fun _ _ near => near.1
  have head : (turned m xs).next (.head l) = some (.elem first) := by simp [turned, fromHead.1]
  have tail : (turned m xs).prev (.tail l) = some (.elem last) := by simp [turned, toTail.2]
  obtain ⟨outer, made⟩ : ∃ outer, outer = swapLinks (turned m xs) (.tail l) (.head l) := ⟨_, rfl⟩
  have outerHead : outer.next (.head l) = some (.elem last) := by
    simp [made, swapLinks, tail]
  have outerTail : outer.prev (.tail l) = some (.elem first) := by
    simp [made, swapLinks, head]
  have inner : ∀ a ∈ xs, outer.prev (.elem a) = m.next (.elem a) ∧
      outer.next (.elem a) = m.prev (.elem a) := by
    intro a inside
    simp [made, swapLinks, turned, inside]
  refine ⟨swapLinks outer (.elem last) (.elem first), ?_, fun x inX y inY near => ?_, ?_, ?_,
    fun x outside => ?_⟩
  · rw [listReverse, listEmpty_iff h here, listBegin_startCell h here]
    have notEmpty : decide (xs = []) = false := by simp [ahead]
    rw [notEmpty]
    show (reverseLoop fuel m l (startCell l xs) >>= _) = _
    rw [loop]
    show (load ((swapLinks (turned m xs) (.tail l) (.head l)).next (.head l)) >>= _) = _
    rw [← made, outerHead]
    rw [outerTail]
    rfl
  · have atFirst := (inner first firstIn).2.trans fromHead.2
    have atLast := (inner last lastIn).1.trans toTail.1
    rcases mem_cells.mp inY with rfl | ⟨b, inB, rfl⟩ | rfl
    · exact absurd (near.2.symm.trans (h.front here)) nofun
    · rcases mem_cells.mp inX with rfl | ⟨a, inA, rfl⟩ | rfl
      · cases near.1.symm.trans fromHead.1
        exact ⟨by simp [swapLinks, mirror, atLast], by simpa [swapLinks, mirror] using outerTail⟩
      · -- an inner pair: neither is at an end
        have notLast : a ≠ last := by
          rintro rfl
          cases near.1.symm.trans toTail.1
        have notFirst : b ≠ first := by
          rintro rfl
          cases near.2.symm.trans fromHead.2
        constructor
        · simpa [swapLinks, mirror, notFirst] using (inner b inB).2.trans near.2
        · simpa [swapLinks, mirror, notLast] using (inner a inA).1.trans near.1
      · exact absurd (near.1.symm.trans (h.back here)) nofun
    · cases near.2.symm.trans toTail.2
      exact ⟨by simpa [swapLinks, mirror] using outerHead, by simp [swapLinks, mirror, atFirst]⟩
  · simp [swapLinks, made, turned, h.front here]
  · simp [swapLinks, made, turned, h.back here]
  · rw [mem_cells, not_or, not_or] at outside
    obtain ⟨notHead, notElem, notTail⟩ := outside
    have unturned : ∀ a ∈ xs, .elem a ≠ x := fun a inside same => notElem ⟨a, inside, same.symm⟩
    have notFirst := (unturned first firstIn).symm
    have notLast := (unturned last lastIn).symm
    simp +contextual [swapLinks, made, turned, unturned, notFirst, notLast, notHead, notTail]

theorem listReverse_represents (h : Represents m lists) (here : lists l = some xs)
    (enough : xs.length < fuel) : ∃ after, listReverse fuel m l = .ok after ∧
      Represents after (update lists l (some xs.reverse)) := by
  rcases eq_nil_or_concat xs with empty | ⟨most, last, stops⟩
  · refine ⟨m, ?_, ?_⟩
    · rw [listReverse, listEmpty_iff h here, empty]
      rfl
    · rw [empty] at here ⊢
      rwa [reverse_nil, ← here, update_eq_self]
  · rw [concat_eq_append] at stops
    obtain ⟨first, rest, starts⟩ := exists_cons_of_ne_nil (l := xs) (by simp [stops])
    have atStart : xs.head? = some first := by rw [starts]; rfl
    have atEnd : xs.getLast? = some last := by rw [stops, List.getLast?_concat]
    obtain ⟨after, reverses, links, front, back, elsewhere⟩ :=
      listReverse_mirrors h here enough atStart atEnd
    refine ⟨after, reverses, h.replace ?_ front back (nodup_reverse.mpr (h.nodup here)) ?_ ?_⟩
    · have flipped : cells l xs.reverse = ((cells l xs).map (mirror l)).reverse := by
        simp [cells, mirror, comp_def]
      rw [flipped, isChain_reverse, isChain_map]
      exact CellHeap.chain_imp (h.chain here) fun x inFront y inTail =>
        links x (dropLast_subset _ inFront) y (mem_of_mem_tail inTail)
    · intro l' ys a other there member inOther
      exact other (h.apart there here inOther (mem_reverse.mp member))
    · intro l' ys x other there inside
      exact elsewhere x fun member => other (h.cells_apart there here inside member)

/-! ## `list_unique` -/

/-- What `list_unique` keeps of `elem :: rest` and what it takes out. -/
def uniqueFrom (less : α → α → Bool) (elem : α) : List α → List α × List α
  | [] => ([elem], [])
  | next :: rest =>
    if less elem next || less next elem then
      (elem :: (uniqueFrom less next rest).1, (uniqueFrom less next rest).2)
    else ((uniqueFrom less elem rest).1, next :: (uniqueFrom less elem rest).2)

/-- The sequences after the elements `dropped` went to the list of duplicates, if there is one. -/
def appendTo (lists : ι → Option (List α)) (duplicates : Option ι) (dropped : List α) :
    ι → Option (List α) :=
  match duplicates with
  | none => lists
  | some d => Function.update lists d ((lists d).map (· ++ dropped))

/-- Where duplicates may go: nowhere, or to another initialised list. -/
def Receives (lists : ι → Option (List α)) (l : ι) (duplicates : Option ι) : Prop :=
  ∀ d ∈ duplicates, d ≠ l ∧ (lists d).isSome

omit [DecidableEq α] in
theorem appendTo_nil (duplicates : Option ι) : appendTo lists duplicates [] = lists := by
  cases duplicates with
  | none => rfl
  | some d =>
    rw [appendTo]
    simp

/-- One element leaves the list and enters the list of duplicates. -/
theorem takeDuplicate_represents {duplicates : Option ι} (h : Represents m lists)
    (here : lists l = some (front ++ a :: back)) (receives : Receives lists l duplicates) :
    ∃ after, takeDuplicate m duplicates (.elem a) = .ok after ∧
      Represents after
        (appendTo (update lists l (some (front ++ back))) duplicates [a]) := by
  obtain ⟨removed, removes, represented⟩ := listRemove_represents h here
  rw [takeDuplicate, removes]
  cases duplicates with
  | none => exact ⟨removed, rfl, represented⟩
  | some d =>
    obtain ⟨other, initialised⟩ := receives d rfl
    obtain ⟨ys, holds⟩ := Option.isSome_iff_exists.mp initialised
    have holds' : update lists l (some (front ++ back)) d = some ys := by
      rw [update_of_ne other, holds]
    have nodup := h.nodup here
    obtain ⟨after, pushes, pushed⟩ := listPushBack_represents (a := a) represented holds' (by
      intro l' xs there member
      by_cases same : l' = l
      · rw [same, update_self, Option.some.injEq] at there
        rw [← there] at member
        exact (nodup_middle.mp nodup |> nodup_cons.mp).1 member
      · rw [update_of_ne same] at there
        exact same (h.apart there here member (by simp)))
    refine ⟨after, pushes, ?_⟩
    rw [appendTo, holds']
    exact pushed

omit [DecidableEq α] in
/-- Steps on the list and on the list of duplicates do not interfere. -/
theorem appendTo_drop {duplicates : Option ι} {old kept dropped : List α}
    (receives : Receives lists l duplicates) :
    update (appendTo (appendTo (update lists l (some old)) duplicates [a])
        duplicates dropped) l (some kept) =
      update (appendTo lists duplicates (a :: dropped)) l (some kept) := by
  cases duplicates with
  | none => simp [appendTo]
  | some d =>
    obtain ⟨other, initialised⟩ := receives d rfl
    obtain ⟨ys, holds⟩ := Option.isSome_iff_exists.mp initialised
    simp only [appendTo, update_self, update_idem, update_of_ne other,
      holds, Option.map_some, append_assoc, singleton_append]
    rw [update_comm other, update_idem, update_comm other]

omit [DecidableEq α] in
theorem appendTo_receives {duplicates : Option ι} {dropped : List α} {kept : List α}
    (receives : Receives lists l duplicates) :
    Receives (appendTo (update lists l (some kept)) duplicates dropped) l duplicates := by
  intro d given
  obtain ⟨other, initialised⟩ := receives d given
  refine ⟨other, ?_⟩
  rw [Option.mem_def] at given
  rw [given, appendTo]
  simpa [other] using initialised

omit [DecidableEq α] in
theorem appendTo_other {duplicates : Option ι} {dropped kept : List α}
    (receives : Receives lists l duplicates) :
    appendTo (update lists l (some kept)) duplicates dropped l = some kept := by
  cases duplicates with
  | none => simp [appendTo]
  | some d => simp [appendTo, (receives d rfl).1.symm]

omit [DecidableEq ι] [DecidableEq α] in
theorem callDiffer_elem (less : α → α → Bool) (a b : α) :
    callDiffer less (.elem a : Cell ι α) (.elem b) = .ok (less a b || less b a) := by
  show (if less a b then _ else _) = _
  cases less a b <;> rfl

/-- One round of the loop: `next` is kept or taken out. -/
theorem uniqueLoop_next (less : α → α → Bool) {duplicates : Option ι} {elem next : α}
    {rest : List α} (h : Represents m lists)
    (here : lists l = some (front ++ elem :: next :: rest)) :
    uniqueLoop less (fuel + 1) m l duplicates (.elem elem) =
      if less elem next || less next elem then uniqueLoop less fuel m l duplicates (.elem next)
      else takeDuplicate m duplicates (.elem next) >>= fun m =>
        uniqueLoop less fuel m l duplicates (.elem elem) := by
  have inside : startCell l (next :: rest) ≠ listEnd l := by simp [startCell, listEnd]
  rw [uniqueLoop, listNext_elem h here, ok_bind, if_neg inside, startCell, callDiffer_elem, ok_bind]

theorem uniqueLoop_represents (less : α → α → Bool) {duplicates : Option ι} {elem : α}
    {rest : List α} (h : Represents m lists) (here : lists l = some (front ++ elem :: rest))
    (receives : Receives lists l duplicates) (enough : rest.length < fuel) :
    ∃ after, uniqueLoop less fuel m l duplicates (.elem elem) = .ok after ∧
      Represents after (update (appendTo lists duplicates (uniqueFrom less elem rest).2) l
        (some (front ++ (uniqueFrom less elem rest).1))) := by
  induction rest generalizing fuel m lists front elem with
  | nil =>
    cases fuel with
    | zero => cases enough
    | succ fuel =>
      refine ⟨m, ?_, ?_⟩
      · rw [uniqueLoop, listNext_elem h here]
        exact if_pos rfl
      · rw [uniqueFrom, appendTo_nil, ← here, update_eq_self]
        exact h
  | cons next rest ih =>
    cases fuel with
    | zero => cases enough
    | succ fuel =>
      have enough' : rest.length < fuel := Nat.lt_of_succ_lt_succ enough
      have moved : lists l = some ((front ++ [elem]) ++ next :: rest) := by
        rw [here, append_assoc]
        rfl
      rw [uniqueLoop_next less h here, uniqueFrom]
      by_cases differs : (less elem next || less next elem) = true
      · rw [if_pos differs, if_pos differs]
        obtain ⟨after, loops, represented⟩ := ih h moved receives enough'
        rw [append_assoc, singleton_append] at represented
        exact ⟨after, loops, represented⟩
      · rw [if_neg differs, if_neg differs]
        obtain ⟨dropped, drops, lost⟩ := takeDuplicate_represents h moved receives
        rw [append_assoc, singleton_append] at lost
        obtain ⟨after, loops, represented⟩ := ih lost (appendTo_other receives)
          (appendTo_receives receives) enough'
        rw [appendTo_drop receives] at represented
        rw [drops]
        exact ⟨after, loops, represented⟩

theorem listUnique_represents (less : α → α → Bool) {duplicates : Option ι} {elem : α}
    {rest : List α} (h : Represents m lists) (here : lists l = some (elem :: rest))
    (receives : Receives lists l duplicates) (enough : rest.length < fuel) :
    ∃ after, listUnique less fuel m l duplicates = .ok after ∧
      Represents after (update (appendTo lists duplicates (uniqueFrom less elem rest).2) l
        (some (uniqueFrom less elem rest).1)) := by
  have cut : lists l = some ([] ++ elem :: rest) := here
  obtain ⟨after, loops, represented⟩ := uniqueLoop_represents less h cut receives enough
  refine ⟨after, ?_, represented⟩
  rw [listUnique, listEmpty_iff h here, listBegin_startCell h here]
  exact loops

theorem listUnique_empty (less : α → α → Bool) {duplicates : Option ι} (h : Represents m lists)
    (here : lists l = some []) : listUnique less fuel m l duplicates = .ok m := by
  rw [listUnique, listEmpty_iff h here]
  rfl

end
end Calendarizador.Source.ListHeap
