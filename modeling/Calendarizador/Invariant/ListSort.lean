import Calendarizador.Foundation.NaturalMerge
import Calendarizador.Invariant.ListHeap

/-!
# `list_sort` on the heap

The run boundaries `a0`, `a1b0` and `b1` of the source are cuts of the sequence, and
splicing moves them: each loop is related to the function of the natural merge sort that it
computes. The assertions hold because runs and the final sequence are ordered.
-/
namespace Calendarizador.Source.ListHeap
open Foundation Function List

section
variable {ι α : Type} [DecidableEq ι] [DecidableEq α] {m : CellHeap ι α}
  {lists : ι → Option (List α)} {l : ι} {front back : List α} {less : α → α → Bool}
variable {fuel : Nat}

omit [DecidableEq ι] [DecidableEq α] in
theorem elem_ne_startCell {b : α} (fresh : b ∉ back) : (.elem b : Cell ι α) ≠ startCell l back := by
  cases back with
  | nil => simp [startCell]
  | cons c rest =>
    intro same
    exact fresh (by simpa [startCell] using Or.inl (Cell.elem.inj same))

omit [DecidableEq ι] [DecidableEq α] in
theorem callLess_elem (less : α → α → Bool) (a b : α) :
    callLess less (.elem a : Cell ι α) (.elem b) = .ok (less a b) := rfl

/-- The loop of `is_sorted` accepts a range in which no element falls. -/
theorem sortedLoop_true {a : α} {range : List α} (h : Represents m lists)
    (here : lists l = some (front ++ a :: (range ++ back)))
    (rising : (a :: range).IsChain fun x y => less y x = false) (enough : range.length < fuel) :
    sortedLoop less fuel m (.elem a) (startCell l back) = .ok true := by
  induction range generalizing fuel front a with
  | nil =>
    cases fuel with
    | zero => cases enough
    | succ fuel => rw [sortedLoop, listNext_elem h here, ok_bind, nil_append, if_pos rfl]
  | cons b rest ih =>
    cases fuel with
    | zero => cases enough
    | succ fuel =>
      obtain ⟨near, far⟩ := isChain_cons_cons.mp rising
      have moved : lists l = some ((front ++ [a]) ++ b :: (rest ++ back)) := by
        rw [here]
        simp
      have other : startCell l (b :: rest ++ back) ≠ startCell l back := by
        have nodup := h.nodup moved
        refine elem_ne_startCell fun later => ?_
        rw [nodup_middle, nodup_cons] at nodup
        exact nodup.1 (by simp [later])
      have before : listPrev m (startCell l (b :: rest ++ back)) = .ok (.elem a) :=
        listPrev_elem h here
      rw [sortedLoop, listNext_elem h here, ok_bind, if_neg other, before, ok_bind]
      show (if less b a = true then _ else sortedLoop less fuel m (.elem b) (startCell l back)) = _
      rw [near]
      exact ih moved far (Nat.lt_of_succ_lt_succ enough)

theorem isSorted_true {range : List α} (h : Represents m lists)
    (here : lists l = some (front ++ range ++ back)) (ordered : Ordered less range)
    (enough : range.length < fuel) :
    isSorted less fuel m (startCell l (range ++ back)) (startCell l back) = .ok true := by
  unfold isSorted
  cases range with
  | nil => exact if_pos rfl
  | cons a rest =>
    split
    · rfl
    · have cut : lists l = some (front ++ a :: (rest ++ back)) := by
        rw [here, append_assoc]
        rfl
      exact sortedLoop_true h cut ordered.isChain (Nat.lt_of_succ_lt enough)

/-- `find_end_of_run` up to the end of the list. -/
theorem runLoop_takeRun {a : α} {rest : List α} (h : Represents m lists)
    (here : lists l = some (front ++ a :: rest)) (enough : rest.length < fuel) :
    runLoop less fuel m (.elem a) (listEnd l) = .ok (startCell l (takeRun less a rest).2) := by
  induction rest generalizing fuel front a with
  | nil =>
    cases fuel with
    | zero => cases enough
    | succ fuel =>
      have last : startCell l ([] : List α) = listEnd l := rfl
      rw [runLoop, listNext_elem h here, ok_bind, if_pos last]
      rfl
  | cons b rest ih =>
    cases fuel with
    | zero => cases enough
    | succ fuel =>
      have moved : lists l = some ((front ++ [a]) ++ b :: rest) := by
        rw [here, append_assoc]
        rfl
      have inside : startCell l (b :: rest) ≠ listEnd l := by simp [startCell, listEnd]
      have before : listPrev m (startCell l (b :: rest)) = .ok (.elem a) := listPrev_elem h here
      rw [runLoop, listNext_elem h here, ok_bind, if_neg inside, before, ok_bind, takeRun,
        startCell, callLess_elem, ok_bind]
      by_cases falls : less b a = true
      · rw [if_pos falls, if_pos falls]
        rfl
      · rw [if_neg falls, if_neg falls]
        exact ih moved (Nat.lt_of_succ_lt_succ enough)

theorem findEndOfRun_takeRun {a : α} {rest : List α} (h : Represents m lists)
    (here : lists l = some (front ++ a :: rest)) (enough : rest.length < fuel) :
    findEndOfRun less fuel m (.elem a) (listEnd l) = .ok (startCell l (takeRun less a rest).2) := by
  have inside : decide ((.elem a : Cell ι α) ≠ listEnd l) = true := by simp [listEnd]
  rw [findEndOfRun, inside, listAssert_true, ok_bind]
  exact runLoop_takeRun h here enough

omit [DecidableEq α] in
theorem mergeRuns_nil (left : List α) : mergeRuns less left [] = left := by
  rw [mergeRuns_eq_merge]
  simp

/-- The loop of `inplace_merge`: what is merged is behind the front, and the two cursors
are the cuts in front of what is left of the runs. -/
theorem mergeLoop_merges {left right : List α} (h : Represents m lists)
    (here : lists l = some (front ++ (left ++ (right ++ back))))
    (enough : left.length + right.length < fuel) :
    ∃ after, mergeLoop less fuel m (startCell l (left ++ (right ++ back)))
        (startCell l (right ++ back)) (startCell l back) = .ok after ∧
      Represents after (update lists l
        (some (front ++ (mergeRuns less left right ++ back)))) := by
  induction fuel generalizing m lists front left right with
  | zero => cases enough
  | succ fuel ih =>
    have same : ∀ {merged}, merged = left ++ (right ++ back) →
        Represents m (update lists l (some (front ++ merged))) := by
      rintro merged rfl
      rwa [← here, update_eq_self]
    cases left with
    | nil =>
      refine ⟨m, ?_, same rfl⟩
      rw [mergeLoop]
      exact if_pos (.inl rfl)
    | cons a left =>
      cases right with
      | nil =>
        refine ⟨m, ?_, same ?_⟩
        · rw [mergeLoop]
          exact if_pos (.inr rfl)
        · rw [mergeRuns_nil]
          rfl
      | cons b right =>
        have nodup := h.nodup here
        have behind : lists l = some ((front ++ (a :: left)) ++ b :: (right ++ back)) := by
          rw [here]
          simp
        have distinct : ¬ (startCell l (a :: left ++ (b :: right ++ back)) =
            startCell l (b :: right ++ back) ∨
            startCell l (b :: right ++ back) = startCell l back) := by
          rintro (first | second)
          · have equal : a = b := Cell.elem.inj first
            rw [nodup_append, cons_append, nodup_cons] at nodup
            exact nodup.2.1.1 (by simp [equal])
          · have fresh : b ∉ back := by
              have nodup' := h.nodup behind
              rw [nodup_middle, nodup_cons] at nodup'
              exact fun later => nodup'.1 (by simp [later])
            exact elem_ne_startCell fresh second
        rw [mergeLoop, if_neg distinct]
        show ∃ after, (do
            if less b a = true then do
              let a1b0 ← listNext m (.elem b)
              let moved ← listPrev m a1b0
              let m ← listSplice m (.elem a) moved a1b0
              mergeLoop less fuel m (.elem a) a1b0 (startCell l back)
            else do
              let a0 ← listNext m (.elem a)
              mergeLoop less fuel m a0 (.elem b) (startCell l back)) = .ok after ∧ _
        rw [mergeRuns_cons_cons]
        by_cases first : less b a = true
        · -- `b` moves in front of `a`
          rw [if_pos first, if_pos first, listNext_elem h behind, ok_bind, listPrev_elem h behind,
            ok_bind]
          have range : lists l = some ((front ++ (a :: left)) ++ [b] ++ (right ++ back)) := by
            rw [behind]
            simp
          have rest : update lists l (some (front ++ (a :: left) ++ (right ++ back))) l =
              some (front ++ ((a :: left) ++ (right ++ back))) := by
            rw [update_self, append_assoc]
          obtain ⟨spliced, splices, represented⟩ :=
            listSplice_represents h range (cons_ne_nil b []) rest
          rw [update_idem] at represented
          have cut : update lists l
              (some (front ++ [b] ++ (a :: left ++ (right ++ back)))) l =
              some ((front ++ [b]) ++ ((a :: left) ++ (right ++ back))) := update_self ..
          obtain ⟨after, merges, merged⟩ := ih represented cut
            (by simp only [length_cons] at enough ⊢; omega)
          refine ⟨after, ?_, ?_⟩
          · have spliced' : listSplice m (.elem a) (.elem b) (startCell l (right ++ back)) =
                .ok spliced := splices
            rw [spliced', ok_bind]
            exact merges
          · rw [update_idem] at merged
            simpa using merged
        · rw [if_neg first, if_neg first]
          have ahead : lists l = some (front ++ a :: (left ++ (b :: right ++ back))) := here
          rw [listNext_elem h ahead, ok_bind]
          have moved : lists l = some ((front ++ [a]) ++ (left ++ (b :: right ++ back))) := by
            rw [here]
            simp
          obtain ⟨after, merges, merged⟩ := ih h moved
            (by simp only [length_cons] at enough ⊢; omega)
          refine ⟨after, merges, ?_⟩
          simpa using merged

theorem inplaceMerge_merges {left right : List α} (h : Represents m lists)
    (here : lists l = some (front ++ (left ++ (right ++ back)))) (orderedLeft : Ordered less left)
    (orderedRight : Ordered less right) (enough : left.length + right.length < fuel) :
    ∃ after, inplaceMerge less fuel m (startCell l (left ++ (right ++ back)))
        (startCell l (right ++ back)) (startCell l back) = .ok after ∧
      Represents after (update lists l
        (some (front ++ (mergeRuns less left right ++ back)))) := by
  have first : lists l = some (front ++ left ++ (right ++ back)) := by
    rw [here]
    simp
  have second : lists l = some ((front ++ left) ++ right ++ back) := by
    rw [here]
    simp
  rw [inplaceMerge, isSorted_true h first orderedLeft (by omega), ok_bind, listAssert_true, ok_bind,
    isSorted_true h second orderedRight (by omega), ok_bind, listAssert_true, ok_bind]
  exact mergeLoop_merges h here enough

/-- One pass over what follows the front. -/
theorem passLoop_mergePass (weak : StrictWeak less) {inner : Nat} (bound : Nat) {xs : List α}
    (h : Represents m lists) (here : lists l = some (front ++ xs)) (enough : xs.length < inner)
    (bounded : xs.length ≤ bound) (rounds : bound < fuel) :
    ∃ after, passLoop less inner fuel m l (startCell l xs) =
        .ok (after, (mergePass less bound xs).2) ∧
      Represents after (update lists l
        (some (front ++ (mergePass less bound xs).1))) := by
  have same : Represents m (update lists l (some (front ++ xs))) := by
    rwa [← here, update_eq_self]
  have last : startCell l ([] : List α) = listEnd l := rfl
  have inside : ∀ {b : α} {more : List α}, startCell l (b :: more) ≠ listEnd l := by
    simp [startCell, listEnd]
  fun_induction mergePass less bound xs generalizing m lists front fuel with
  | case1 =>
    obtain ⟨fuel, rfl⟩ := Nat.exists_eq_succ_of_ne_zero (Nat.ne_zero_of_lt rounds)
    exact ⟨m, by rw [passLoop, if_pos last], same⟩
  | case2 xs some_ => exact absurd (eq_nil_of_length_eq_zero (Nat.le_zero.mp bounded)) some_
  | case3 bound a rest ends =>
    obtain ⟨fuel, rfl⟩ := Nat.exists_eq_succ_of_ne_zero (Nat.ne_zero_of_lt rounds)
    have run := takeRun_append less a rest
    rw [ends, append_nil] at run
    refine ⟨m, ?_, ?_⟩
    · rw [passLoop, if_neg inside, startCell,
        findEndOfRun_takeRun h here (by simp at enough; omega), ok_bind, ends, if_pos last]
    · rw [run]
      exact same
  | case4 bound a rest b more next ih =>
    obtain ⟨fuel, rfl⟩ := Nat.exists_eq_succ_of_ne_zero (Nat.ne_zero_of_lt rounds)
    have run := takeRun_append less a rest
    rw [next] at run
    have second := takeRun_append less b more
    have whole : lists l = some (front ++ ((takeRun less a rest).1 ++
        ((takeRun less b more).1 ++ (takeRun less b more).2))) := by
      rw [here, second, run]
    have lengths := congrArg List.length run
    have lengths' := congrArg List.length second
    simp only [length_append, length_cons] at lengths lengths' enough bounded
    have positive := length_pos_iff.mpr (takeRun_ne_nil less a rest)
    have positive' := length_pos_iff.mpr (takeRun_ne_nil less b more)
    have cut : lists l = some ((front ++ (takeRun less a rest).1) ++ b :: more) := by
      rw [here, append_assoc, run]
    have enough' : (takeRun less a rest).1.length + (takeRun less b more).1.length < inner := by
      omega
    obtain ⟨merged, merges, represented⟩ := inplaceMerge_merges h whole
      (takeRun_ordered weak a rest) (takeRun_ordered weak b more) enough'
    rw [second, run] at merges
    have cut' : update lists l (some (front ++ (mergeRuns less (takeRun less a rest).1
        (takeRun less b more).1 ++ (takeRun less b more).2))) l =
        some ((front ++ mergeRuns less (takeRun less a rest).1 (takeRun less b more).1) ++
          (takeRun less b more).2) := by
      rw [update_self, append_assoc]
    obtain ⟨after, passes, done⟩ := ih represented cut' (by omega) (by omega)
      (Nat.lt_of_succ_lt_succ rounds) (by rwa [← cut', update_eq_self])
    rw [update_idem, append_assoc] at done
    have merges' : inplaceMerge less inner m (.elem a) (.elem b)
        (startCell l (takeRun less b more).2) = .ok merged := merges
    have finds : findEndOfRun less inner m (.elem b) (listEnd l) =
        .ok (startCell l (takeRun less b more).2) := findEndOfRun_takeRun h cut (by omega)
    refine ⟨after, ?_, done⟩
    rw [passLoop, if_neg inside, startCell, findEndOfRun_takeRun h here (by omega), ok_bind, next,
      if_neg inside, startCell, finds, ok_bind, merges', ok_bind, passes, ok_bind]

/-- The passes of `list_sort`; each halves the number of runs. -/
theorem sortLoop_sortPasses (weak : StrictWeak less) {inner : Nat} (passes n : Nat) {xs : List α}
    (h : Represents m lists) (here : lists l = some xs) (enough : xs.length < inner)
    (blocks : Blocks less n xs) (bounded : n ≤ passes) (rounds : passes < fuel) :
    ∃ after, sortLoop less inner fuel m l = .ok after ∧
      Represents after (update lists l (some (sortPasses less passes xs))) := by
  induction passes generalizing m lists xs fuel n with
  | zero =>
    obtain rfl := Nat.le_zero.mp bounded
    cases blocks
    obtain ⟨fuel, rfl⟩ := Nat.exists_eq_succ_of_ne_zero (Nat.ne_zero_of_lt rounds)
    have cut : lists l = some ([] ++ []) := here
    obtain ⟨after, pass, represented⟩ := passLoop_mergePass weak 0 h cut enough le_rfl enough
    refine ⟨after, ?_, represented⟩
    rw [sortLoop, listBegin_startCell h here, ok_bind, pass, ok_bind]
    exact if_neg (by simp [mergePass])
  | succ passes ih =>
    obtain ⟨fuel, rfl⟩ := Nat.exists_eq_succ_of_ne_zero (Nat.ne_zero_of_lt rounds)
    have cut : lists l = some ([] ++ xs) := here
    obtain ⟨merged, pass, represented⟩ := passLoop_mergePass weak xs.length h cut enough le_rfl
      enough
    obtain ⟨fewer, halved⟩ := mergePass_blocks weak xs.length n xs blocks le_rfl
    rw [sortLoop, listBegin_startCell h here, ok_bind, pass, ok_bind, sortPasses]
    by_cases many : (mergePass less xs.length xs).2 > 1
    · have shuffled : (mergePass less xs.length xs).1.Perm xs := mergePass_perm xs.length xs
      have length := shuffled.length_eq
      obtain ⟨after, loops, sorted⟩ := ih _ represented (update_self l _ lists)
        (by simpa [length] using enough) fewer (by omega) (Nat.lt_of_succ_lt_succ rounds)
      rw [update_idem] at sorted
      refine ⟨after, ?_, ?_⟩
      · exact (if_pos many).trans loops
      · rw [if_pos many]
        exact sorted
    · refine ⟨merged, ?_, ?_⟩
      · exact if_neg many
      · rw [if_neg many]
        exact represented

theorem listSortHeap_sorts (weak : StrictWeak less) {xs : List α} (h : Represents m lists)
    (here : lists l = some xs) (enough : xs.length < fuel) :
    ∃ after, listSortHeap less fuel m l = .ok after ∧
      Represents after (update lists l (some (naturalSort less xs))) := by
  obtain ⟨after, loops, sorted⟩ := sortLoop_sortPasses weak xs.length xs.length h here enough
    (Blocks.singletons xs) le_rfl enough
  have holds : update lists l (some (sortPasses less xs.length xs)) l =
      some ([] ++ naturalSort less xs ++ []) := by
    rw [update_self, nil_append, append_nil]
    rfl
  have shuffled : (naturalSort less xs).Perm xs := naturalSort_perm xs
  have enough' : (naturalSort less xs).length < fuel := by
    rw [shuffled.length_eq]
    exact enough
  have checked := isSorted_true sorted holds (naturalSort_ordered weak xs) enough'
  have first := listBegin_startCell sorted holds
  rw [nil_append] at first
  refine ⟨after, ?_, sorted⟩
  rw [listSortHeap, loops, ok_bind, first, ok_bind]
  show (isSorted less fuel after _ (startCell l []) >>= _) = _
  rw [checked]
  rfl

end
end Calendarizador.Source.ListHeap
