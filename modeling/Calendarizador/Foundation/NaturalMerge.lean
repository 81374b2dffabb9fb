import Mathlib.Data.List.Chain
import Mathlib.Data.List.Sort

/-!
# Natural merge sort

A list is cut into maximal runs in which no element is less than its predecessor,
adjacent runs are merged pairwise, and the pass is repeated until a pass outputs one
run. All functions recurse structurally (passes and run pairs on a counter bounded by
the length), so they evaluate; `naturalSort_perm`, `naturalSort_ordered` and
`naturalSort_stable` are the facts their users need.
-/
namespace Calendarizador.Foundation
open List

section
variable {α : Type*} (less : α → α → Bool)

/-- The longest run that starts with `a`, and what follows it. -/
def takeRun (a : α) : List α → List α × List α
  | [] => ([a], [])
  | b :: rest =>
    if less b a then ([a], b :: rest)
    else (a :: (takeRun b rest).1, (takeRun b rest).2)

/-- Merges two runs; an element of the right run goes first only if it is less. -/
def mergeRuns : List α → List α → List α
  | [], right => right
  | a :: left, right => mergeInto a (mergeRuns left) right
where
  /-- Moves the elements of the right run that are less than `a` in front of it. -/
  mergeInto (a : α) (continue_ : List α → List α) : List α → List α
    | [] => a :: continue_ []
    | b :: right =>
      if less b a then b :: mergeInto a continue_ right
      else a :: continue_ (b :: right)

/-- One pass over the list: the merged list and the number of runs it outputs. -/
def mergePass : Nat → List α → List α × Nat
  | _, [] => ([], 0)
  | 0, list => (list, 0)
  | bound + 1, a :: rest =>
    match (takeRun less a rest).2 with
    | [] => ((takeRun less a rest).1, 1)
    | b :: more =>
      (mergeRuns less (takeRun less a rest).1 (takeRun less b more).1 ++
        (mergePass bound (takeRun less b more).2).1,
       (mergePass bound (takeRun less b more).2).2 + 1)

/-- Passes are repeated while a pass outputs more than one run. -/
def sortPasses : Nat → List α → List α
  | 0, list => list
  | passes + 1, list =>
    if (mergePass less list.length list).2 > 1 then
      sortPasses passes (mergePass less list.length list).1
    else (mergePass less list.length list).1

def naturalSort (list : List α) : List α := sortPasses less list.length list

end

variable {α : Type*} {less : α → α → Bool}

theorem takeRun_append (less : α → α → Bool) (a : α) (list : List α) :
    (takeRun less a list).1 ++ (takeRun less a list).2 = a :: list := by
  induction list generalizing a with
  | nil => rfl
  | cons b rest ih =>
    unfold takeRun
    split
    · rfl
    · simp only [cons_append, ih]

theorem takeRun_head (less : α → α → Bool) (a : α) (list : List α) :
    (takeRun less a list).1.head? = some a := by
  cases list with
  | nil => rfl
  | cons b rest =>
    unfold takeRun
    split <;> rfl

theorem takeRun_ne_nil (less : α → α → Bool) (a : α) (list : List α) :
    (takeRun less a list).1 ≠ [] := by
  intro none
  have first := takeRun_head less a list
  rw [none] at first
  cases first

/-- The rest a run leaves is never longer than the input without its first element. -/
theorem takeRun_rest_length (less : α → α → Bool) (a : α) (list : List α) :
    (takeRun less a list).2.length ≤ list.length := by
  have whole := congrArg List.length (takeRun_append less a list)
  have first := length_pos_iff.mpr (takeRun_ne_nil less a list)
  simp only [length_append, length_cons] at whole
  omega

theorem mergeRuns_cons_nil (a : α) (left : List α) :
    mergeRuns less (a :: left) [] = a :: mergeRuns less left [] := rfl

theorem mergeRuns_cons_cons (a b : α) (left right : List α) :
    mergeRuns less (a :: left) (b :: right) =
      if less b a then b :: mergeRuns less (a :: left) right
      else a :: mergeRuns less left (b :: right) := rfl

/-- The merge of the source is the library merge with `less` read as its order. -/
theorem mergeRuns_eq_merge (left right : List α) :
    mergeRuns less left right = left.merge right (fun a b => !less b a) := by
  induction left generalizing right with
  | nil => simp [mergeRuns]
  | cons a left ih =>
    induction right with
    | nil =>
      rw [mergeRuns_cons_nil, ih]
      simp
    | cons b right ihr =>
      rw [mergeRuns_cons_cons, cons_merge_cons]
      cases less b a <;> simp [ih, ihr]

theorem mergePass_perm (bound : Nat) (list : List α) : (mergePass less bound list).1.Perm list := by
  fun_induction mergePass less bound list with
  | case1 => rfl
  | case2 => rfl
  | case3 bound a rest last =>
    have whole := takeRun_append less a rest
    rw [last, append_nil] at whole
    rw [whole]
  | case4 bound a rest b more next ih =>
    rw [← takeRun_append less a rest, next, ← takeRun_append less b more, ← append_assoc,
      mergeRuns_eq_merge]
    exact (merge_perm_append _).append ih

theorem sortPasses_perm (passes : Nat) (list : List α) :
    (sortPasses less passes list).Perm list := by
  fun_induction sortPasses less passes list with
  | case1 => rfl
  | case2 _ _ _ ih => exact ih.trans (mergePass_perm _ _)
  | case3 => exact mergePass_perm _ _

/-- Sorting only rearranges. -/
theorem naturalSort_perm (list : List α) : (naturalSort less list).Perm list :=
  sortPasses_perm _ _

/-- No element is less than an earlier one. -/
def Ordered (less : α → α → Bool) (list : List α) : Prop :=
  list.Pairwise (fun a b => less b a = false)

/-- What the comparison has to satisfy: a strict weak order. -/
structure StrictWeak (less : α → α → Bool) : Prop where
  asymm : ∀ a b, less a b = true → less b a = false
  negTrans : ∀ a b c, less b a = false → less c b = false → less c a = false

/-- A list made of at most `n` ordered blocks. -/
inductive Blocks (less : α → α → Bool) : Nat → List α → Prop
  | nil : Blocks less 0 []
  | append {n : Nat} {block rest : List α} (ordered : Ordered less block)
      (later : Blocks less n rest) : Blocks less (n + 1) (block ++ rest)

theorem Blocks.singletons (list : List α) : Blocks less list.length list := by
  induction list with
  | nil => exact .nil
  | cons a rest ih =>
    have single : Ordered less [a] := by simp [Ordered]
    exact .append single ih

theorem Blocks.drop {n : Nat} {list : List α} (h : Blocks less n list) (k : Nat) :
    Blocks less n (list.drop k) := by
  induction h generalizing k with
  | nil => simpa using Blocks.nil
  | @append n block rest ordered later ih =>
    rw [drop_append]
    exact .append (List.Pairwise.drop ordered) (ih _)

theorem Blocks.ordered {n : Nat} {list : List α} (h : Blocks less n list) (few : n ≤ 1) :
    Ordered less list := by
  cases h with
  | nil => exact .nil
  | append ordered later =>
    obtain rfl := Nat.le_zero.mp (Nat.le_of_succ_le_succ few)
    cases later
    simpa using ordered

section
variable (weak : StrictWeak less)
include weak

omit weak in
theorem takeRun_isChain (a : α) (list : List α) :
    (takeRun less a list).1.IsChain fun x y => less y x = false := by
  induction list generalizing a with
  | nil => exact .singleton a
  | cons b rest ih =>
    unfold takeRun
    split
    · exact .singleton a
    · rename_i notLess
      refine isChain_cons.mpr ⟨?_, ih b⟩
      rw [takeRun_head]
      simpa using notLess

theorem takeRun_ordered (a : α) (list : List α) : Ordered less (takeRun less a list).1 := by
  have : IsTrans α fun x y => less y x = false := ⟨weak.negTrans⟩
  exact isChain_iff_pairwise.mp (takeRun_isChain a list)

theorem mergeRuns_ordered (left right : List α) (hl : Ordered less left)
    (hr : Ordered less right) : Ordered less (mergeRuns less left right) := by
  rw [mergeRuns_eq_merge]
  have trans : ∀ a b c : α, (!less b a) = true → (!less c b) = true → (!less c a) = true := by
    intro a b c first second
    simpa using weak.negTrans a b c (by simpa using first) (by simpa using second)
  have total : ∀ a b : α, ((!less b a) || (!less a b)) = true := by
    intro a b
    cases ba : less b a
    · simp
    · simp [weak.asymm b a ba]
  have merged := pairwise_merge trans total left right (by simpa [Ordered] using hl)
    (by simpa [Ordered] using hr)
  simpa [Ordered] using merged

omit weak in
/-- A run does not stop inside an ordered block. -/
theorem takeRun_swallows (a : α) (block rest : List α) (ordered : Ordered less (a :: block)) :
    ∃ k, (takeRun less a (block ++ rest)).2 = rest.drop k := by
  induction block generalizing a with
  | nil =>
    refine ⟨(takeRun less a rest).1.length - 1, ?_⟩
    have whole := takeRun_append less a rest
    cases run : (takeRun less a rest).1 with
    | nil => exact absurd run (takeRun_ne_nil less a rest)
    | cons b more =>
      rw [run] at whole
      have tail : more ++ (takeRun less a rest).2 = rest := (List.cons.inj whole).2
      have dropped := congrArg (List.drop more.length) tail
      simpa using dropped
  | cons b block ih =>
    have notLess := (pairwise_cons.mp ordered).1 b (by simp)
    obtain ⟨k, swallowed⟩ := ih b (pairwise_cons.mp ordered).2
    refine ⟨k, ?_⟩
    simpa [takeRun, notLess] using swallowed

omit weak in
/-- A greedy run takes the first block whole, so fewer blocks remain after it. -/
theorem Blocks.takeRun_rest {n : Nat} {a : α} {list whole : List α} (h : Blocks less n whole)
    (start : whole = a :: list) : 1 ≤ n ∧ Blocks less (n - 1) (takeRun less a list).2 := by
  induction h with
  | nil => cases start
  | @append n block rest ordered later ih =>
    refine ⟨by omega, ?_⟩
    cases block with
    | nil =>
      obtain ⟨positive, fewer⟩ := ih start
      have empty := Blocks.append (List.Pairwise.nil : Ordered less []) fewer
      simpa [Nat.sub_add_cancel positive] using empty
    | cons b block =>
      have tail : block ++ rest = list := (List.cons.inj start).2
      obtain rfl : b = a := (List.cons.inj start).1
      obtain ⟨k, swallowed⟩ := takeRun_swallows b block rest ordered
      rw [← tail, swallowed]
      exact later.drop k

/-- A pass halves the number of blocks, rounding up, and outputs that many. -/
theorem mergePass_blocks (bound n : Nat) (list : List α) (h : Blocks less n list)
    (enough : list.length ≤ bound) :
    Blocks less (mergePass less bound list).2 (mergePass less bound list).1 ∧
      2 * (mergePass less bound list).2 ≤ n + 1 := by
  fun_induction mergePass less bound list generalizing n with
  | case1 => exact ⟨.nil, by simp⟩
  | case2 list some_ => exact absurd (eq_nil_of_length_eq_zero (Nat.le_zero.mp enough)) some_
  | case3 bound a rest last =>
    obtain ⟨positive, -⟩ := h.takeRun_rest rfl
    have single := Blocks.append (takeRun_ordered weak a rest) Blocks.nil
    exact ⟨by simpa using single, by dsimp only; omega⟩
  | case4 bound a rest b more next ih =>
    obtain ⟨positive, after⟩ := h.takeRun_rest rfl
    have shorter := takeRun_rest_length less a rest
    rw [next] at after shorter
    obtain ⟨two, final⟩ := after.takeRun_rest rfl
    have shortest := takeRun_rest_length less b more
    simp only [length_cons] at enough shorter
    obtain ⟨blocks, count⟩ := ih (n - 1 - 1) final (by omega)
    refine ⟨.append ?_ blocks, by dsimp only; omega⟩
    exact mergeRuns_ordered weak _ _ (takeRun_ordered weak a rest) (takeRun_ordered weak b more)

theorem sortPasses_ordered (passes n : Nat) (list : List α) (h : Blocks less n list)
    (enough : n ≤ passes) : Ordered less (sortPasses less passes list) := by
  induction passes generalizing n list with
  | zero => exact h.ordered (by omega)
  | succ passes ih =>
    obtain ⟨blocks, count⟩ := mergePass_blocks weak list.length n list h le_rfl
    unfold sortPasses
    split
    · exact ih _ _ blocks (by omega)
    · exact blocks.ordered (by omega)

/-- Enough passes are made: the result is ordered. -/
theorem naturalSort_ordered (list : List α) : Ordered less (naturalSort less list) :=
  sortPasses_ordered weak _ _ list (Blocks.singletons list) le_rfl

end

/-- Neither element is less than the other. -/
def alike (less : α → α → Bool) (c x : α) : Bool := !less c x && !less x c

/-- A rearrangement that keeps the order of elements that compare alike. -/
structure Stable (less : α → α → Bool) (old new : List α) : Prop where
  perm : new.Perm old
  alike : ∀ c, new.filter (alike less c) = old.filter (alike less c)

namespace Stable
variable {old middle new : List α}

theorem refl (less : α → α → Bool) (list : List α) : Stable less list list :=
  ⟨List.Perm.refl list, fun _ => rfl⟩

theorem trans (first : Stable less old middle) (second : Stable less middle new) :
    Stable less old new :=
  ⟨second.perm.trans first.perm, fun c => (second.alike c).trans (first.alike c)⟩

theorem append {old' new' : List α} (first : Stable less old new)
    (second : Stable less old' new') : Stable less (old ++ old') (new ++ new') where
  perm := first.perm.append second.perm
  alike c := by rw [filter_append, filter_append, first.alike, second.alike]

/-- Taking the front off on one side is removing it on the other. -/
theorem front [DecidableEq α] {first : α} {rest : List α}
    (h : Stable less old (first :: rest)) : Stable less (old.erase first) rest where
  perm := by
    have erased := h.perm.erase first
    rwa [erase_cons_head] at erased
  alike c := by
    have erased := congrArg (fun list => list.erase first) (h.alike c)
    rwa [erase_filter, erase_filter, erase_cons_head] at erased

end Stable

section
variable (weak : StrictWeak less)
include weak

/-- An element that is less than the front of a run has none like it in the run. -/
theorem filter_alike_of_less {a b c : α} {left : List α} (ordered : Ordered less (a :: left))
    (first : less b a = true) (like : alike less c b = true) :
    (a :: left).filter (alike less c) = [] := by
  apply filter_eq_nil_iff.mpr
  intro x member both
  simp only [alike, Bool.and_eq_true, Bool.not_eq_true'] at like both
  have behind : less x a = false := by
    rcases mem_cons.mp member with rfl | later
    · by_contra reflexive
      have := weak.asymm x x (by simpa using reflexive)
      simp_all
    · exact (pairwise_cons.mp ordered).1 x later
  have between : less b x = false := weak.negTrans x c b both.1 like.2
  have notLess := weak.negTrans a x b behind between
  rw [first] at notLess
  cases notLess

theorem mergeRuns_stable (left right : List α) (ordered : Ordered less left) :
    Stable less (left ++ right) (mergeRuns less left right) := by
  refine ⟨by rw [mergeRuns_eq_merge]; exact merge_perm_append _, fun c => ?_⟩
  rw [filter_append]
  induction left generalizing right with
  | nil => rfl
  | cons a left ih =>
    have tail := (pairwise_cons.mp ordered).2
    induction right with
    | nil =>
      rw [mergeRuns_cons_nil, filter_cons, ih [] tail]
      simp [filter_cons]
    | cons b right ihr =>
      rw [mergeRuns_cons_cons]
      split
      · rename_i first
        rw [filter_cons, ihr, filter_cons (x := b)]
        split
        · rename_i like
          rw [filter_alike_of_less weak ordered first like, nil_append, nil_append]
        · rfl
      · rw [filter_cons, ih (b :: right) tail, filter_cons (x := a)]
        split
        · rw [cons_append]
        · rfl

theorem mergePass_stable (bound : Nat) (list : List α) :
    Stable less list (mergePass less bound list).1 := by
  fun_induction mergePass less bound list with
  | case1 => exact Stable.refl less _
  | case2 => exact Stable.refl less _
  | case3 bound a rest last =>
    have whole := takeRun_append less a rest
    rw [last, append_nil] at whole
    rw [whole]
    exact Stable.refl less _
  | case4 bound a rest b more next ih =>
    rw [← takeRun_append less a rest, next, ← takeRun_append less b more, ← append_assoc]
    exact (mergeRuns_stable weak _ _ (takeRun_ordered weak a rest)).append ih

theorem sortPasses_stable (passes : Nat) (list : List α) :
    Stable less list (sortPasses less passes list) := by
  fun_induction sortPasses less passes list with
  | case1 => exact Stable.refl less _
  | case2 _ _ _ ih => exact (mergePass_stable weak _ _).trans ih
  | case3 => exact mergePass_stable weak _ _

/-- Elements that compare alike keep their order. -/
theorem naturalSort_stable (list : List α) : Stable less list (naturalSort less list) :=
  sortPasses_stable weak _ _

end
end Calendarizador.Foundation
