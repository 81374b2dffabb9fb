import Mathlib.Data.List.Nodup
import Mathlib.Data.List.Range
import Mathlib.Data.Nat.Basic

/-!
# Tables of slots

A table has `n` slots, each empty or with a key and its value. If no key is in two slots the
table is a finite map: filling an empty slot with a new key updates the map at the key,
emptying a slot removes its key, and the keys in the order of the slots have no repetition.
-/
namespace Calendarizador.Foundation
open Function List
namespace SlotTable

variable {κ β : Type} {n k : Nat} {slot slot' : Nat → Option (κ × β)} {key : κ} {value : β}

/-- No key is in two slots. -/
def Distinct (n : Nat) (slot : Nat → Option (κ × β)) : Prop :=
  ∀ j < n, ∀ k < n, ∀ x y, slot j = some x → slot k = some y → x.1 = y.1 → j = k

/-- The value of the first slot with the key. -/
def toMap [DecidableEq κ] (n : Nat) (slot : Nat → Option (κ × β)) (key : κ) : Option β :=
  (List.range n).findSome? fun k =>
    (slot k).bind fun x => if x.1 = key then some x.2 else none

/-- The number of slots that are not empty. -/
def used (n : Nat) (slot : Nat → Option (κ × β)) : Nat :=
  (List.range n).countP fun k => (slot k).isSome

/-- The keys from slot `k` on, in the order of the slots. -/
def keysFrom (n : Nat) (slot : Nat → Option (κ × β)) (k : Nat) : List κ :=
  (List.range' k (n - k)).filterMap fun j => (slot j).map Prod.fst

theorem Distinct.congr (distinct : Distinct n slot) (same : ∀ k < n, slot' k = slot k) :
    Distinct n slot' := by
  intro j below k below' x y first second
  rw [same j below] at first
  rw [same k below'] at second
  exact distinct j below k below' x y first second

section
variable [DecidableEq κ]

theorem toMap_eq_none : toMap n slot key = none ↔ ∀ k < n, ∀ v, slot k ≠ some (key, v) := by
  unfold toMap
  rw [List.findSome?_eq_none_iff]
  refine ⟨fun none_ k below v filled => ?_, fun none_ k member => ?_⟩
  · have found := none_ k (mem_range.mpr below)
    rw [filled, Option.bind_some, if_pos rfl] at found
    cases found
  · cases filled : slot k with
    | none => rfl
    | some x =>
      rw [Option.bind_some]
      refine if_neg fun same => ?_
      exact none_ k (mem_range.mp member) x.2 (filled.trans (by rw [← same]))

theorem toMap_eq_some (distinct : Distinct n slot) :
    toMap n slot key = some value ↔ ∃ k < n, slot k = some (key, value) := by
  constructor
  · intro found
    obtain ⟨k, member, here⟩ := exists_of_findSome?_eq_some found
    refine ⟨k, mem_range.mp member, ?_⟩
    obtain ⟨x, filled, inside⟩ := Option.bind_eq_some_iff.mp here
    split at inside
    · next same =>
      cases inside
      rw [filled, ← same]
    · cases inside
  · rintro ⟨k, below, filled⟩
    cases found : toMap n slot key with
    | none => exact absurd filled (toMap_eq_none.mp found k below value)
    | some other =>
      obtain ⟨j, member, here⟩ := exists_of_findSome?_eq_some found
      obtain ⟨x, filled', inside⟩ := Option.bind_eq_some_iff.mp here
      split at inside
      · next same =>
        obtain rfl :=
          distinct j (mem_range.mp member) k below x (key, value) filled' filled same
        cases filled'.symm.trans filled
        exact inside.symm
      · cases inside

theorem toMap_congr (distinct : Distinct n slot) (same : ∀ k < n, slot' k = slot k) :
    toMap n slot' = toMap n slot := by
  funext key
  ext value
  rw [toMap_eq_some (distinct.congr same), toMap_eq_some distinct]
  refine exists_congr fun k => and_congr_right fun below => ?_
  rw [same k below]

/-- An empty slot is filled with a key that the table does not have. -/
theorem Distinct.fill (distinct : Distinct n slot) (absent : toMap n slot key = none) :
    Distinct n (update slot k (some (key, value))) := by
  have missing := toMap_eq_none.mp absent
  intro i below j below' x y first second same
  rw [update_apply] at first second
  split at first <;> split at second
  · next here here' => exact here.trans here'.symm
  · cases first
    change key = y.1 at same
    exact absurd (second.trans (by rw [same])) (missing j below' y.2)
  · cases second
    change x.1 = key at same
    exact absurd (first.trans (by rw [← same])) (missing i below x.2)
  · exact distinct i below j below' x y first second same

theorem toMap_fill (distinct : Distinct n slot) (below : k < n) (free : slot k = none)
    (absent : toMap n slot key = none) : toMap n (update slot k (some (key, value))) =
      update (toMap n slot) key (some value) := by
  have missing := toMap_eq_none.mp absent
  funext other
  ext v
  rw [toMap_eq_some (distinct.fill absent), update_apply]
  constructor
  · rintro ⟨j, inside, filled⟩
    rw [update_apply] at filled
    split at filled
    · cases filled
      rw [if_pos rfl]
    · rw [if_neg, toMap_eq_some distinct]
      · exact ⟨j, inside, filled⟩
      · rintro rfl
        exact missing j inside v filled
  · intro found
    split at found
    · next same =>
      cases found
      exact ⟨k, below, by rw [update_self, same]⟩
    · obtain ⟨j, inside, filled⟩ := (toMap_eq_some distinct).mp found
      refine ⟨j, inside, ?_⟩
      rw [update_of_ne, filled]
      rintro rfl
      rw [free] at filled
      cases filled

omit [DecidableEq κ] in
theorem Distinct.clear (distinct : Distinct n slot) : Distinct n (update slot k none) := by
  intro i below j below' x y first second
  rw [update_apply] at first second
  split at first
  · cases first
  · split at second
    · cases second
    · exact distinct i below j below' x y first second

theorem toMap_clear (distinct : Distinct n slot) (below : k < n)
    (filled : slot k = some (key, value)) :
    toMap n (update slot k none) = update (toMap n slot) key none := by
  funext other
  ext v
  rw [toMap_eq_some distinct.clear, update_apply]
  constructor
  · rintro ⟨j, inside, filled'⟩
    rw [update_apply] at filled'
    split at filled'
    · cases filled'
    · next different =>
      rw [if_neg, toMap_eq_some distinct]
      · exact ⟨j, inside, filled'⟩
      · rintro rfl
        exact different (distinct j inside k below _ _ filled' filled rfl)
  · intro found
    split at found
    · cases found
    · next different =>
      obtain ⟨j, inside, filled'⟩ := (toMap_eq_some distinct).mp found
      refine ⟨j, inside, ?_⟩
      rw [update_of_ne, filled']
      rintro rfl
      cases filled.symm.trans filled'
      exact different rfl

end

theorem keysFrom_succ (below : k < n) :
    keysFrom n slot k = ((slot k).map Prod.fst).toList ++ keysFrom n slot (k + 1) := by
  unfold keysFrom
  obtain ⟨more, rest⟩ : ∃ more, n - k = more + 1 := ⟨n - k - 1, by omega⟩
  have fewer : n - (k + 1) = more := by omega
  rw [rest, fewer, List.range'_succ, filterMap_cons]
  cases (slot k).map Prod.fst with
  | none => rfl
  | some key => rfl

/-- The keys from a slot on, if the next slot that is filled is slot `k + m`. -/
theorem keysFrom_filled {m : Nat} {x : κ × β} :
    ∀ {k : Nat}, k + m < n → (∀ i, k ≤ i → i < k + m → slot i = none) → slot (k + m) = some x →
      keysFrom n slot k = x.1 :: keysFrom n slot (k + m + 1) := by
  induction m with
  | zero =>
    intro k below _ filled
    rw [Nat.add_zero] at filled
    rw [keysFrom_succ (by omega), filled]
    rfl
  | succ m ih =>
    intro k below empty filled
    have next : k + (m + 1) = k + 1 + m := by omega
    rw [next] at filled ⊢
    rw [keysFrom_succ (by omega), empty k (le_refl k) (by omega),
      ih (by omega) (fun i low high => empty i (by omega) (by omega)) filled]
    rfl

theorem keysFrom_empty (empty : ∀ i, k ≤ i → i < n → slot i = none) : keysFrom n slot k = [] := by
  unfold keysFrom
  rw [filterMap_eq_nil_iff]
  intro i member
  rw [mem_range'_1] at member
  rw [empty i member.1 (by omega)]
  rfl

end SlotTable
end Calendarizador.Foundation
