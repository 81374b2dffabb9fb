import Mathlib.Data.List.Pairwise
import Mathlib.Data.Nat.Basic
import Mathlib.Order.Basic

/-!
# Spans of consecutive numbers

A span is a number of consecutive units (pages, sectors, bytes) from a first one on.
Two spans are apart if they share no unit. A list of spans that are pairwise apart stays
so when a span that meets none of them is added, and when part of one is given back.
-/
namespace Calendarizador.Foundation
open List

structure Span where
  start : Nat
  count : Nat
  deriving DecidableEq, Repr

namespace Span
variable {s t : Span} {i : Nat}

/-- The first unit behind the span. -/
def stop (s : Span) : Nat := s.start + s.count

instance : Membership Nat Span := ⟨fun s i => s.start ≤ i ∧ i < s.stop⟩

theorem mem_iff : i ∈ s ↔ s.start ≤ i ∧ i < s.stop := Iff.rfl

instance (s : Span) (i : Nat) : Decidable (i ∈ s) := inferInstanceAs (Decidable (_ ∧ _))

instance : HasSubset Span := ⟨fun s t => ∀ i ∈ s, i ∈ t⟩

theorem not_mem_of_count (none_ : s.count = 0) (i : Nat) : i ∉ s := by
  rintro ⟨low, high⟩
  unfold stop at high
  omega

theorem subset_trans {u : Span} (first : s ⊆ t) (second : t ⊆ u) : s ⊆ u :=
  fun i member => second i (first i member)

theorem subset_of_le (low : t.start ≤ s.start) (high : s.stop ≤ t.stop) : s ⊆ t :=
  fun _ member => ⟨low.trans member.1, member.2.trans_le high⟩

/-- The bounds of a span that is not empty. -/
theorem bounds_of_subset (inside : s ⊆ t) (some_ : 0 < s.count) :
    t.start ≤ s.start ∧ s.stop ≤ t.stop := by
  have first := inside s.start ⟨le_rfl, by unfold stop; omega⟩
  have last := inside (s.stop - 1) ⟨by unfold stop; omega, by unfold stop; omega⟩
  refine ⟨first.1, ?_⟩
  have bound := last.2
  omega

/-- No unit in common. -/
def Apart (s t : Span) : Prop := ∀ i ∈ s, i ∉ t

theorem Apart.symm (h : Apart s t) : Apart t s :=
  fun i second first => h i first second

instance : Std.Symm Apart := ⟨fun _ _ => Apart.symm⟩

theorem Apart.mono {s' t' : Span} (h : Apart s t) (first : s' ⊆ s) (second : t' ⊆ t) :
    Apart s' t' := fun i one two => h i (first i one) (second i two)

theorem apart_of_le (h : s.stop ≤ t.start) : Apart s t := by
  intro i first second
  have below := first.2
  have above := second.1
  omega

/-- Some span of the list holds the unit. -/
def Covers (list : List Span) (i : Nat) : Prop := ∃ s ∈ list, i ∈ s

instance (list : List Span) (i : Nat) : Decidable (Covers list i) :=
  inferInstanceAs (Decidable (∃ s ∈ list, i ∈ s))

@[simp]
theorem covers_nil : ¬ Covers [] i := by simp [Covers]

theorem covers_cons {list : List Span} :
    Covers (s :: list) i ↔ i ∈ s ∨ Covers list i := by simp [Covers]

theorem covers_append {list more : List Span} :
    Covers (list ++ more) i ↔ Covers list i ∨ Covers more i := by
  simp [Covers, or_and_right, exists_or]

/-- What is left of `s` when `t` is given back; an empty remainder does no harm. -/
def without (s t : Span) : List Span :=
  [⟨s.start, t.start - s.start⟩, ⟨t.stop, s.stop - t.stop⟩]

theorem covers_without (low : s.start ≤ t.start) (high : t.stop ≤ s.stop) :
    Covers (s.without t) i ↔ i ∈ s ∧ i ∉ t := by
  simp only [without, covers_cons, covers_nil, or_false, mem_iff]
  simp only [stop] at high ⊢
  omega

theorem without_subset {u : Span} (low : s.start ≤ t.start) (high : t.stop ≤ s.stop)
    (member : u ∈ s.without t) : u ⊆ s :=
  fun _ inside => ((covers_without low high).mp ⟨u, member, inside⟩).1

theorem without_apart (low : s.start ≤ t.start) : (s.without t).Pairwise Apart := by
  refine pairwise_pair.mpr (apart_of_le ?_)
  simp only [stop]
  omega

section
variable {list : List Span} {s t : Span}

/-- A span that meets none of the list may be added. -/
theorem pairwise_cons_apart (h : list.Pairwise Apart) (new : ∀ i ∈ s, ¬ Covers list i) :
    (s :: list).Pairwise Apart :=
  pairwise_cons.mpr ⟨fun t member i first second => new i first ⟨t, member, second⟩, h⟩

/-- Part of a span may be given back. -/
theorem pairwise_without (h : list.Pairwise Apart) (member : s ∈ list) (low : s.start ≤ t.start)
    (high : t.stop ≤ s.stop) : (s.without t ++ list.erase s).Pairwise Apart := by
  have split : (s :: list.erase s).Pairwise Apart :=
    (perm_cons_erase member).pairwise h fun first => first.symm
  obtain ⟨others, rest⟩ := pairwise_cons.mp split
  refine pairwise_append.mpr ⟨without_apart low, rest, fun u part v old => ?_⟩
  exact (others v old).mono (without_subset low high part) fun _ inside => inside

/-- Exactly the units given back are no longer covered. -/
theorem covers_erase_without (h : list.Pairwise Apart) (member : s ∈ list)
    (low : s.start ≤ t.start) (high : t.stop ≤ s.stop) (i : Nat) :
    Covers (s.without t ++ list.erase s) i ↔ Covers list i ∧ i ∉ t := by
  have split : (s :: list.erase s).Pairwise Apart :=
    (perm_cons_erase member).pairwise h fun first => first.symm
  have whole : Covers list i ↔ i ∈ s ∨ Covers (list.erase s) i := by
    rw [← covers_cons]
    refine exists_congr fun u => and_congr_left fun _ => ?_
    exact (perm_cons_erase member).mem_iff
  rw [covers_append, covers_without low high, whole]
  constructor
  · rintro (⟨inside, outside⟩ | ⟨u, old, inside⟩)
    · exact ⟨.inl inside, outside⟩
    · refine ⟨.inr ⟨u, old, inside⟩, fun given => ?_⟩
      exact (pairwise_cons.mp split).1 u old i
        ⟨low.trans given.1, given.2.trans_le high⟩ inside
  · rintro ⟨inside | old, outside⟩
    · exact .inl ⟨inside, outside⟩
    · exact .inr old

end
end Span
end Calendarizador.Foundation
