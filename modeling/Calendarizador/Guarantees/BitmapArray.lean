import Calendarizador.Source.Inode
import Mathlib.Order.Bounds.Defs

/-!
# A bitmap is an array of booleans

Whatever is set, cleared and flipped in a bitmap of any number of bits, its bits are those of
an array of booleans that is changed in the same way, and every question about groups of bits
has the answer that the array gives.
-/
namespace Calendarizador.Guarantees
open Foundation Source Function List

/-- The calls that change a bitmap. -/
inductive BitmapOp where
  | set (idx : Nat) (value : Bool)
  | mark (idx : Nat)
  | reset (idx : Nat)
  | flip (idx : Nat)
  | setAll (value : Bool)
  | setMultiple (start cnt : Nat) (value : Bool)

namespace BitmapOp

/-- The arguments are in range for a bitmap of `n` bits. -/
def InRange (n : Nat) : BitmapOp → Prop
  | set idx _ | mark idx | reset idx | flip idx => idx < n
  | setAll _ => True
  | setMultiple start cnt _ => start + cnt ≤ n

def exec (b : Bitmap) : BitmapOp → Except Halt Bitmap
  | set idx value => b.set idx value
  | mark idx => .ok (b.mark idx)
  | reset idx => .ok (b.reset idx)
  | flip idx => .ok (b.flip idx)
  | setAll value => b.setAll value
  | setMultiple start cnt value => b.setMultiple start cnt value

/-- The same on an array of booleans. -/
def onArray (a : Nat → Bool) : BitmapOp → Nat → Bool
  | set idx value => Function.update a idx value
  | mark idx => Function.update a idx true
  | reset idx => Function.update a idx false
  | flip idx => Function.update a idx (!a idx)
  | setAll value => fun _ => value
  | setMultiple start cnt value => fun i => if start ≤ i ∧ i < start + cnt then value else a i

end BitmapOp

/-- The `cnt` elements of the array of length `n` from `i` on are `value`. -/
def ArrayRun (a : Nat → Bool) (n : Nat) (value : Bool) (cnt i : Nat) : Prop :=
  i + cnt ≤ n ∧ ∀ j, i ≤ j → j < i + cnt → a j = value

/-- `BITMAP_ERROR` -/
def bitmapError : Nat := 4294967295

/-- The number that `bitmap_scan` returns. -/
def scanResult (found : Option Nat) : Nat := found.getD bitmapError

/-- What `bitmap_scan` returns is the first run, and `BITMAP_ERROR` exactly if there is none. -/
structure FirstRun (a : Nat → Bool) (n start cnt : Nat) (value : Bool) (result : Nat) : Prop where
  error_iff : result = bitmapError ↔ ∀ i ≥ start, ¬ ArrayRun a n value cnt i
  least : result ≠ bitmapError → IsLeast {i | start ≤ i ∧ ArrayRun a n value cnt i} result

/-- The bitmap answers every question as the array of length `n` does. -/
structure BitmapIs (b : Bitmap) (n : Nat) (a : Nat → Bool) : Prop where
  size : b.bitCnt = n
  test : ∀ idx < n, b.test idx = .ok (a idx)
  count : ∀ start cnt value, start + cnt ≤ n → b.count start cnt value =
    .ok ((List.range cnt).countP fun i => a (start + i) == value)
  contains : ∀ start cnt value, start + cnt ≤ n → ∃ found, b.contains start cnt value = .ok found ∧
    (found = true ↔ ∃ j, start ≤ j ∧ j < start + cnt ∧ a j = value)
  any : ∀ start cnt, start + cnt ≤ n → ∃ found, b.any start cnt = .ok found ∧
    (found = true ↔ ∃ j, start ≤ j ∧ j < start + cnt ∧ a j = true)
  none : ∀ start cnt, start + cnt ≤ n → ∃ found, b.none start cnt = .ok found ∧
    (found = true ↔ ¬ ∃ j, start ≤ j ∧ j < start + cnt ∧ a j = true)
  all : ∀ start cnt, start + cnt ≤ n → ∃ found, b.all start cnt = .ok found ∧
    (found = true ↔ ∀ j, start ≤ j → j < start + cnt → a j = true)
  scan : ∀ start ≤ n, ∀ cnt value, ∃ found, b.scan start cnt value = .ok found ∧
    FirstRun a n start cnt value (scanResult found)
  scanAndFlip : ∀ start ≤ n, ∀ cnt value, ∃ found after,
    b.scanAndFlip start cnt value = .ok (found, after) ∧ b.scan start cnt value = .ok found ∧
    after.bitCnt = n ∧ ∀ j < n, after.test j = .ok (if scanResult found ≠ bitmapError ∧
      scanResult found ≤ j ∧ j < scanResult found + cnt then !a j else a j)

/-! ## One call -/

section
variable {b : Bitmap} {n : Nat} {a : Nat → Bool} {start : Nat}

/-- The bits of the bitmap are the elements of the array. -/
def SameBits (b : Bitmap) (n : Nat) (a : Nat → Bool) : Prop :=
  b.bitCnt = n ∧ ∀ j < n, b.bit j = a j

theorem SameBits.exec (same : SameBits b n a) (fits : n < 4294967296) {op : BitmapOp}
    (range : op.InRange n) : ∃ after, op.exec b = .ok after ∧ SameBits after n (op.onArray a) := by
  obtain ⟨rfl, bits⟩ := same
  cases op with
  | set idx value =>
    obtain ⟨after, done, size, changed⟩ := Bitmap.set_spec (show idx < b.bitCnt from range) value
    refine ⟨after, done, size, fun j inside => ?_⟩
    rw [changed, bits j inside, BitmapOp.onArray, update_apply]
  | mark idx =>
    refine ⟨b.mark idx, rfl, rfl, fun j inside => ?_⟩
    rw [Bitmap.bit_mark, bits j inside, BitmapOp.onArray, update_apply]
    by_cases here : j = idx <;> simp [here]
  | reset idx =>
    refine ⟨b.reset idx, rfl, rfl, fun j inside => ?_⟩
    rw [Bitmap.bit_reset, bits j inside, BitmapOp.onArray, update_apply]
    by_cases here : j = idx <;> simp [here]
  | flip idx =>
    refine ⟨b.flip idx, rfl, rfl, fun j inside => ?_⟩
    rw [Bitmap.bit_flip, bits j inside, BitmapOp.onArray, update_apply]
    by_cases here : j = idx
    · simp [here]
    · rw [if_neg here, beq_false_of_ne here, Bool.false_xor]
  | setAll value =>
    obtain ⟨after, done, size, changed⟩ :=
      Bitmap.setMultiple_spec fits (Nat.zero_add b.bitCnt).le value
    refine ⟨after, done, size, fun j inside => ?_⟩
    rw [changed, if_pos ⟨Nat.zero_le j, by simpa [Span.stop] using inside⟩]
    rfl
  | setMultiple start cnt value =>
    obtain ⟨after, done, size, changed⟩ := Bitmap.setMultiple_spec fits range value
    refine ⟨after, done, size, fun j inside => ?_⟩
    rw [changed, bits j inside]
    rfl

/-- All calls, by induction on their list. -/
theorem SameBits.run (same : SameBits b n a) (fits : n < 4294967296) {ops : List BitmapOp}
    (range : ∀ op ∈ ops, op.InRange n) : ∃ after, ops.foldlM BitmapOp.exec b = .ok after ∧
      SameBits after n (ops.foldl BitmapOp.onArray a) := by
  induction ops generalizing b a with
  | nil => exact ⟨b, rfl, same⟩
  | cons op ops ih =>
    obtain ⟨middle, first, same'⟩ := same.exec fits (range op mem_cons_self)
    obtain ⟨after, rest, last⟩ := ih same' fun op member => range op (mem_cons_of_mem _ member)
    refine ⟨after, ?_, last⟩
    rw [foldlM_cons, first]
    exact rest

/-! ## The questions -/

theorem SameBits.group_iff (same : SameBits b n a) (value : Bool) (cnt i : Nat) :
    b.Group value cnt i ↔ ArrayRun a n value cnt i := by
  obtain ⟨rfl, bits⟩ := same
  refine and_congr_right fun inside => ⟨fun all j low high => ?_, fun all j member => ?_⟩
  · rw [← bits j (by omega)]
    exact all j ⟨low, high⟩
  · obtain ⟨low, high⟩ := member
    simp only [Span.stop] at high
    rw [bits j (by omega)]
    exact all j low high

theorem SameBits.contains (same : SameBits b n a) (fits : n < 4294967296) {cnt : Nat}
    (inside : start + cnt ≤ n) (value : Bool) : ∃ found, b.contains start cnt value = .ok found ∧
      (found = true ↔ ∃ j, start ≤ j ∧ j < start + cnt ∧ a j = value) := by
  obtain ⟨rfl, bits⟩ := same
  obtain ⟨found, done, meaning⟩ := Bitmap.contains_spec fits inside value
  refine ⟨found, done, meaning.trans (exists_congr fun j => ?_)⟩
  rw [← and_assoc]
  refine and_congr_right fun member => ?_
  obtain ⟨low, high⟩ := member
  simp only [Span.stop] at high
  rw [bits j (by omega)]

/-- The index `BITMAP_ERROR` is not an index of a bitmap of fewer bits. -/
theorem SameBits.scan (same : SameBits b n a) (fits : n < bitmapError) (inside : start ≤ n)
    (cnt : Nat) (value : Bool) : ∃ found,
      b.scan start cnt value = .ok found ∧ FirstRun a n start cnt value (scanResult found) := by
  have size := same.1
  have room : b.bitCnt < 4294967296 := by
    unfold bitmapError at fits
    omega
  obtain ⟨found, done, result⟩ := Bitmap.scan_spec room cnt (size ▸ inside) value
  simp only [same.group_iff] at result
  refine ⟨found, done, ?_⟩
  cases found with
  | none => exact ⟨iff_of_true rfl result, fun other => absurd rfl other⟩
  | some idx =>
    obtain ⟨low, run, first⟩ := result
    have apart : idx ≠ bitmapError := by
      have bound := run.1
      omega
    refine ⟨iff_of_false apart fun none_ => none_ idx low run, fun _ => ⟨⟨low, run⟩, ?_⟩⟩
    rintro i ⟨above, other⟩
    by_contra less
    exact first i above (Nat.lt_of_not_le less) other

theorem SameBits.scanAndFlip (same : SameBits b n a) (fits : n < bitmapError) (inside : start ≤ n)
    (cnt : Nat) (value : Bool) : ∃ found after,
      b.scanAndFlip start cnt value = .ok (found, after) ∧
      b.scan start cnt value = .ok found ∧ after.bitCnt = n ∧
      ∀ j < n, after.test j = .ok (if scanResult found ≠ bitmapError ∧
        scanResult found ≤ j ∧ j < scanResult found + cnt then !a j else a j) := by
  obtain ⟨rfl, bits⟩ := same
  have room : b.bitCnt < 4294967296 := by
    unfold bitmapError at fits
    omega
  obtain ⟨found, scanned, result⟩ := Bitmap.scan_spec room cnt inside value
  unfold Bitmap.scanAndFlip
  rw [scanned]
  cases found with
  | none =>
    refine ⟨none, b, rfl, rfl, rfl, fun j below => ?_⟩
    rw [Bitmap.test_spec below, bits j below, if_neg fun changed => changed.1 rfl]
  | some idx =>
    obtain ⟨-, group, -⟩ := result
    obtain ⟨after, flipped, size, changed⟩ := Bitmap.setMultiple_spec room group.1 (!value)
    have apart : scanResult (some idx) ≠ bitmapError := by
      have bound := group.1
      change idx ≠ bitmapError
      omega
    refine ⟨some idx, after, ?_, rfl, size, fun j below => ?_⟩
    · rw [ok_bind]
      dsimp only
      rw [flipped]
      rfl
    · rw [Bitmap.test_spec (size ▸ below), changed]
      by_cases member : j ∈ (⟨idx, cnt⟩ : Span)
      · rw [if_pos member, if_pos ⟨apart, member⟩, ← bits j below, group.2 j member]
      · rw [if_neg member, if_neg fun changes => member changes.2, bits j below]

theorem SameBits.bitmapIs (same : SameBits b n a) (fits : n < bitmapError) : BitmapIs b n a := by
  have room : n < 4294967296 := by
    unfold bitmapError at fits
    omega
  refine ⟨same.1, fun idx inside => ?_, fun start cnt value inside => ?_,
    fun start cnt value inside => same.contains room inside value,
    fun start cnt inside => same.contains room inside true, fun start cnt inside => ?_,
    fun start cnt inside => ?_, fun start inside => same.scan fits inside,
    fun start inside => same.scanAndFlip fits inside⟩
  · rw [Bitmap.test_spec (same.1 ▸ inside), same.2 idx inside]
  · rw [Bitmap.count_spec (same.1 ▸ room) (same.1 ▸ inside)]
    congr 1
    refine countP_congr fun i member => ?_
    have below := mem_range.mp member
    rw [same.2 _ (by omega)]
  · obtain ⟨found, done, meaning⟩ := same.contains room inside true
    refine ⟨!found, by rw [Bitmap.none, done]; rfl, ?_⟩
    rw [Bool.not_eq_true', ← Bool.not_eq_true, meaning]
  · obtain ⟨found, done, meaning⟩ := same.contains room inside false
    refine ⟨!found, by rw [Bitmap.all, done]; rfl, ?_⟩
    rw [Bool.not_eq_true', ← Bool.not_eq_true, meaning]
    simp only [not_exists, not_and, Bool.not_eq_false]

end

/-- `bitmap_create` allocates nothing for so many bits that the number of elements wraps. -/
theorem sameBits_create {n : Nat} {bits : Nat → BitVec 32} {b : Bitmap} (small : n < 4294967296)
    (created : Bitmap.create n bits = .ok (some b)) :
    n < bitmapError ∧ SameBits b n fun _ => false := by
  unfold Bitmap.create at created
  split at created
  · cases created
  · rename_i allocated
    obtain ⟨after, cleared, size, clear⟩ :=
      Bitmap.setMultiple_spec (b := ⟨n, bits⟩) small (Nat.zero_add n).le false
    rw [show Bitmap.setAll ⟨n, bits⟩ false = .ok after from cleared] at created
    cases created
    refine ⟨?_, size, fun j below => ?_⟩
    · simp only [sizeT, bitmapError] at allocated ⊢
      omega
    · rw [clear, if_pos ⟨Nat.zero_le j, by simpa [Span.stop] using below⟩]

/-- Every sequence of calls on a bitmap of any number of bits leaves it as the array it leaves. -/
theorem bitmap_refines_array (n : Nat) (small : n < 4294967296) (bits : Nat → BitVec 32)
    (b : Bitmap) (created : Bitmap.create n bits = .ok (some b)) (ops : List BitmapOp)
    (range : ∀ op ∈ ops, op.InRange n) :
    ∃ after, ops.foldlM BitmapOp.exec b = .ok after ∧
      BitmapIs after n (ops.foldl BitmapOp.onArray fun _ => false) := by
  obtain ⟨fits, same⟩ := sameBits_create small created
  obtain ⟨after, executed, same'⟩ := same.run small range
  exact ⟨after, executed, same'.bitmapIs fits⟩

/-- In a bitmap of forty bits: a run over the end of the first element, and one bit of it
cleared again. -/
theorem bitmap_refines_array_forty : ∃ b after, Bitmap.create 40 (fun _ => 7) = .ok (some b) ∧
    [BitmapOp.setMultiple 30 5 true, .flip 33].foldlM BitmapOp.exec b = .ok after ∧
    after.test 32 = .ok true ∧ after.test 33 = .ok false ∧ after.count 0 40 true = .ok 4 := by
  obtain ⟨b, created⟩ : ∃ b, Bitmap.create 40 (fun _ => 7) = .ok (some b) := ⟨_, rfl⟩
  have range : ∀ op ∈ [BitmapOp.setMultiple 30 5 true, .flip 33], op.InRange 40 := by
    simp [BitmapOp.InRange]
  obtain ⟨after, executed, is⟩ := bitmap_refines_array 40 (by decide) _ b created _ range
  exact ⟨b, after, created, executed, is.test 32 (by decide), is.test 33 (by decide),
    is.count 0 40 true (by decide)⟩

end Calendarizador.Guarantees
