import Calendarizador.Foundation.Spans
import Calendarizador.Source.Memory

/-!
# The bitmap

`struct bitmap` of `lib/kernel/bitmap.c`: bit `i` is bit `i % 32` of element `i / 32`. The
elements beyond those the bitmap owns are never looked at. Each function is translated with
its assertions; `bit` is the value of one bit, and each function has one lemma that says
what it does to the bits.
-/
namespace Calendarizador.Source
open Foundation List

structure Bitmap where
  /-- `bit_cnt` -/
  bitCnt : Nat
  bits : Nat → BitVec 32

namespace Bitmap
variable {b : Bitmap} {idx : Nat}

def elemIdx (bitIdx : Nat) : Nat := bitIdx / 32

def bitMask (bitIdx : Nat) : BitVec 32 := 1#32 <<< (bitIdx % 32)

def elemCnt (bitCnt : Nat) : Nat := divRoundUp bitCnt 32

def byteCnt (bitCnt : Nat) : Nat := 4 * elemCnt bitCnt

/-- The size of `struct bitmap` and its elements. -/
def bufSize (bitCnt : Nat) : Nat := 8 + byteCnt bitCnt

/-- `b->bits[idx] = value` -/
@[simps]
def store (b : Bitmap) (idx : Nat) (value : BitVec 32) : Bitmap :=
  { b with bits := Function.update b.bits idx value }

def mark (b : Bitmap) (bitIdx : Nat) : Bitmap :=
  b.store (elemIdx bitIdx) (b.bits (elemIdx bitIdx) ||| bitMask bitIdx)

def reset (b : Bitmap) (bitIdx : Nat) : Bitmap :=
  b.store (elemIdx bitIdx) (b.bits (elemIdx bitIdx) &&& ~~~ bitMask bitIdx)

def flip (b : Bitmap) (bitIdx : Nat) : Bitmap :=
  b.store (elemIdx bitIdx) (b.bits (elemIdx bitIdx) ^^^ bitMask bitIdx)

def set (b : Bitmap) (idx : Nat) (value : Bool) : Except Halt Bitmap := do
  ensure (idx < b.bitCnt)
  .ok (if value then b.mark idx else b.reset idx)

def test (b : Bitmap) (idx : Nat) : Except Halt Bool := do
  ensure (idx < b.bitCnt)
  .ok (b.bits (elemIdx idx) &&& bitMask idx != 0#32)

def setMultiple (b : Bitmap) (start cnt : Nat) (value : Bool) : Except Halt Bitmap := do
  ensure (start ≤ b.bitCnt)
  ensure (sizeT (start + cnt) ≤ b.bitCnt)
  (List.range cnt).foldlM (fun b i => b.set (sizeT (start + i)) value) b

def setAll (b : Bitmap) (value : Bool) : Except Halt Bitmap :=
  b.setMultiple 0 b.bitCnt value

/-- `bitmap_create_in_buf`; what the buffer held before is `bits`. -/
def createInBuf (bitCnt blockSize : Nat) (bits : Nat → BitVec 32) : Except Halt Bitmap := do
  ensure (bufSize bitCnt ≤ blockSize)
  setAll ⟨bitCnt, bits⟩ false

/-- The loop of `bitmap_count`, with `more` rounds to go from the bit `idx` on. -/
def countFrom (b : Bitmap) (value : Bool) (idx : Nat) : Nat → Nat → Except Halt Nat
  | 0, valueCnt => .ok valueCnt
  | more + 1, valueCnt => do
    if (← b.test (sizeT idx)) = value then b.countFrom value (idx + 1) more (sizeT (valueCnt + 1))
    else b.countFrom value (idx + 1) more valueCnt

def count (b : Bitmap) (start cnt : Nat) (value : Bool) : Except Halt Nat := do
  ensure (start ≤ b.bitCnt)
  ensure (sizeT (start + cnt) ≤ b.bitCnt)
  b.countFrom value start cnt 0

/-- The loop of `bitmap_contains`, with `more` rounds to go from the bit `idx` on. -/
def containsFrom (b : Bitmap) (value : Bool) (idx : Nat) : Nat → Except Halt Bool
  | 0 => .ok false
  | more + 1 => do
    if (← b.test (sizeT idx)) = value then .ok true else b.containsFrom value (idx + 1) more

def contains (b : Bitmap) (start cnt : Nat) (value : Bool) : Except Halt Bool := do
  ensure (start ≤ b.bitCnt)
  ensure (sizeT (start + cnt) ≤ b.bitCnt)
  b.containsFrom value start cnt

protected def any (b : Bitmap) (start cnt : Nat) : Except Halt Bool := b.contains start cnt true

protected def none (b : Bitmap) (start cnt : Nat) : Except Halt Bool :=
  (b.contains start cnt true).map not

def all (b : Bitmap) (start cnt : Nat) : Except Halt Bool :=
  (b.contains start cnt false).map not

/-- The loop of `bitmap_scan`, with `more` rounds to go from the position `i` on. -/
def scanFrom (b : Bitmap) (cnt : Nat) (value : Bool) (i : Nat) : Nat → Except Halt (Option Nat)
  | 0 => .ok none
  | more + 1 => do
    if (← b.contains i cnt (!value)) = true then b.scanFrom cnt value (i + 1) more
    else .ok (some i)

/-- `none` is `BITMAP_ERROR`. -/
def scan (b : Bitmap) (start cnt : Nat) (value : Bool) : Except Halt (Option Nat) := do
  ensure (start ≤ b.bitCnt)
  if cnt ≤ b.bitCnt then
    let last := b.bitCnt - cnt
    b.scanFrom cnt value start (last + 1 - start)
  else .ok none

def scanAndFlip (b : Bitmap) (start cnt : Nat) (value : Bool) :
    Except Halt (Option Nat × Bitmap) := do
  match ← b.scan start cnt value with
  | some idx => (b.setMultiple idx cnt (!value)).map fun b => (some idx, b)
  | none => .ok (none, b)

/-! ## Bits -/

/-- The value of bit `i`. -/
def bit (b : Bitmap) (i : Nat) : Bool := (b.bits (i / 32)).getLsbD (i % 32)

theorem bitMask_getLsbD (i j : Nat) : (bitMask i).getLsbD j = decide (j = i % 32) := by
  have small : i % 32 < 32 := Nat.mod_lt _ (by decide)
  simp only [bitMask, BitVec.getLsbD_shiftLeft, BitVec.getLsbD_one]
  grind

theorem bit_store (b : Bitmap) (idx j : Nat) (value : BitVec 32) :
    (b.store idx value).bit j = if j / 32 = idx then value.getLsbD (j % 32) else b.bit j := by
  unfold bit
  simp only [store_bits, Function.update_apply]
  split <;> rfl

theorem bit_mark (b : Bitmap) (i j : Nat) : (b.mark i).bit j = (j == i || b.bit j) := by
  simp only [mark, bit_store, elemIdx, BitVec.getLsbD_or, bitMask_getLsbD]
  unfold bit
  grind

theorem bit_reset (b : Bitmap) (i j : Nat) : (b.reset i).bit j = (j != i && b.bit j) := by
  simp only [reset, bit_store, elemIdx, BitVec.getLsbD_and, BitVec.getLsbD_not, bitMask_getLsbD]
  unfold bit
  grind

theorem bit_flip (b : Bitmap) (i j : Nat) : (b.flip i).bit j = ((j == i) ^^ b.bit j) := by
  simp only [flip, bit_store, elemIdx, BitVec.getLsbD_xor, bitMask_getLsbD]
  unfold bit
  grind

theorem set_bitCnt {after : Bitmap} {value : Bool} (done : b.set idx value = .ok after) :
    after.bitCnt = b.bitCnt := by
  obtain ⟨_, -, done⟩ := bind_eq_ok.mp done
  cases done
  split <;> rfl

theorem setMultiple_bitCnt {after : Bitmap} {start cnt : Nat} {value : Bool}
    (done : b.setMultiple start cnt value = .ok after) : after.bitCnt = b.bitCnt := by
  obtain ⟨_, -, done⟩ := bind_eq_ok.mp done
  obtain ⟨_, -, done⟩ := bind_eq_ok.mp done
  refine foldlM_invariant (P := fun x => x.bitCnt = b.bitCnt) _ ?_ rfl done
  intro x i after' _ same executed
  exact (set_bitCnt executed).trans same

theorem set_spec (inside : idx < b.bitCnt) (value : Bool) :
    ∃ after, b.set idx value = .ok after ∧ after.bitCnt = b.bitCnt ∧
      ∀ j, after.bit j = if j = idx then value else b.bit j := by
  refine ⟨_, ensure_bind inside _, ?_, fun j => ?_⟩
  · cases value <;> rfl
  · cases value with
    | false =>
      simp only [Bool.false_eq_true, if_false, bit_reset]
      grind
    | true =>
      simp only [if_true, bit_mark]
      grind

theorem and_bitMask_ne_zero (x : BitVec 32) (i : Nat) :
    x &&& bitMask i ≠ 0#32 ↔ x.getLsbD (i % 32) = true := by
  have small : i % 32 < 32 := Nat.mod_lt _ (by decide)
  constructor
  · intro some_
    by_contra clear
    refine some_ (BitVec.eq_of_getLsbD_eq fun j _ => ?_)
    simp only [BitVec.getLsbD_and, bitMask_getLsbD, BitVec.getLsbD_zero]
    grind
  · intro bit zero
    have same := congrArg (BitVec.getLsbD · (i % 32)) zero
    simp [bitMask_getLsbD, bit] at same

theorem test_spec (inside : idx < b.bitCnt) : b.test idx = .ok (b.bit idx) := by
  refine (ensure_bind inside _).trans (congrArg Except.ok ?_)
  rw [Bool.eq_iff_iff, bne_iff_ne, and_bitMask_ne_zero]
  rfl

/-! ## Groups of bits -/

section
variable {b : Bitmap} (fits : b.bitCnt < 4294967296)
include fits
variable {start cnt : Nat}

/-- The loop of `bitmap_set_multiple`, by induction on the number of bits it has set. -/
theorem setLoop_spec (inside : start + cnt ≤ b.bitCnt) (value : Bool) :
    ∃ after, (List.range cnt).foldlM (fun b i => b.set (sizeT (start + i)) value) b = .ok after ∧
      after.bitCnt = b.bitCnt ∧
      ∀ j, after.bit j = if j ∈ (⟨start, cnt⟩ : Span) then value else b.bit j := by
  induction cnt with
  | zero =>
    refine ⟨b, rfl, rfl, fun j => ?_⟩
    rw [if_neg]
    simp only [Span.mem_iff, Span.stop]
    omega
  | succ cnt ih =>
    obtain ⟨middle, loop, size, bits⟩ := ih (by omega)
    obtain ⟨after, last, size', bits'⟩ :=
      set_spec (show start + cnt < middle.bitCnt by omega) value
    refine ⟨after, ?_, size'.trans size, fun j => ?_⟩
    · rw [range_succ, foldlM_append, loop]
      change (middle.set (sizeT (start + cnt)) value >>= pure) = .ok after
      rw [bind_pure, sizeT_of_lt (by omega), last]
    · rw [bits', bits]
      simp only [Span.mem_iff, Span.stop]
      grind

theorem setMultiple_spec (inside : start + cnt ≤ b.bitCnt) (value : Bool) :
    ∃ after, b.setMultiple start cnt value = .ok after ∧ after.bitCnt = b.bitCnt ∧
      ∀ j, after.bit j = if j ∈ (⟨start, cnt⟩ : Span) then value else b.bit j := by
  obtain ⟨after, loop, rest⟩ := setLoop_spec fits inside value
  refine ⟨after, ?_, rest⟩
  unfold setMultiple
  rw [ensure_bind (by omega), ensure_bind (by rw [sizeT_of_lt] <;> omega), loop]

/-- The loop of `bitmap_count`; the counter never exceeds the number of bits it has passed. -/
theorem countFrom_spec {idx more n : Nat} (inside : idx + more ≤ b.bitCnt) (few : n ≤ idx)
    (value : Bool) : b.countFrom value idx more n =
      .ok (n + (List.range more).countP fun i => b.bit (idx + i) == value) := by
  induction more generalizing idx n with
  | zero => rfl
  | succ more ih =>
    have rest (m : Nat) (most : m ≤ idx + 1) := ih (show idx + 1 + more ≤ b.bitCnt by omega) most
    have shift : (List.range more).countP (fun i => b.bit (idx + 1 + i) == value) =
        (List.range more).countP (fun i => b.bit (idx + (i + 1)) == value) := by
      simp only [Nat.add_assoc, Nat.add_comm 1]
    unfold countFrom
    rw [sizeT_of_lt (by omega), test_spec (by omega), ok_bind, range_succ_eq_map,
      countP_cons, countP_map]
    by_cases here : b.bit idx = value
    · rw [if_pos here, sizeT_of_lt (by omega), rest _ (by omega), shift]
      simp only [Nat.add_zero, here, beq_self_eq_true, if_true, Function.comp_def,
        Nat.succ_eq_add_one]
      congr 1
      omega
    · rw [if_neg here, rest _ (by omega), shift]
      simp only [Nat.add_zero, beq_iff_eq, here, if_false, Function.comp_def]

theorem count_spec (inside : start + cnt ≤ b.bitCnt) (value : Bool) : b.count start cnt value =
      .ok ((List.range cnt).countP fun i => b.bit (start + i) == value) := by
  unfold count
  rw [ensure_bind (by omega), ensure_bind (by rw [sizeT_of_lt] <;> omega),
    countFrom_spec fits inside (Nat.zero_le _), Nat.zero_add]

theorem containsFrom_spec {idx more : Nat} (inside : idx + more ≤ b.bitCnt) (value : Bool) :
    ∃ found, b.containsFrom value idx more = .ok found ∧
      (found = true ↔ ∃ j ∈ (⟨idx, more⟩ : Span), b.bit j = value) := by
  induction more generalizing idx with
  | zero =>
    refine ⟨false, rfl, ?_⟩
    simp only [Span.mem_iff, Span.stop]
    grind
  | succ more ih =>
    obtain ⟨found, loop, meaning⟩ := ih (show idx + 1 + more ≤ b.bitCnt by omega)
    unfold containsFrom
    rw [sizeT_of_lt (by omega), test_spec (by omega)]
    by_cases here : b.bit idx = value
    · refine ⟨true, ?_, ?_⟩
      · simp [here, bind, Except.bind]
      · refine ⟨fun _ => ⟨idx, ⟨le_rfl, ?_⟩, here⟩, fun _ => rfl⟩
        simp only [Span.stop]
        omega
    · refine ⟨found, ?_, meaning.trans ?_⟩
      · simpa [here, bind, Except.bind] using loop
      · simp only [Span.mem_iff, Span.stop]
        grind

theorem contains_spec (inside : start + cnt ≤ b.bitCnt) (value : Bool) :
    ∃ found, b.contains start cnt value = .ok found ∧
      (found = true ↔ ∃ j ∈ (⟨start, cnt⟩ : Span), b.bit j = value) := by
  obtain ⟨found, loop, meaning⟩ := containsFrom_spec fits inside value
  refine ⟨found, ?_, meaning⟩
  unfold contains
  rw [ensure_bind (by omega), ensure_bind (by rw [sizeT_of_lt] <;> omega), loop]

end

/-- The bits of the group are bits of the bitmap and have the value. -/
def Group (b : Bitmap) (value : Bool) (cnt i : Nat) : Prop :=
  i + cnt ≤ b.bitCnt ∧ ∀ j ∈ (⟨i, cnt⟩ : Span), b.bit j = value

section
variable {b : Bitmap} (fits : b.bitCnt < 4294967296)
include fits
variable {start : Nat}

theorem all_spec {cnt : Nat} (inside : start + cnt ≤ b.bitCnt) :
    ∃ answer, b.all start cnt = .ok answer ∧ (answer = true ↔ b.Group true cnt start) := by
  obtain ⟨found, scanned, meaning⟩ := contains_spec fits inside false
  refine ⟨!found, by rw [all, scanned]; rfl, ?_⟩
  rw [Bool.not_eq_true', ← Bool.not_eq_true, meaning]
  simp only [Group, inside, true_and, not_exists, not_and, Bool.not_eq_false]

/-- What the loop of `bitmap_scan` finds is the first group from `i` on. -/
theorem scanFrom_spec {cnt i more : Nat} (value : Bool)
    (last : more = 0 ∨ i + more + cnt = b.bitCnt + 1) :
    ∃ found, b.scanFrom cnt value i more = .ok found ∧
      match found with
      | some idx => i ≤ idx ∧ b.Group value cnt idx ∧ ∀ k, i ≤ k → k < idx → ¬ b.Group value cnt k
      | none => ∀ k, i ≤ k → k < i + more → ¬ b.Group value cnt k := by
  induction more generalizing i with
  | zero => exact ⟨none, rfl, fun k low high => by omega⟩
  | succ more ih =>
    have inside : i + cnt ≤ b.bitCnt := by omega
    obtain ⟨other, scanned, meaning⟩ := contains_spec fits inside (!value)
    have group : other = false ↔ b.Group value cnt i := by
      rw [← Bool.not_eq_true, meaning]
      simp only [Group, inside, true_and, not_exists, not_and]
      grind
    unfold scanFrom
    rw [scanned]
    cases other with
    | false => exact ⟨some i, rfl, le_rfl, group.mp rfl, fun k low high => by omega⟩
    | true =>
      have here : ¬ b.Group value cnt i := fun all => by simpa using group.mpr all
      obtain ⟨found, loop, result⟩ :=
        ih (show more = 0 ∨ i + 1 + more + cnt = b.bitCnt + 1 by omega)
      refine ⟨found, loop, ?_⟩
      cases found with
      | some idx =>
        obtain ⟨low, found_, first⟩ := result
        refine ⟨by omega, found_, fun k above below => ?_⟩
        rcases Nat.eq_or_lt_of_le above with rfl | later
        · exact here
        · exact first k later below
      | none =>
        intro k above below
        rcases Nat.eq_or_lt_of_le above with rfl | later
        · exact here
        · exact result k later (by omega)

/-- `bitmap_scan` returns the first group, and `BITMAP_ERROR` only if there is none. -/
theorem scan_spec (cnt : Nat) (inside : start ≤ b.bitCnt) (value : Bool) :
    ∃ found, b.scan start cnt value = .ok found ∧
      match found with
      | some idx =>
        start ≤ idx ∧ b.Group value cnt idx ∧ ∀ k, start ≤ k → k < idx → ¬ b.Group value cnt k
      | none => ∀ k, start ≤ k → ¬ b.Group value cnt k := by
  unfold scan
  rw [ensure_bind inside]
  by_cases small : cnt ≤ b.bitCnt
  · have rounds : b.bitCnt - cnt + 1 - start = 0 ∨
        start + (b.bitCnt - cnt + 1 - start) + cnt = b.bitCnt + 1 := by omega
    obtain ⟨found, loop, result⟩ := scanFrom_spec fits value rounds
    refine ⟨found, by rw [if_pos small, loop], ?_⟩
    cases found with
    | some idx => exact result
    | none =>
      intro k low group
      have bound := group.1
      exact result k low (by omega) group
  · refine ⟨none, if_neg small, fun k _ group => ?_⟩
    have bound := group.1
    omega

/-- `bitmap_scan_and_flip` sets the first group, and changes nothing if there is none. -/
theorem scanAndFlip_spec (cnt : Nat) (inside : start ≤ b.bitCnt) (value : Bool) :
    (∃ idx after, b.scanAndFlip start cnt value = .ok (some idx, after) ∧ start ≤ idx ∧
      b.Group value cnt idx ∧ (∀ k, start ≤ k → k < idx → ¬ b.Group value cnt k) ∧
      after.bitCnt = b.bitCnt ∧
      ∀ j, after.bit j = if j ∈ (⟨idx, cnt⟩ : Span) then !value else b.bit j) ∨
    (b.scanAndFlip start cnt value = .ok (none, b) ∧
      ∀ k, start ≤ k → ¬ b.Group value cnt k) := by
  obtain ⟨found, scanned, result⟩ := scan_spec fits cnt inside value
  unfold scanAndFlip
  rw [scanned]
  cases found with
  | none => exact .inr ⟨rfl, result⟩
  | some idx =>
    obtain ⟨low, group, first⟩ := result
    obtain ⟨after, flipped, size, bits⟩ := setMultiple_spec fits group.1 (!value)
    refine .inl ⟨idx, after, ?_, low, group, first, size, bits⟩
    change (b.setMultiple idx cnt (!value)).map _ = _
    rw [flipped]
    rfl

end

theorem createInBuf_spec {bitCnt blockSize : Nat} (fits : bitCnt < 4294967296)
    (room : bufSize bitCnt ≤ blockSize) (bits : Nat → BitVec 32) :
    ∃ b, createInBuf bitCnt blockSize bits = .ok b ∧ b.bitCnt = bitCnt ∧
      ∀ j < bitCnt, b.bit j = false := by
  obtain ⟨b, cleared, size, clear⟩ :=
    setMultiple_spec (b := ⟨bitCnt, bits⟩) fits (Nat.zero_add bitCnt).le false
  refine ⟨b, ?_, size, fun j below => ?_⟩
  · unfold createInBuf
    rw [ensure_bind room]
    exact cleared
  · rw [clear, if_pos]
    simp only [Span.mem_iff, Span.stop]
    omega

end Bitmap
end Calendarizador.Source
