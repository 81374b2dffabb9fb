import Calendarizador.Source.Ustar
import Mathlib.Algebra.BigOperators.Group.Finset.Basic
import Mathlib.Algebra.Order.BigOperators.Group.Finset
import Mathlib.Data.List.GetD

/-!
# Reading ustar headers

The checksum is a sum over the bytes outside its own field, an octal field is read back by
`parse_octal_field`, and stripping a name that was stripped changes nothing.
-/
namespace Calendarizador.Source
open Foundation List

namespace Ustar
variable {h h' : UstarHeader} {width value : Nat}

/-! ## The checksum -/

/-- What a byte adds to the checksum. -/
def summand (h : UstarHeader) (i : Nat) : Nat :=
  if 148 ≤ i ∧ i < 148 + 8 then 32 else (h i).toNat

theorem calculateChksum_eq (h : UstarHeader) :
    calculateChksum h = ∑ i ∈ Finset.range 512, summand h i := by
  have loop (n : Nat) : (List.range n).foldl (fun chksum i => chksum + summand h i) 0 =
      ∑ i ∈ Finset.range n, summand h i := by
    induction n with
    | zero => rfl
    | succ n ih =>
      rw [range_succ, foldl_append, ih, Finset.sum_range_succ]
      rfl
  exact loop 512

/-- The field of the checksum itself does not count. -/
theorem calculateChksum_congr (same : ∀ i < 512, ¬ (148 ≤ i ∧ i < 148 + 8) → h' i = h i) :
    calculateChksum h' = calculateChksum h := by
  rw [calculateChksum_eq, calculateChksum_eq]
  refine Finset.sum_congr rfl fun i inside => ?_
  unfold summand
  split
  · rfl
  · rename_i outside
    rw [same i (Finset.mem_range.mp inside) outside]

/-- One other byte outside the field makes another sum. -/
theorem calculateChksum_ne {i : Nat} (inside : i < 512) (outside : ¬ (148 ≤ i ∧ i < 148 + 8))
    (other : h' i ≠ h i) (same : ∀ j < 512, j ≠ i → h' j = h j) :
    calculateChksum h' ≠ calculateChksum h := by
  have member := Finset.mem_range.mpr inside
  have rest : ∑ j ∈ (Finset.range 512).erase i, summand h' j =
      ∑ j ∈ (Finset.range 512).erase i, summand h j := by
    refine Finset.sum_congr rfl fun j there => ?_
    obtain ⟨apart, below⟩ := Finset.mem_erase.mp there
    unfold summand
    rw [same j (Finset.mem_range.mp below) apart]
  rw [calculateChksum_eq, calculateChksum_eq, ← Finset.add_sum_erase _ _ member,
    ← Finset.add_sum_erase _ _ member, rest]
  intro equal
  have byte : summand h' i = summand h i := Nat.add_right_cancel equal
  unfold summand at byte
  rw [if_neg outside, if_neg outside] at byte
  exact other (BitVec.eq_of_toNat_eq byte)

theorem calculateChksum_le (h : UstarHeader) : calculateChksum h ≤ 130560 := by
  rw [calculateChksum_eq]
  have each : ∀ i ∈ Finset.range 512, summand h i ≤ 255 := by
    intro i _
    have byte := (h i).isLt
    unfold summand
    split
    · decide
    · omega
  exact (Finset.sum_le_card_nsmul _ _ _ each).trans (by simp)

/-! ## Octal fields -/

theorem parseOctalFrom_congr {s s' : Nat → BitVec 8} {more : Nat} : ∀ {ofs value : Nat},
    (∀ j < more, s' (ofs + j) = s (ofs + j)) →
      parseOctalFrom s' ofs more value = parseOctalFrom s ofs more value := by
  induction more with
  | zero => exact fun _ => rfl
  | succ more ih =>
    intro ofs value same
    have here : s' ofs = s ofs := same 0 (Nat.succ_pos more)
    have rest : ∀ j < more, s' (ofs + 1 + j) = s (ofs + 1 + j) := by
      intro j below
      rw [Nat.add_right_comm, Nat.add_assoc]
      exact same (j + 1) (by omega)
    unfold parseOctalFrom
    simp only [here, ih rest]

theorem parseOctalField_congr {s s' : Nat → BitVec 8} {size : Nat}
    (same : ∀ j < size, s' j = s j) : parseOctalField s' size = parseOctalField s size := by
  refine parseOctalFrom_congr fun j below => ?_
  rw [Nat.zero_add]
  exact same j below

theorem length_octal (width value : Nat) : (octal width value).length = width := by
  simp [octal]

theorem octal_getD {i : Nat} (inside : i < width) :
    (octal width value).getD i 0 = BitVec.ofNat 8 (48 + value / 8 ^ (width - 1 - i) % 8) := by
  have below : i < (octal width value).length := by rwa [length_octal]
  rw [getD_eq_getElem _ _ below]
  simp [octal]

/-- A character that is a digit, and its value. -/
theorem octal_digit {d : Nat} (small : d < 8) :
    (48 ≤ BitVec.ofNat 8 (48 + d) ∧ BitVec.ofNat 8 (48 + d) ≤ (55 : BitVec 8)) ∧
      (BitVec.ofNat 8 (48 + d)).toNat - 48 = d := by
  have all : ∀ d : Fin 8, (48 ≤ BitVec.ofNat 8 (48 + d) ∧
      BitVec.ofNat 8 (48 + d) ≤ (55 : BitVec 8)) ∧ (BitVec.ofNat 8 (48 + d)).toNat - 48 = d := by
    decide
  exact all ⟨d, small⟩

/-- From the digit `ofs` on, with the value of the digits before it. -/
theorem parseOctalFrom_octal {s : Nat → BitVec 8} (small : value ≤ 4294967295)
    (digits : ∀ i < width, s i = (octal width value).getD i 0) (ends : s width = 0)
    (some_ : 0 < width) {more : Nat} : ∀ {ofs : Nat}, ofs ≤ width → width < ofs + more →
      parseOctalFrom s ofs more (value / 8 ^ (width - ofs)) = some value := by
  induction more with
  | zero =>
    intro ofs low high
    omega
  | succ more ih =>
    intro ofs low high
    rcases Nat.eq_or_lt_of_le low with rfl | inside
    · have notDigit : ¬ (48 ≤ s ofs ∧ s ofs ≤ 55) := by
        rw [ends]
        decide
      unfold parseOctalFrom
      rw [if_neg notDigit, if_pos (.inr ends), if_pos some_, Nat.sub_self, Nat.pow_zero,
        Nat.div_one]
    · have here := digits ofs inside
      rw [octal_getD inside] at here
      have eighth : value / 8 ^ (width - ofs) = value / 8 ^ (width - 1 - ofs) / 8 := by
        rw [Nat.div_div_eq_div_mul, ← Nat.pow_succ]
        congr 2
        omega
      have low8 := Nat.mod_lt (value / 8 ^ (width - 1 - ofs)) (show 0 < 8 by decide)
      obtain ⟨isDigit, digit⟩ := octal_digit low8
      have most : value / 8 ^ (width - 1 - ofs) ≤ value := Nat.div_le_self _ _
      have noOverflow : ¬ value / 8 ^ (width - ofs) > 4294967295 / 8 := by
        rw [eighth]
        omega
      have next : value / 8 ^ (width - 1 - ofs) % 8 + value / 8 ^ (width - ofs) * 8 =
          value / 8 ^ (width - (ofs + 1)) := by
        rw [eighth, show width - (ofs + 1) = width - 1 - ofs by omega]
        omega
      unfold parseOctalFrom
      rw [here]
      simp only [if_pos isDigit, if_neg noOverflow, digit, next]
      exact ih inside (by omega)

/-- `parse_octal_field` reads what `snprintf` printed. -/
theorem parseOctalField_octal {s : Nat → BitVec 8} {size : Nat} (few : value < 8 ^ width)
    (small : value ≤ 4294967295) (digits : ∀ i < width, s i = (octal width value).getD i 0)
    (ends : s width = 0) (some_ : 0 < width) (fits : width < size) :
    parseOctalField s size = some value := by
  have start : parseOctalFrom s 0 size (value / 8 ^ (width - 0)) = some value :=
    parseOctalFrom_octal small digits ends some_ (Nat.zero_le _) (by omega)
  rw [Nat.sub_zero, Nat.div_eq_of_lt few] at start
  exact start

theorem octal_succ (width value : Nat) :
    octal (width + 1) value = octal width (value / 8) ++ [BitVec.ofNat 8 (48 + value % 8)] := by
  unfold octal
  rw [range_succ, map_append]
  congr 1
  · refine map_congr_left fun i inside => ?_
    have below := mem_range.mp inside
    have power : 8 ^ (width + 1 - 1 - i) = 8 * 8 ^ (width - 1 - i) := by
      rw [← Nat.pow_succ']
      congr 1
      omega
    rw [power, Nat.div_div_eq_div_mul]
  · simp

theorem baseO_digit {d : Nat} (small : d < 8) :
    baseO.digits.getD d 0 = BitVec.ofNat 8 (48 + d) := by
  have all : ∀ d : Fin 8, baseO.digits.getD d 0 = BitVec.ofNat 8 (48 + d) := by decide
  exact all ⟨d, small⟩

/-- The digits of the number, with zeros in front of them up to the width. -/
theorem octal_eq_digits {w : Nat} : ∀ {fuel value : Nat} (cnt : Nat), value < 8 ^ width →
    width ≤ fuel →
    List.replicate (width - (digitLoop baseO (zeroPadded w) fuel value cnt).length) 48 ++
      (digitLoop baseO (zeroPadded w) fuel value cnt).reverse = octal width value := by
  induction width with
  | zero =>
    intro fuel value cnt few enough
    obtain rfl : value = 0 := Nat.lt_one_iff.mp few
    cases fuel <;> rfl
  | succ width ih =>
    intro fuel value cnt few enough
    obtain ⟨fuel, rfl⟩ : ∃ n, fuel = n + 1 := ⟨fuel - 1, by omega⟩
    have fewer : value / 8 < 8 ^ width := by
      rw [Nat.div_lt_iff_lt_mul (by decide), ← Nat.pow_succ]
      exact few
    have rest := ih (cnt + 1) fewer (Nat.le_of_succ_le_succ enough)
    rw [octal_succ, ← rest]
    by_cases positive : value > 0
    · have round : digitLoop baseO (zeroPadded w) (fuel + 1) value cnt =
          BitVec.ofNat 8 (48 + value % 8) ::
            digitLoop baseO (zeroPadded w) fuel (value / 8) (cnt + 1) := by
        rw [digitLoop, if_pos positive, ← baseO_digit (Nat.mod_lt value (by decide))]
        rfl
      rw [round, length_cons, Nat.add_sub_add_right, reverse_cons, append_assoc]
    · obtain rfl : value = 0 := by omega
      have none_ (n c : Nat) : digitLoop baseO (zeroPadded w) n 0 c = [] := by
        cases n <;> rfl
      rw [none_, none_, length_nil, reverse_nil, append_nil, append_nil,
        Nat.sub_zero, Nat.sub_zero, replicate_succ']
      rfl

theorem formatInteger_zeroPadded (width value : Nat) :
    formatInteger value false false baseO (zeroPadded width) =
      List.replicate (width - (digitBuffer value baseO (zeroPadded width)).length) 48 ++
        (digitBuffer value baseO (zeroPadded width)).reverse := by
  simp [formatInteger, signChar, zeroPadded]

/-- Zero has a digit too. -/
theorem digitBuffer_zeroPadded (width value : Nat) : digitBuffer value baseO (zeroPadded width) =
      if value = 0 then [48] else digitLoop baseO (zeroPadded width) 64 value 0 := by
  split
  · rename_i zero
    subst zero
    rfl
  · rename_i positive
    have round : (digitLoop baseO (zeroPadded width) 64 value 0).length ≠ 0 := by
      rw [digitLoop, if_pos (Nat.pos_of_ne_zero positive)]
      simp
    have none_ : 1 - (digitLoop baseO (zeroPadded width) 64 value 0).length = 0 := by omega
    simp [digitBuffer, zeroPadded] at none_ ⊢
    exact none_

/-- `octal` is what `snprintf` stores in a field that has room for the digits. -/
theorem octal_eq_snprintf {bufSize : Nat} (few : value < 8 ^ width) (some_ : 0 < width)
    (short : width ≤ 64) (fits : width < bufSize) :
    vsnprintf bufSize (formatInteger value false false baseO (zeroPadded width)) =
      octal width value := by
  have digits : List.replicate (width -
        (digitLoop baseO (zeroPadded width) 64 value 0).length) 48 ++
      (digitLoop baseO (zeroPadded width) 64 value 0).reverse = octal width value :=
    octal_eq_digits 0 few short
  have output : formatInteger value false false baseO (zeroPadded width) = octal width value := by
    rw [formatInteger_zeroPadded, digitBuffer_zeroPadded, ← digits]
    split
    · rename_i zero
      subst zero
      have one : width = width - 1 + 1 := by omega
      have zeros : List.replicate width (48 : BitVec 8) =
          List.replicate (width - 1) 48 ++ [48] := by
        rw [← replicate_succ', ← one]
      exact (zeros.symm.trans (append_nil _).symm)
    · rfl
  rw [output]
  unfold vsnprintf
  rw [take_of_length_le]
  rw [length_octal]
  omega

theorem octal_eq_snprintf_size : vsnprintf 12 (formatInteger 9 false false baseO (zeroPadded 11)) =
    octal 11 9 :=
  octal_eq_snprintf (by decide) (by decide) (by decide) (by decide)

/-! ## Names -/

/-- The loop of `strip_antisocial_prefixes` goes on. -/
def Antisocial (name : List (BitVec 8)) : Prop :=
  name.head? = some 47 ∨ name.take 2 = [46, 47] ∨ name.take 3 = [46, 46, 47]

instance (name : List (BitVec 8)) : Decidable (Antisocial name) :=
  inferInstanceAs (Decidable (_ ∨ _ ∨ _))

theorem stripLoop_succ (fuel : Nat) (name : List (BitVec 8)) : stripLoop (fuel + 1) name =
      if Antisocial name then stripLoop fuel ((name.dropWhile (· != 47)).drop 1) else name := rfl

theorem stripLoop_of_not {name : List (BitVec 8)} (social : ¬ Antisocial name) (fuel : Nat) :
    stripLoop fuel name = name := by
  cases fuel with
  | zero => rfl
  | succ fuel => rw [stripLoop_succ, if_neg social]

/-- A round takes at least one character off. -/
theorem length_round {name : List (BitVec 8)} (antisocial : Antisocial name) :
    ((name.dropWhile (· != 47)).drop 1).length < name.length := by
  have some_ : name ≠ [] := by
    rintro rfl
    revert antisocial
    decide
  have rest := (dropWhile_suffix (l := name) (· != 47)).length_le
  have positive := length_pos_iff.mpr some_
  rw [length_drop]
  omega

/-- With a round for every character the loop comes to its end. -/
theorem stripLoop_social {fuel : Nat} : ∀ {name : List (BitVec 8)}, name.length ≤ fuel →
    ¬ Antisocial (stripLoop fuel name) := by
  induction fuel with
  | zero =>
    intro name short
    have empty : name = [] := eq_nil_of_length_eq_zero (Nat.le_zero.mp short)
    rw [stripLoop, empty]
    decide
  | succ fuel ih =>
    intro name short
    rw [stripLoop_succ]
    split
    · rename_i antisocial
      have less := length_round antisocial
      exact ih (by omega)
    · rename_i social
      exact social

/-- What is stripped stays as it is. -/
theorem strip_strip (fileName : CString) :
    stripAntisocialPrefixes (stripAntisocialPrefixes fileName) =
      stripAntisocialPrefixes fileName := by
  have social := stripLoop_social (le_refl fileName.bytes.length)
  by_cases dots : stripLoop fileName.bytes.length fileName.bytes = [] ∨
      stripLoop fileName.bytes.length fileName.bytes = [46, 46]
  · have dot : stripAntisocialPrefixes fileName = ⟨[46], by decide⟩ := by
      rw [stripAntisocialPrefixes, if_pos dots]
    rw [dot]
    exact CString.ext (by decide)
  · have stripped : stripAntisocialPrefixes fileName =
        ⟨stripLoop fileName.bytes.length fileName.bytes,
          fun b member => fileName.noNull b (mem_stripLoop member)⟩ := by
      rw [stripAntisocialPrefixes, if_neg dots]
    rw [stripped]
    refine CString.ext ?_
    unfold stripAntisocialPrefixes
    simp only [stripLoop_of_not social, if_neg dots]

end Ustar
end Calendarizador.Source
