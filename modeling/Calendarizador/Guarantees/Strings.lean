import Calendarizador.Invariant.UstarHeader
import Calendarizador.Source.Strings

/-!
# Strings and blocks of bytes

`memmove` copies right in both directions but returns the end of the block if it copies
upwards. `strip_antisocial_prefixes` and `strtok_r` read nothing behind the terminating null,
and `strtok_r` changes nothing outside the string.
-/
namespace Calendarizador.Guarantees
open Foundation Source Function List

/-! ## memmove -/

section
variable {memory : Memory} {dst src : Nat}

theorem moveDown_eq (size : Nat) (below : src ≤ dst) :
    moveDown memory (dst + size) (src + size) size =
      (splice memory dst size fun i => memory (src + i), dst) := by
  induction size generalizing memory with
  | zero => rw [moveDown, splice_zero, Nat.add_zero]
  | succ size ih =>
    rw [moveDown, ← Nat.add_assoc, ← Nat.add_assoc, Nat.add_sub_cancel, Nat.add_sub_cancel, ih]
    refine Prod.ext (funext fun a => ?_) rfl
    dsimp only [splice]
    by_cases last : a = dst + size
    · rw [last, if_neg (by omega), if_pos (by omega), update_self, Nat.add_sub_cancel_left]
    · rw [update_of_ne last]
      by_cases inside : dst ≤ a ∧ a < dst + size
      · rw [if_pos inside, if_pos (by omega), update_of_ne (by omega)]
      · rw [if_neg inside, if_neg (by omega)]

end

/-- The destination has the old bytes of the source, nothing else changes, and the result is
the destination exactly if the bytes are copied downwards or there are none. -/
theorem memmove_correct_iff (memory : Memory) (dst src size : Nat) (stored : dst ≠ 0 ∨ size = 0)
    (loaded : src ≠ 0 ∨ size = 0) : ∃ after result,
    memmove memory dst src size = .ok (after, result) ∧
    (∀ i < size, after (dst + i) = memory (src + i)) ∧
    (∀ a, a < dst ∨ dst + size ≤ a → after a = memory a) ∧
    (result = dst ↔ src ≤ dst ∨ size = 0) := by
  refine ⟨splice memory dst size fun i => memory (src + i), if dst < src then dst + size else dst,
    ?_, fun i inside => splice_inside inside, fun a outside => splice_outside outside, ?_⟩
  · rw [memmove, ensure_bind stored, ensure_bind loaded]
    split
    · next above => rw [copyUp_eq size (.inl above.le)]
    · next below => rw [moveDown_eq size (Nat.le_of_not_lt below)]
  · split <;> omega

theorem memmove_correct_iff_overlap : ∃ after result,
    memmove (fun a => BitVec.ofNat 8 a) 11 10 4 = .ok (after, result) ∧ after 14 = 13 ∧
    after 10 = 10 ∧ result = 11 := by
  obtain ⟨after, result, moved, copied, kept, start⟩ :=
    memmove_correct_iff (fun a => BitVec.ofNat 8 a) 11 10 4 (by decide) (by decide)
  exact ⟨after, result, moved, copied 3 (by decide), kept 10 (by decide),
    start.mpr (.inl (by decide))⟩

/-- Four bytes are moved from 11 to 10, and the result is 14. -/
theorem memmove_returns_end :
    (memmove (fun a => BitVec.ofNat 8 a) 10 11 4).map Prod.snd = .ok 14 := by decide

/-! ## strip_antisocial_prefixes -/

section
variable {s : List (BitVec 8)}

/-- `memcmp` with a text reads the string no further than the text agrees. -/
theorem memcmp_text (text rest s : List (BitVec 8)) (noNull : 0 ∉ text) :
    ∃ r, memcmp (s ++ [0]) (text ++ rest) text.length = some r ∧
      (r = 0 ↔ s.take text.length = text) := by
  induction text generalizing s with
  | nil => exact ⟨0, by cases s <;> rfl, by simp⟩
  | cons b text ih =>
    rw [mem_cons, not_or] at noNull
    cases s with
    | nil =>
      refine ⟨_, if_pos noNull.1, ?_⟩
      split <;> simp
    | cons a s =>
      by_cases same : a = b
      · obtain ⟨r, compared, zero⟩ := ih s noNull.2
        refine ⟨r, (if_neg (not_not.mpr same)).trans compared, ?_⟩
        rw [zero, length_cons, take_succ_cons, cons.injEq, and_iff_right same]
      · refine ⟨_, if_pos same, ?_⟩
        split <;> simp [same]

theorem antisocial_eq (s : List (BitVec 8)) :
    StringPtr.antisocial (s ++ [0]) = some (decide (Ustar.Antisocial s)) := by
  obtain ⟨dot, first, isDot⟩ := memcmp_text [46, 47] [0] s (by decide)
  obtain ⟨dots, second, isDots⟩ := memcmp_text [46, 46, 47] [0] s (by decide)
  have head : (s ++ [0]).head? = some (s.headD 0) := by cases s <;> rfl
  have slash : s.headD 0 = 47 ↔ s.head? = some 47 := by cases s <;> simp
  simp only [StringPtr.antisocial, head, Option.bind_eq_bind, Option.bind_some]
  by_cases begins : s.headD 0 = 47
  · rw [if_pos begins]
    exact congrArg some (decide_eq_true (.inl (slash.mp begins))).symm
  · rw [if_neg begins]
    simp only [show memcmp (s ++ [0]) [46, 47, 0] 2 = some dot from first,
      show memcmp (s ++ [0]) [46, 46, 47, 0] 3 = some dots from second, Option.bind_some]
    by_cases one : dot = 0
    · rw [if_pos one]
      exact congrArg some (decide_eq_true (.inr (.inl (isDot.mp one)))).symm
    · rw [if_neg one]
      refine congrArg some (decide_eq_decide.mpr (isDots.trans ⟨(.inr <| .inr ·), ?_⟩))
      rintro (begins' | two | three)
      · exact absurd (slash.mpr begins') begins
      · exact absurd (isDot.mpr two) one
      · exact three

theorem mem_of_antisocial (antisocial : Ustar.Antisocial s) : 47 ∈ s := by
  rcases antisocial with head | dot | dots
  · exact mem_of_mem_head? head
  · exact mem_of_mem_take (dot ▸ by decide : (47 : BitVec 8) ∈ s.take 2)
  · exact mem_of_mem_take (dots ▸ by decide : (47 : BitVec 8) ∈ s.take 3)

theorem strchr_eq {c : BitVec 8} (member : c ∈ s) (noNull : ∀ b ∈ s, b ≠ 0) :
    strchr c (s ++ [0]) = some (some (s.dropWhile (· != c) ++ [0])) := by
  induction s with
  | nil => cases member
  | cons ch s ih =>
    by_cases here : ch = c
    · rw [cons_append, strchr, if_pos here, dropWhile_cons_of_neg (by simp [here])]
      rfl
    · rw [cons_append, strchr, if_neg here, if_neg (noNull ch mem_cons_self),
        dropWhile_cons_of_pos (by simp [here])]
      exact ih (mem_of_ne_of_mem (Ne.symm here) member) fun b below =>
        noNull b (mem_cons_of_mem ch below)

theorem stripLoop_eq (fuel : Nat) (noNull : ∀ b ∈ s, b ≠ 0) (enough : s.length ≤ fuel) :
    StringPtr.stripLoop (fuel + 1) (s ++ [0]) = some (Ustar.stripLoop fuel s ++ [0]) := by
  induction fuel generalizing s with
  | zero =>
    rw [eq_nil_of_length_eq_zero (Nat.le_zero.mp enough)]
    rfl
  | succ fuel ih =>
    rw [StringPtr.stripLoop, antisocial_eq, Ustar.stripLoop_succ]
    by_cases antisocial : Ustar.Antisocial s
    · have member := mem_of_antisocial antisocial
      have less := Ustar.length_round antisocial
      have rest : s.dropWhile (· != 47) ≠ [] := by
        intro none
        exact absurd (dropWhile_eq_nil_iff.mp none 47 member) (by decide)
      rw [if_pos antisocial, decide_eq_true antisocial]
      simp only [Option.bind_eq_bind, Option.bind_some, if_true, strchr_eq member noNull]
      rw [tail_append_of_ne_nil rest, ← drop_one]
      exact ih (fun b below => noNull b ((dropWhile_suffix _).mem (mem_of_mem_drop below)))
        (by omega)
    · rw [if_neg antisocial, decide_eq_false antisocial]
      rfl

theorem strcmp_text (text s : List (BitVec 8)) (noNull : 0 ∉ text) (noNull' : 0 ∉ s) : ∃ r,
    strcmp (s ++ [0]) (text ++ [0]) = some r ∧ (r = 0 ↔ s = text) := by
  have differ : ∀ {a b : BitVec 8}, a ≠ b →
      (if a < b then -1 else if b < a then 1 else 0 : Int) ≠ 0 := by
    intro a b other
    split_ifs
    · decide
    · decide
    · bv_omega
  induction text generalizing s with
  | nil =>
    cases s with
    | nil => exact ⟨0, rfl, by simp⟩
    | cons a s =>
      rw [mem_cons, not_or] at noNull'
      exact ⟨_, if_neg fun both => both.1 both.2,
        iff_of_false (differ (Ne.symm noNull'.1)) (by simp)⟩
  | cons b text ih =>
    rw [mem_cons, not_or] at noNull
    cases s with
    | nil => exact ⟨_, if_neg fun both => both.1 rfl,
        iff_of_false (differ noNull.1) (by simp)⟩
    | cons a s =>
      rw [mem_cons, not_or] at noNull'
      by_cases same : a = b
      · obtain ⟨r, compared, zero⟩ := ih s noNull.2 noNull'.2
        refine ⟨r, (if_pos ⟨Ne.symm noNull'.1, same⟩).trans compared, ?_⟩
        rw [zero, cons.injEq, and_iff_right same]
      · exact ⟨_, if_neg fun both => same both.2,
        iff_of_false (differ same) (by simp [same])⟩

theorem strip_bytes (fileName : CString) : (Ustar.stripAntisocialPrefixes fileName).bytes =
    let rest := Ustar.stripLoop fileName.bytes.length fileName.bytes
    if rest = [] ∨ rest = [46, 46] then [46] else rest := by
  rw [Ustar.stripAntisocialPrefixes, apply_ite CString.bytes]

theorem stripAntisocialPrefixes_eq (fileName : CString) :
    StringPtr.stripAntisocialPrefixes (fileName.bytes ++ [0]) =
      some ((Ustar.stripAntisocialPrefixes fileName).bytes ++ [0]) := by
  have looped := stripLoop_eq fileName.bytes.length fileName.noNull le_rfl
  have noNull : 0 ∉ Ustar.stripLoop fileName.bytes.length fileName.bytes := fun null =>
    fileName.noNull 0 (Ustar.mem_stripLoop null) rfl
  rw [StringPtr.stripAntisocialPrefixes, length_append, length_singleton, looped, strip_bytes]
  dsimp only [Option.bind_eq_bind, Option.bind_some]
  generalize Ustar.stripLoop fileName.bytes.length fileName.bytes = rest at noNull
  cases rest with
  | nil => rfl
  | cons ch rest =>
    obtain ⟨r, compared, zero⟩ := strcmp_text [46, 46] (ch :: rest) (by decide) noNull
    rw [mem_cons, not_or] at noNull
    rw [cons_append] at compared ⊢
    rw [head?_cons, Option.bind_some, if_neg (Ne.symm noNull.1),
      show strcmp (ch :: (rest ++ [0])) [46, 46, 0] = some r from compared, Option.bind_some]
    by_cases dots : r = 0
    · rw [if_pos dots, if_pos (.inr (zero.mp dots))]
      rfl
    · rw [if_neg dots, if_neg (not_or.mpr ⟨cons_ne_nil _ _, mt zero.mpr dots⟩)]
      rfl

end

/-- The call reads nothing behind the null; its result is a suffix of the name or `.`, is
neither empty nor `..`, begins with none of the prefixes, and is left as it is. -/
theorem strip_safe (s : CString) : ∃ result : CString,
    StringPtr.stripAntisocialPrefixes (s.bytes ++ [0]) = some (result.bytes ++ [0]) ∧
    result.bytes ≠ [] ∧ result.bytes ≠ ascii ".." ∧
    (∀ start ∈ [ascii "/", ascii "./", ascii "../"], ¬ start <+: result.bytes) ∧
    (result.bytes = ascii "." ∨ result.bytes <:+ s.bytes) ∧
    StringPtr.stripAntisocialPrefixes (result.bytes ++ [0]) = some (result.bytes ++ [0]) := by
  refine ⟨Ustar.stripAntisocialPrefixes s, stripAntisocialPrefixes_eq s, ?_⟩
  rw [stripAntisocialPrefixes_eq, Ustar.strip_strip, and_iff_left rfl, strip_bytes]
  have social := Ustar.stripLoop_social (le_refl s.bytes.length)
  have suffix : Ustar.stripLoop s.bytes.length s.bytes <:+ s.bytes := Ustar.stripLoop_suffix
  generalize Ustar.stripLoop s.bytes.length s.bytes = rest at social suffix
  by_cases dots : rest = [] ∨ rest = [46, 46]
  · rw [if_pos dots]
    exact ⟨by decide, by decide, by decide, .inl (by decide)⟩
  · rw [if_neg dots]
    obtain ⟨some_, other⟩ := not_or.mp dots
    refine ⟨some_, other, ?_, .inr suffix⟩
    simp only [forall_mem_cons]
    refine ⟨?_, ?_, ?_, forall_mem_nil _⟩
    · rintro ⟨tail, rfl⟩
      exact social (.inl rfl)
    · rintro ⟨tail, rfl⟩
      exact social (.inr (.inl rfl))
    · rintro ⟨tail, rfl⟩
      exact social (.inr (.inr rfl))

/-! ## strtok_r -/

/-- The string at `s` ends with the null at `last`. -/
def HoldsString (memory : Memory) (last : Nat) : Nat → List (BitVec 8) → Prop
  | s, [] => s = last ∧ memory s = 0
  | s, ch :: rest => memory s = ch ∧ ch ≠ 0 ∧ s < last ∧ HoldsString memory last (s + 1) rest

/-- The maximal segments without delimiters that are not empty. -/
def segments (delimiters text : List (BitVec 8)) : List (List (BitVec 8)) :=
  (text.splitOnP (· ∈ delimiters)).filter (· ≠ [])

section
variable {memory : Memory} {last s : Nat} {delimiters text : List (BitVec 8)}

theorem HoldsString.last_eq (h : HoldsString memory last s text) : s + text.length = last := by
  induction text generalizing s with
  | nil => exact h.1
  | cons ch rest ih =>
    rw [length_cons, ← ih h.2.2.2]
    omega

/-- Behind a part of the string is the rest of it. -/
theorem HoldsString.behind {front : List (BitVec 8)}
    (h : HoldsString memory last s (front ++ text)) :
    HoldsString memory last (s + front.length) text := by
  induction front generalizing s with
  | nil => exact h
  | cons ch front ih =>
    rw [length_cons, Nat.add_comm front.length, ← Nat.add_assoc]
    exact ih h.2.2.2

theorem HoldsString.write {p : Nat} (h : HoldsString memory last s text) (before : p < s) :
    HoldsString (update memory p 0) last s text := by
  induction text generalizing s with
  | nil => exact ⟨h.1, (update_of_ne (by omega) _ _).trans h.2⟩
  | cons ch rest ih =>
    exact ⟨(update_of_ne (by omega) _ _).trans h.1, h.2.1, h.2.2.1, ih h.2.2.2 (by omega)⟩

/-- A null behind a part of the string ends that part. -/
theorem HoldsString.cut {front : List (BitVec 8)}
    (h : HoldsString memory last s (front ++ text)) :
    HoldsString (update memory (s + front.length) 0) (s + front.length) s front := by
  induction front generalizing s with
  | nil => exact ⟨rfl, update_self _ _ _⟩
  | cons ch front ih =>
    have rest := ih h.2.2.2
    rw [length_cons, Nat.add_comm front.length, ← Nat.add_assoc]
    exact ⟨(update_of_ne (by omega) _ _).trans h.1, h.2.1, by omega, rest⟩

theorem HoldsString.stringAt_eq {size : Nat} (h : HoldsString memory last s text)
    (enough : text.length < size) : stringAt memory size s = text := by
  induction text generalizing s size with
  | nil =>
    obtain ⟨size, rfl⟩ := Nat.exists_eq_add_one.mpr enough
    exact if_pos h.2
  | cons ch rest ih =>
    obtain ⟨size, rfl⟩ := Nat.exists_eq_add_one.mpr (Nat.zero_lt_of_lt enough)
    rw [stringAt, h.1, if_neg h.2.1, ih h.2.2.2 (by simpa using enough)]

/-- A loop stops where its test fails first, at the null at the latest. -/
theorem skipWhile_eq {test : BitVec 8 → Option Bool} {goes : BitVec 8 → Bool} {fuel : Nat}
    (tests : ∀ ch, ch ≠ 0 → test ch = some (goes ch)) (stops : test 0 = some false)
    (h : HoldsString memory last s text) (enough : text.length < fuel) :
    skipWhile test memory last fuel s =
      some (s + (text.takeWhile goes).length, (text.dropWhile goes).headD 0) := by
  induction text generalizing s fuel with
  | nil =>
    obtain ⟨fuel, rfl⟩ := Nat.exists_eq_add_one.mpr enough
    rw [skipWhile, readChar, if_pos h.1.le, h.2]
    simp only [Option.bind_eq_bind, Option.bind_some, stops]
    rfl
  | cons ch rest ih =>
    obtain ⟨fuel, rfl⟩ := Nat.exists_eq_add_one.mpr (Nat.zero_lt_of_lt enough)
    rw [skipWhile, readChar, if_pos h.2.2.1.le, h.1]
    cases goesOn : goes ch with
    | true =>
      have later := ih h.2.2.2 (by simpa using enough)
      simp only [Option.bind_eq_bind, Option.bind_some, tests ch h.2.1, goesOn, if_true, later,
        takeWhile_cons, dropWhile_cons, length_cons]
      congr 2
      omega
    | false => simp [tests ch h.2.1, goesOn]

theorem strchr_found (c : BitVec 8) (noNull : 0 ∉ delimiters) : ∃ found,
    strchr c (delimiters ++ [0]) = some found ∧
      found.isSome = decide (c ∈ delimiters ∨ c = 0) := by
  induction delimiters with
  | nil =>
    by_cases null : 0 = c
    · exact ⟨_, if_pos null, (decide_eq_true (.inr null.symm)).symm⟩
    · refine ⟨none, (if_neg null).trans (if_pos rfl), (decide_eq_false ?_).symm⟩
      rintro (no | same)
      · cases no
      · exact null same.symm
  | cons ch rest ih =>
    rw [mem_cons, not_or] at noNull
    by_cases here : ch = c
    · exact ⟨_, if_pos here, (decide_eq_true (.inl (here ▸ mem_cons_self))).symm⟩
    · obtain ⟨found, searched, member⟩ := ih noNull.2
      refine ⟨found, ((if_neg here).trans (if_neg (Ne.symm noNull.1))).trans searched, ?_⟩
      simp only [member, mem_cons, Ne.symm here, false_or]

theorem skipDelimiters_eq (noNull : 0 ∉ delimiters) (h : HoldsString memory last s text) :
    skipDelimiters (delimiters ++ [0]) memory last (last + 1) s =
      some (s + (text.takeWhile (· ∈ delimiters)).length,
        (text.dropWhile (· ∈ delimiters)).headD 0) := by
  have ends := h.last_eq
  refine skipWhile_eq (fun ch other => ?_) ?_ h (by omega)
  · obtain ⟨found, searched, member⟩ := strchr_found ch noNull
    rw [searched, Option.map_some, member, bne_iff_ne.mpr other, Bool.and_true]
    simp only [other, or_false]
  · obtain ⟨found, searched, member⟩ := strchr_found 0 noNull
    rw [searched]
    simp

theorem skipToken_eq (noNull : 0 ∉ delimiters) (h : HoldsString memory last s text) :
    skipToken (delimiters ++ [0]) memory last (last + 1) s =
      some (s + (text.takeWhile (· ∉ delimiters)).length,
        (text.dropWhile (· ∉ delimiters)).headD 0) := by
  have ends := h.last_eq
  refine skipWhile_eq (fun ch other => ?_) ?_ h (by omega)
  · obtain ⟨found, searched, member⟩ := strchr_found ch noNull
    rw [searched, Option.map_some, ← Option.not_isSome, member, decide_not]
    simp only [other, or_false]
  · obtain ⟨found, searched, member⟩ := strchr_found 0 noNull
    rw [searched, Option.map_some, ← Option.not_isSome, member]
    simp

/-- Delimiters in front separate nothing. -/
theorem segments_dropWhile (delimiters text : List (BitVec 8)) :
    segments delimiters text = segments delimiters (text.dropWhile (· ∈ delimiters)) := by
  induction text with
  | nil => rfl
  | cons ch rest ih =>
    by_cases member : ch ∈ delimiters
    · rw [dropWhile_cons_of_pos (by simpa using member), ← ih, segments,
        splitOnP_cons_eq_if_modifyHead, if_pos (by simpa using member)]
      rfl
    · rw [dropWhile_cons_of_neg (by simpa using member)]

/-- The first segment ends at the first delimiter. -/
theorem segments_append {front back : List (BitVec 8)} (some_ : front ≠ [])
    (plain : ∀ x ∈ front, x ∉ delimiters) (ends : ∀ x ∈ back.head?, x ∈ delimiters) :
    segments delimiters (front ++ back) = front :: segments delimiters back.tail := by
  have plain : ∀ x ∈ front, decide (x ∈ delimiters) = false := fun x member =>
    decide_eq_false (plain x member)
  cases back with
  | nil =>
    rw [append_nil, segments, splitOnP_eq_singleton plain,
      filter_cons_of_pos (by simpa using some_)]
    rfl
  | cons sep more =>
    rw [segments, splitOnP_append_cons_of_forall_mem plain sep (decide_eq_true (ends sep rfl)),
      filter_cons_of_pos (by simpa using some_)]
    rfl

/-- One call takes the first segment, if there is one. -/
theorem strtokR_spec (noNull : 0 ∉ delimiters) {t : Tokenizer} {start : Option Nat}
    (h : HoldsString t.memory last (start.getD t.savePtr) text) : ∃ token after rest,
    strtokR (delimiters ++ [0]) last start t = some (token, after) ∧
    HoldsString after.memory last after.savePtr rest ∧ start.getD t.savePtr ≤ after.savePtr ∧
    (∀ a, a < start.getD t.savePtr ∨ last ≤ a → after.memory a = t.memory a) ∧
    token.map (stringAt after.memory (last + 1)) = (segments delimiters text)[0]? ∧
    segments delimiters rest = (segments delimiters text).tail := by
  rw [strtokR, skipDelimiters_eq noNull h, segments_dropWhile]
  rw [← takeWhile_append_dropWhile (p := (· ∈ delimiters)) (l := text)] at h
  have there := h.behind
  have first := head?_dropWhile_not (· ∈ delimiters) text
  generalize text.dropWhile (· ∈ delimiters) = behind at there first
  have onward := Nat.le_add_right (start.getD t.savePtr) (text.takeWhile (· ∈ delimiters)).length
  generalize start.getD t.savePtr + (text.takeWhile (· ∈ delimiters)).length = p at there onward
  cases behind with
  | nil =>
    exact ⟨none, { t with savePtr := p }, [], rfl, there, onward, fun _ _ => rfl, rfl, rfl⟩
  | cons ch behind =>
    have other : ch ∉ delimiters := of_decide_eq_false first
    simp only [Option.bind_eq_bind, Option.bind_some, headD_cons, if_neg there.2.1,
      skipToken_eq noNull there]
    have whole := takeWhile_append_dropWhile (p := (· ∉ delimiters)) (l := ch :: behind)
    have plain : ∀ x ∈ (ch :: behind).takeWhile (· ∉ delimiters), x ∉ delimiters := by
      intro x member
      simpa using mem_takeWhile_imp member
    have some_ : (ch :: behind).takeWhile (· ∉ delimiters) ≠ [] := by
      rw [takeWhile_cons_of_pos (by simpa using other)]
      exact cons_ne_nil _ _
    have ends := head?_dropWhile_not (· ∉ delimiters) (ch :: behind)
    rw [← whole] at there
    generalize (ch :: behind).takeWhile (· ∉ delimiters) = front at whole plain some_ there ⊢
    generalize (ch :: behind).dropWhile (· ∉ delimiters) = back at whole ends there ⊢
    have shorter := there.last_eq
    rw [length_append] at shorter
    cases back with
    | nil =>
      rw [← whole, segments_append some_ plain (by simp)]
      refine ⟨some p, { t with savePtr := p + front.length }, [], rfl, there.behind,
        onward.trans (Nat.le_add_right _ _), fun _ _ => rfl, ?_, rfl⟩
      rw [append_nil] at there
      exact congrArg some (there.stringAt_eq (by omega))
    | cons sep more =>
      have delimiter : sep ∈ delimiters := by simpa using ends
      rw [← whole, segments_append some_ plain (by simpa using delimiter)]
      have second := there.behind
      have inside : p + front.length < last := second.2.2.1
      refine ⟨some p, ⟨update t.memory (p + front.length) 0, p + front.length + 1⟩, more, ?_,
        second.2.2.2.write (Nat.lt_succ_self _),
        onward.trans (Nat.le_add_right p (front.length + 1)), fun a outside => ?_, ?_, rfl⟩
      · rw [headD_cons, if_pos second.2.1, writeChar, if_pos inside.le]
        rfl
      · exact update_of_ne (by omega) _ _
      · exact congrArg some (there.cut.stringAt_eq (by omega))

end

/-- The calls give the segments one after the other, and then a null pointer every time. Each of
them has a result, so none reads or writes behind the null at `last`; memory in front of the
string, that null and what is behind it are as they were. -/
theorem strtok_tokenises (delimiters : CString) (memory : Memory) (s last savePtr : Nat)
    (text : List (BitVec 8)) (h : HoldsString memory last s text) (n : Nat) : ∃ after : Tokenizer,
    tokens (delimiters.bytes ++ [0]) last n (some s) ⟨memory, savePtr⟩ =
      some ((range n).map fun i => (segments delimiters.bytes text)[i]?, after) ∧
    ∀ a, a < s ∨ last ≤ a → after.memory a = memory a := by
  have noNull : 0 ∉ delimiters.bytes := fun null => delimiters.noNull 0 null rfl
  have calls : ∀ (n : Nat) (start : Option Nat) (t : Tokenizer) (text : List (BitVec 8)),
      HoldsString t.memory last (start.getD t.savePtr) text → ∃ after : Tokenizer,
      tokens (delimiters.bytes ++ [0]) last n start t =
        some ((range n).map fun i => (segments delimiters.bytes text)[i]?, after) ∧
      ∀ a, a < start.getD t.savePtr ∨ last ≤ a → after.memory a = t.memory a := by
    intro n
    induction n with
    | zero => exact fun _ t _ _ => ⟨t, rfl, fun _ _ => rfl⟩
    | succ n ih =>
      intro start t text h
      obtain ⟨token, next, rest, taken, held, onward, kept, first, others⟩ :=
        strtokR_spec noNull h
      obtain ⟨after, later, kept'⟩ := ih none next rest held
      refine ⟨after, ?_, fun a outside => ?_⟩
      · rw [tokens, taken]
        simp only [Option.bind_eq_bind, Option.bind_some, later, first, others,
          range_succ_eq_map, map_cons, map_map, getElem?_tail]
        rfl
      · rw [kept' a (outside.imp_left fun below => below.trans_le onward), kept a outside]
  exact calls n (some s) ⟨memory, savePtr⟩ text h

theorem strtok_tokenises_words :
    let memory : Memory := fun i => (ascii "/a//bc/").getD (i - 100) 0
    HoldsString memory 107 100 (ascii "/a//bc/") ∧ ∃ after : Tokenizer,
    tokens (ascii "/" ++ [0]) 107 3 (some 100) ⟨memory, 0⟩ =
      some ([some (ascii "a"), some (ascii "bc"), none], after) ∧
    ∀ a, a < 100 ∨ 107 ≤ a → after.memory a = memory a := by
  have held : HoldsString (fun i => (ascii "/a//bc/").getD (i - 100) 0) 107 100
      (ascii "/a//bc/") := by
    refine ⟨rfl, by decide, by decide, rfl, by decide, by decide, rfl, by decide, by decide, rfl,
      by decide, by decide, rfl, by decide, by decide, rfl, by decide, by decide, rfl, by decide,
      by decide, rfl, rfl⟩
  exact ⟨held, strtok_tokenises ⟨ascii "/", by decide⟩ _ 100 107 0 _ held 3⟩

end Calendarizador.Guarantees
