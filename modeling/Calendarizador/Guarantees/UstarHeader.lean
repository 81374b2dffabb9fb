import Calendarizador.Invariant.UstarHeader

/-!
# Headers of archives

A header that `ustar_make_header` made is read back by `ustar_parse_header`, and a header with
one damaged byte is either rejected or still says the same.
-/
namespace Calendarizador.Guarantees
open Foundation Source Ustar Function List

/-! ## The fields of a header -/

section
variable (name : CString) (type : UstarType) (size : Int) {i : Nat}

/-- Byte by byte, the field that was stored last first. -/
theorem fillHeader_apply (x : Nat) : fillHeader name type size x =
    if 265 ≤ x ∧ x < 269 then (ascii "root").getD (x - 265) 0
    else if 297 ≤ x ∧ x < 301 then (ascii "root").getD (x - 297) 0
    else if 263 ≤ x ∧ x < 265 then (ascii "00").getD (x - 263) 0
    else if 257 ≤ x ∧ x < 262 then (ascii "ustar").getD (x - 257) 0
    else if 156 ≤ x ∧ x < 157 then [type.flag].getD (x - 156) 0
    else if 136 ≤ x ∧ x < 147 then (octal 11 1136102400).getD (x - 136) 0
    else if 124 ≤ x ∧ x < 135 then (octal 11 (size % 4294967296).toNat).getD (x - 124) 0
    else if 116 ≤ x ∧ x < 123 then (ascii "0000000").getD (x - 116) 0
    else if 108 ≤ x ∧ x < 115 then (ascii "0000000").getD (x - 108) 0
    else if 100 ≤ x ∧ x < 107 then
      (octal 7 (if type = .regular then 420 else 493)).getD (x - 100) 0
    else if x < name.bytes.length then name.bytes.getD x 0
    else 0 := by
  simp only [fillHeader, store, splice, length_octal, length_singleton, Nat.zero_le,
    true_and, Nat.zero_add, Nat.sub_zero]
  rfl

/-- The header with its checksum. -/
def fullHeader : UstarHeader :=
  store (fillHeader name type size) 148 (octal 7 (calculateChksum (fillHeader name type size)))

theorem fullHeader_apply (x : Nat) : fullHeader name type size x =
    if 148 ≤ x ∧ x < 155 then
      (octal 7 (calculateChksum (fillHeader name type size))).getD (x - 148) 0
    else fillHeader name type size x := by
  simp only [fullHeader, store, splice, length_octal]

variable {name size}

theorem fullHeader_name (inside : i < 100) : fullHeader name type size i = name.bytes.getD i 0 := by
  rw [fullHeader_apply, fillHeader_apply]
  repeat rw [if_neg (by omega)]
  split
  · rfl
  · rename_i beyond
    rw [getD_eq_default _ _ (by omega)]

theorem fullHeader_chksum (inside : i < 7) : fullHeader name type size (148 + i) =
    (octal 7 (calculateChksum (fillHeader name type size))).getD i 0 := by
  rw [fullHeader_apply, if_pos (by omega), Nat.add_sub_cancel_left]

theorem fullHeader_size (inside : i < 11) : fullHeader name type size (124 + i) =
    (octal 11 (size % 4294967296).toNat).getD i 0 := by
  rw [fullHeader_apply, fillHeader_apply]
  repeat rw [if_neg (by omega)]
  rw [if_pos (by omega), Nat.add_sub_cancel_left]

theorem fullHeader_typeflag : fullHeader name type size 156 = type.flag := by
  rw [fullHeader_apply, fillHeader_apply]
  repeat rw [if_neg (by decide)]
  rfl

theorem fullHeader_magic (short : name.bytes.length ≤ 99) :
    (List.range 6).map (fun i => fullHeader name type size (257 + i)) = ascii "ustar" ++ [0] := by
  have text : ∀ i < 5, fullHeader name type size (257 + i) = (ascii "ustar").getD i 0 := by
    intro i inside
    rw [fullHeader_apply, fillHeader_apply]
    repeat rw [if_neg (by omega)]
    rw [if_pos (by omega), Nat.add_sub_cancel_left]
  have null : fullHeader name type size 262 = 0 := by
    rw [fullHeader_apply, fillHeader_apply]
    repeat rw [if_neg (by omega)]
  simp only [range_succ, range_zero, nil_append, map_append, map_cons,
    map_nil]
  rw [text 0 (by decide), text 1 (by decide), text 2 (by decide), text 3 (by decide),
    text 4 (by decide), null]
  decide

theorem fullHeader_version :
    fullHeader name type size 263 = 48 ∧ fullHeader name type size 264 = 48 := by
  constructor
  all_goals
    rw [fullHeader_apply, fillHeader_apply]
    repeat rw [if_neg (by decide)]
    rw [if_pos (by decide)]
    decide

/-- Nothing is stored behind the last field, nor between an octal field and the next one. -/
theorem fullHeader_null (short : name.bytes.length ≤ 99) {x : Nat}
    (gap : x = 99 ∨ x = 135 ∨ x = 155 ∨ x = 345) : fullHeader name type size x = 0 := by
  rw [fullHeader_apply, fillHeader_apply]
  repeat rw [if_neg (by omega)]

/-- The name field read up to its null byte. -/
theorem nameOf_fullHeader (short : name.bytes.length ≤ 99) :
    nameOf (fullHeader name type size) = name := by
  have field : (List.range 100).map (fullHeader name type size) =
      name.bytes ++ List.replicate (100 - name.bytes.length) 0 := by
    refine ext_getElem (by simp; omega) fun i below _ => ?_
    have inside : i < 100 := by simpa using below
    rw [getElem_map, getElem_range, fullHeader_name type inside]
    rw [getD_eq_getElem?_getD, getElem_append]
    split
    · rename_i within
      rw [List.getElem?_eq_getElem within, Option.getD_some]
    · rename_i beyond
      rw [List.getElem?_eq_none (Nat.le_of_not_lt beyond), getElem_replicate]
      rfl
  refine CString.ext ?_
  unfold nameOf
  dsimp only
  obtain ⟨more, some_⟩ : ∃ n, 100 - name.bytes.length = n + 1 :=
    ⟨99 - name.bytes.length, by omega⟩
  rw [field, some_, replicate_succ, takeWhile_append_of_pos]
  · simp
  · intro b member
    simpa using name.noNull b member

end

/-! ## Round trip -/

/-- What `ustar_parse_header` should find in the header of a file. -/
def entryFor (name : CString) (type : UstarType) (size : Int) : Entry :=
  if type = .regular then .regular name size.toNat else .directory name 0

theorem parseHeader_fullHeader {name : CString} (short : name.bytes.length ≤ 99) {type : UstarType}
    (kind : type = .regular ∨ type = .directory) {size : Int} (low : 0 ≤ size)
    (high : size ≤ 2147483647) : parseHeader (fullHeader name type size) =
      .ok (entryFor (stripAntisocialPrefixes name) type size) := by
  have notZero : ¬ isAllZeros (fullHeader name type size) 512 = true := by
    intro zeros
    have byte := (all_eq_true.mp zeros) 263 (by simp)
    rw [(fullHeader_version type).1] at byte
    revert byte
    decide
  have version : ¬ (fullHeader name type size 263 ≠ 48 ∨ fullHeader name type size 264 ≠ 48) := by
    rintro (first | second)
    · exact first (fullHeader_version type).1
    · exact second (fullHeader_version type).2
  have few := calculateChksum_le (fillHeader name type size)
  have chksum : parseOctalField (fun i => fullHeader name type size (148 + i)) 8 =
      some (calculateChksum (fillHeader name type size)) :=
    parseOctalField_octal (by omega) (by omega) (fun i inside => fullHeader_chksum type inside)
      (fullHeader_null type short (by decide)) (by decide) (by decide)
  have sum : calculateChksum (fullHeader name type size) =
      calculateChksum (fillHeader name type size) := by
    refine calculateChksum_congr fun i _ outside => ?_
    rw [fullHeader_apply, if_neg (by omega)]
  have ends : ¬ (fullHeader name type size 99 ≠ 0 ∨ fullHeader name type size 345 ≠ 0) := by
    rintro (first | second)
    · exact first (fullHeader_null type short (by decide))
    · exact second (fullHeader_null type short (by decide))
  have length : parseOctalField (fun i => fullHeader name type size (124 + i)) 12 =
      some size.toNat := by
    have small : (size % 4294967296).toNat = size.toNat := by omega
    have field := parseOctalField_octal (s := fun i => fullHeader name type size (124 + i))
      (show size.toNat < 8 ^ 11 by omega) (by omega)
      (fun i inside => small ▸ fullHeader_size type inside)
      (fullHeader_null type short (by decide)) (by decide) (show 11 < 12 by decide)
    exact field
  unfold parseHeader
  rw [if_neg notZero, if_neg (not_not.mpr (fullHeader_magic type short)), if_neg version, chksum]
  simp only [sum, ne_eq, not_true_eq_false, if_false, if_neg ends, fullHeader_typeflag,
    nameOf_fullHeader type short, length]
  rcases kind with rfl | rfl
  · rw [if_pos rfl, if_neg (by omega)]
    rfl
  · rfl

/-- `ustar_make_header` fails exactly for a name that is too long; else `ustar_parse_header`
gives back the stripped name, the type, and the size of a regular file. -/
theorem header_round_trip (fileName : CString) (type : UstarType)
    (kind : type = .regular ∨ type = .directory) (size : Int) (low : 0 ≤ size)
    (high : size ≤ 2147483647) :
    (makeHeader fileName type size = .ok none ↔
      99 < (stripAntisocialPrefixes fileName).bytes.length) ∧
    ((stripAntisocialPrefixes fileName).bytes.length ≤ 99 →
      ∃ h, makeHeader fileName type size = .ok (some h) ∧
        parseHeader h = .ok (entryFor (stripAntisocialPrefixes fileName) type size)) := by
  have made : makeHeader fileName type size =
      if (stripAntisocialPrefixes fileName).bytes.length > 99 then .ok none
      else .ok (some (fullHeader (stripAntisocialPrefixes fileName) type size)) := by
    unfold makeHeader
    rw [ensure_bind kind]
    rfl
  rw [made]
  refine ⟨?_, fun short => ⟨_, if_neg (Nat.not_lt.mpr short), ?_⟩⟩
  · split
    · rename_i long
      exact iff_of_true rfl long
    · rename_i short
      exact iff_of_false (by simp) short
  · rw [parseHeader_fullHeader short kind low high, strip_strip]

/-- The file `/../a` of 77 bytes is `a` in the archive. -/
theorem header_round_trip_slash : ∃ (fileName : CString) (h : UstarHeader),
    fileName.bytes = ascii "/../a" ∧ makeHeader fileName .regular 77 = .ok (some h) ∧
    parseHeader h = .ok (.regular ⟨ascii "a", by decide⟩ 77) := by
  have stripped : stripAntisocialPrefixes ⟨ascii "/../a", by decide⟩ = ⟨ascii "a", by decide⟩ :=
    CString.ext (by decide)
  have short : (stripAntisocialPrefixes ⟨ascii "/../a", by decide⟩).bytes.length ≤ 99 := by
    decide
  obtain ⟨h, made, parsed⟩ := (header_round_trip ⟨ascii "/../a", by decide⟩ .regular (.inl rfl) 77
    (by decide) (by decide)).2 short
  rw [stripped] at parsed
  exact ⟨_, h, rfl, made, parsed⟩

/-! ## Damage -/

section
variable {h h' : UstarHeader}

/-- The end of `ustar_parse_header`, behind the comparison of the checksums. -/
def contents (h : UstarHeader) : Except String Entry :=
  if h 99 ≠ 0 ∨ h 345 ≠ 0 then .error "file name too long"
  else if h 156 = UstarType.regular.flag then
    match parseOctalField (fun i => h (124 + i)) 12 with
    | none => .error "corrupt file size field"
    | some size =>
      if size > 2147483647 then .error "file too large"
      else .ok (.regular (stripAntisocialPrefixes (nameOf h)) size)
  else if h 156 = UstarType.directory.flag then
    .ok (.directory (stripAntisocialPrefixes (nameOf h)) 0)
  else .error "unimplemented file type"

/-- The part that does not look at the field of the checksum. -/
theorem contents_congr (same : ∀ i < 512, ¬ (148 ≤ i ∧ i < 148 + 8) → h' i = h i) :
    contents h' = contents h := by
  have name : nameOf h' = nameOf h := by
    refine CString.ext ?_
    unfold nameOf
    dsimp only
    congr 1
    refine map_congr_left fun i inside => ?_
    have below := mem_range.mp inside
    exact same i (by omega) (by omega)
  have size : parseOctalField (fun i => h' (124 + i)) 12 =
      parseOctalField (fun i => h (124 + i)) 12 :=
    parseOctalField_congr fun i inside => same (124 + i) (by omega) (by omega)
  unfold contents
  rw [name, size, same 99 (by decide) (by decide), same 345 (by decide) (by decide),
    same 156 (by decide) (by decide)]

/-- The checks in front of the contents. -/
structure Valid (h : UstarHeader) : Prop where
  magic : (List.range 6).map (fun i => h (257 + i)) = ascii "ustar" ++ [0]
  version : h 263 = 48 ∧ h 264 = 48
  chksum : parseOctalField (fun i => h (148 + i)) 8 = some (calculateChksum h)

/-- What is accepted is the end of the archive or passes every check. -/
theorem parseHeader_cases (h : UstarHeader) : (isAllZeros h 512 = true ∧ parseHeader h = .ok .eof) ∨
    (isAllZeros h 512 = false ∧ Valid h ∧ parseHeader h = contents h) ∨
    (isAllZeros h 512 = false ∧ ¬ Valid h ∧ ∃ message, parseHeader h = .error message) := by
  cases zeros : isAllZeros h 512 with
  | true => exact .inl ⟨rfl, if_pos zeros⟩
  | false =>
    refine .inr ?_
    unfold parseHeader
    rw [if_neg (by simp [zeros])]
    by_cases magic : (List.range 6).map (fun i => h (257 + i)) = ascii "ustar" ++ [0]
    swap
    · exact .inr ⟨rfl, fun valid => magic valid.magic, _, if_pos magic⟩
    rw [if_neg (not_not.mpr magic)]
    by_cases version : h 263 ≠ 48 ∨ h 264 ≠ 48
    · refine .inr ⟨rfl, fun valid => ?_, _, if_pos version⟩
      rcases version with first | second
      · exact first valid.version.1
      · exact second valid.version.2
    rw [if_neg version]
    cases chksum : parseOctalField (fun i => h (148 + i)) 8 with
    | none =>
      refine .inr ⟨rfl, fun valid => ?_, _, rfl⟩
      cases chksum.symm.trans valid.chksum
    | some sum =>
      by_cases equal : sum = calculateChksum h
      · refine .inl ⟨rfl, ⟨magic, ?_, equal ▸ chksum⟩, if_neg (not_not.mpr equal)⟩
        simpa only [not_or, not_not] using version
      · refine .inr ⟨rfl, fun valid => ?_, _, if_pos equal⟩
        exact equal (Option.some.inj (chksum.symm.trans valid.chksum))

/-- Two bytes of the magic are enough to tell a header from the end of an archive. -/
theorem Valid.two_bytes (valid : Valid h) : h 257 = 117 ∧ h 258 = 115 := by
  have first := congrArg (fun chars => chars.getD 0 0) valid.magic
  have second := congrArg (fun chars => chars.getD 1 0) valid.magic
  exact ⟨first, second⟩

theorem isAllZeros_byte (zeros : isAllZeros h 512 = true) {i : Nat} (inside : i < 512) :
    h i = 0 := by
  have byte := all_eq_true.mp zeros i (mem_range.mpr inside)
  exact beq_iff_eq.mp byte

end

/-- A header that is accepted, with one other byte, is rejected or read as before. -/
theorem header_integrity (h h' : UstarHeader) (e : Entry) (accepted : parseHeader h = .ok e)
    (i : Nat) (inside : i < 512) (other : h' i ≠ h i) (same : ∀ j < 512, j ≠ i → h' j = h j) :
    (∃ message, parseHeader h' = .error message) ∨ parseHeader h' = .ok e := by
  have twice (g g' : UstarHeader) (same : ∀ j < 512, j ≠ i → g' j = g j)
      (zeros : isAllZeros g 512 = true) (valid : Valid g') : False := by
    obtain ⟨first, second⟩ := valid.two_bytes
    by_cases here : i = 257
    · rw [same 258 (by decide) (by omega), isAllZeros_byte zeros (by decide)] at second
      revert second
      decide
    · rw [same 257 (by decide) (Ne.symm here), isAllZeros_byte zeros (by decide)] at first
      revert first
      decide
  rcases parseHeader_cases h' with ⟨zeros', -⟩ | ⟨-, valid', parsed'⟩ | ⟨-, -, rejected⟩
  · rcases parseHeader_cases h with ⟨zeros, -⟩ | ⟨-, valid, -⟩ | ⟨-, -, message, rejected⟩
    · refine absurd ?_ other
      rw [isAllZeros_byte zeros' inside, isAllZeros_byte zeros inside]
    · exact (twice h' h (fun j below apart => (same j below apart).symm) zeros' valid).elim
    · cases accepted.symm.trans rejected
  · rcases parseHeader_cases h with ⟨zeros, -⟩ | ⟨-, valid, parsed⟩ | ⟨-, -, message, rejected⟩
    · exact (twice h h' same zeros valid').elim
    · by_cases field : 148 ≤ i ∧ i < 148 + 8
      · -- the field of the checksum itself: the contents are the same bytes
        right
        rw [parsed', ← accepted, parsed]
        refine contents_congr fun j below outside => same j below ?_
        rintro rfl
        exact outside field
      · -- the stored checksum is the old one, the computed one is not
        refine (calculateChksum_ne inside field other same ?_).elim
        have stored : parseOctalField (fun j => h' (148 + j)) 8 =
            parseOctalField (fun j => h (148 + j)) 8 :=
          parseOctalField_congr fun j below => same (148 + j) (by omega) (by omega)
        rw [valid.chksum, valid'.chksum] at stored
        exact Option.some.inj stored
    · cases accepted.symm.trans rejected
  · exact .inl rejected

/-- The header of the file `a`, with the first byte of the field of the size damaged. -/
theorem header_integrity_size : ∃ (h h' : UstarHeader) (e : Entry), parseHeader h = .ok e ∧
    h' 124 = 56 ∧ ((∃ message, parseHeader h' = .error message) ∨ parseHeader h' = .ok e) := by
  let h := fullHeader ⟨ascii "a", by decide⟩ .regular 77
  have accepted : parseHeader h = .ok _ :=
    parseHeader_fullHeader (by decide) (.inl rfl) (by decide) (by decide)
  have other : update h 124 56 124 ≠ h 124 := by
    have zero : h 124 = (octal 11 77).getD 0 0 :=
      fullHeader_size .regular (show 0 < 11 by decide)
    rw [update_self, zero]
    decide
  exact ⟨h, update h 124 56, _, accepted, update_self 124 56 h,
    header_integrity h _ _ accepted 124 (by decide) other
      fun j _ apart => update_of_ne apart _ _⟩

end Calendarizador.Guarantees
