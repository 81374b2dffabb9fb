import Calendarizador.Source.Directory
import Calendarizador.Source.Printf

/-!
# Headers of ustar archives

`lib/ustar.c`. A `struct ustar_header` is its 512 bytes; the fields are at the offsets
`name` 0, `mode` 100, `uid` 108, `gid` 116, `size` 124, `mtime` 136, `chksum` 148,
`typeflag` 156, `magic` 257, `version` 263, `uname` 265, `gname` 297 and `prefix` 345.
-/
namespace Calendarizador.Source
open Foundation

/-- `enum ustar_type` -/
inductive UstarType where
  | regular | directory | eof
  deriving DecidableEq, Repr

/-- The byte of the type in a header. -/
def UstarType.flag : UstarType → BitVec 8
  | .regular => 48
  | .directory => 53
  | .eof => 255

abbrev UstarHeader := Nat → BitVec 8

/-- The text of the string, for a message. -/
def CString.text (s : CString) : String := .ofList (s.bytes.map fun b => Char.ofNat b.toNat)

namespace Ustar

def calculateChksum (h : UstarHeader) : Nat :=
  (List.range 512).foldl (fun chksum i =>
    chksum + if 148 ≤ i ∧ i < 148 + 8 then 32 else (h i).toNat) 0

/-- The loop of `strip_antisocial_prefixes`: it goes on behind the first slash. -/
def stripLoop : Nat → List (BitVec 8) → List (BitVec 8)
  | 0, name => name
  | fuel + 1, name =>
    if name.head? = some 47 ∨ name.take 2 = [46, 47] ∨ name.take 3 = [46, 46, 47] then
      stripLoop fuel ((name.dropWhile (· != 47)).drop 1)
    else name

theorem stripLoop_suffix {fuel : Nat} {name : List (BitVec 8)} : stripLoop fuel name <:+ name := by
  induction fuel generalizing name with
  | zero => exact List.suffix_refl name
  | succ fuel ih =>
    unfold stripLoop
    split
    · exact ih.trans ((List.drop_suffix 1 _).trans (List.dropWhile_suffix _))
    · exact List.suffix_refl name

theorem mem_stripLoop {fuel : Nat} {name : List (BitVec 8)} {b : BitVec 8}
    (member : b ∈ stripLoop fuel name) : b ∈ name := stripLoop_suffix.mem member

def stripAntisocialPrefixes (fileName : CString) : CString :=
  if stripLoop fileName.bytes.length fileName.bytes = [] ∨
      stripLoop fileName.bytes.length fileName.bytes = [46, 46] then ⟨[46], by decide⟩
  else ⟨stripLoop fileName.bytes.length fileName.bytes,
    fun b member => fileName.noNull b (mem_stripLoop member)⟩

theorem length_strip (fileName : CString) :
    (stripAntisocialPrefixes fileName).bytes.length ≤ fileName.bytes.length + 1 := by
  unfold stripAntisocialPrefixes
  split
  · exact Nat.le_add_left 1 _
  · exact stripLoop_suffix.length_le.trans (Nat.le_succ _)

/-- What `snprintf` prints for `%0wo`, for a number of at most `width` octal digits. -/
def octal (width value : Nat) : List (BitVec 8) :=
  (List.range width).map fun i => BitVec.ofNat 8 (48 + value / 8 ^ (width - 1 - i) % 8)

/-- The characters are stored from the offset on. -/
def store (h : UstarHeader) (ofs : Nat) (chars : List (BitVec 8)) : UstarHeader :=
  splice h ofs chars.length fun i => chars.getD i 0

/-- The header but for its checksum. Every text field ends with a null byte since the header
is cleared first. -/
def fillHeader (name : CString) (type : UstarType) (size : Int) : UstarHeader :=
  let h := store (fun _ => 0) 0 name.bytes
  let h := store h 100 (octal 7 (if type = .regular then 420 else 493))
  let h := store h 108 (ascii "0000000")
  let h := store h 116 (ascii "0000000")
  let h := store h 124 (octal 11 (size % 4294967296).toNat)
  let h := store h 136 (octal 11 1136102400)
  let h := store h 156 [type.flag]
  let h := store h 257 (ascii "ustar")
  let h := store h 263 (ascii "00")
  let h := store h 297 (ascii "root")
  store h 265 (ascii "root")

/-- `ustar_make_header`; `none` if the name is too long. -/
def makeHeader (fileName : CString) (type : UstarType) (size : Int) :
    Except Halt (Option UstarHeader) := do
  ensure (type = .regular ∨ type = .directory)
  let name := stripAntisocialPrefixes fileName
  if name.bytes.length > 99 then .ok none
  else
    let h := fillHeader name type size
    .ok (some (store h 148 (octal 7 (calculateChksum h))))

/-- The loop of `parse_octal_field` from the offset `ofs` on, with `more` bytes to go. -/
def parseOctalFrom (s : Nat → BitVec 8) (ofs : Nat) : Nat → Nat → Option Nat
  | 0, _ => none
  | more + 1, value =>
    let c := s ofs
    if 48 ≤ c ∧ c ≤ 55 then
      if value > 4294967295 / 8 then none
      else parseOctalFrom s (ofs + 1) more (c.toNat - 48 + value * 8)
    else if c = 32 ∨ c = 0 then if ofs > 0 then some value else none
    else none

def parseOctalField (s : Nat → BitVec 8) (size : Nat) : Option Nat :=
  parseOctalFrom s 0 size 0

def isAllZeros (block : Nat → BitVec 8) (cnt : Nat) : Bool :=
  (List.range cnt).all fun i => block i == 0

/-- What `ustar_parse_header` stores: for `USTAR_EOF` a null pointer as the name and the size 0. -/
inductive Entry where
  | eof
  | directory (fileName : CString) (size : Nat)
  | regular (fileName : CString) (size : Nat)

/-- The string at the beginning of the field. -/
def nameOf (h : UstarHeader) : CString where
  bytes := ((List.range 100).map h).takeWhile (· != 0)
  noNull b member := by simpa using List.mem_takeWhile_imp member

/-- `ustar_parse_header` -/
def parseHeader (h : UstarHeader) : Except String Entry :=
  if isAllZeros h 512 then .ok .eof
  else if ¬ (List.range 6).map (fun i => h (257 + i)) = ascii "ustar" ++ [0] then
    .error "not a ustar archive"
  else if h 263 ≠ 48 ∨ h 264 ≠ 48 then .error "invalid ustar version"
  else
    match parseOctalField (fun i => h (148 + i)) 8 with
    | none => .error "corrupt chksum field"
    | some chksum =>
      if chksum ≠ calculateChksum h then .error "checksum mismatch"
      else if h 99 ≠ 0 ∨ h 345 ≠ 0 then .error "file name too long"
      else if h 156 = UstarType.regular.flag then
        match parseOctalField (fun i => h (124 + i)) 12 with
        | none => .error "corrupt file size field"
        | some size =>
          if size > 2147483647 then .error "file too large"
          else .ok (.regular (stripAntisocialPrefixes (nameOf h)) size)
      else if h 156 = UstarType.directory.flag then
        .ok (.directory (stripAntisocialPrefixes (nameOf h)) 0)
      else .error "unimplemented file type"

end Ustar
end Calendarizador.Source
