import Mathlib.Data.Nat.Basic

/-!
# Integer conversions of printf

`format_integer` of `lib/stdio.c`, and what `vsnprintf` stores of its output. The buffer is
the list of its characters in the order in which they are stored, so the last digit comes
first; a `uintmax_t` has at most 64 digits.
-/
namespace Calendarizador.Source

/-- The characters of the text. -/
def ascii (text : String) : List (BitVec 8) := text.toList.map fun c => BitVec.ofNat 8 c.toNat

/-- `struct printf_conversion`, with one field for each flag. -/
structure PrintfConversion where
  minus : Bool
  plus : Bool
  space : Bool
  pound : Bool
  zero : Bool
  group : Bool
  width : Nat
  /-- `-1` if there is none -/
  precision : Int

/-- `struct integer_base`; `x` is 0 if there is none. -/
structure IntegerBase where
  base : Nat
  digits : List (BitVec 8)
  x : BitVec 8
  group : Nat

def baseO : IntegerBase := ⟨8, ascii "01234567", 0, 3⟩

/-- The sign character; 0 if there is none. -/
def signChar (isSigned negative : Bool) (c : PrintfConversion) : BitVec 8 :=
  if isSigned then
    if c.plus then if negative then 45 else 43
    else if c.space then if negative then 45 else 32
    else if negative then 45
    else 0
  else 0

/-- The loop that accumulates the digits, for at most `fuel` rounds. -/
def digitLoop (b : IntegerBase) (c : PrintfConversion) : Nat → Nat → Nat → List (BitVec 8)
  | 0, _, _ => []
  | fuel + 1, value, digitCnt =>
    if value > 0 then
      let comma := if c.group ∧ digitCnt > 0 ∧ digitCnt % b.group = 0 then [44] else []
      comma ++ b.digits.getD (value % b.base) 0 ::
        digitLoop b c fuel (value / b.base) (digitCnt + 1)
    else []

/-- The buffer after the zeros of the precision and of the `#` flag. -/
def digitBuffer (value : Nat) (b : IntegerBase) (c : PrintfConversion) : List (BitVec 8) :=
  let buf := digitLoop b c 64 value 0
  let precision := if c.precision < 0 then 1 else c.precision.toNat
  let buf := buf ++ List.replicate (min precision 63 - buf.length) 48
  if c.pound ∧ b.base = 8 ∧ buf.getLast? ≠ some 48 then buf ++ [48] else buf

/-- `format_integer`; the characters it puts out. -/
def formatInteger (value : Nat) (isSigned negative : Bool) (b : IntegerBase)
    (c : PrintfConversion) : List (BitVec 8) :=
  let sign := signChar isSigned negative c
  let x := if c.pound ∧ value ≠ 0 then b.x else 0
  let buf := digitBuffer value b c
  let padCnt := c.width - buf.length - (if x ≠ 0 then 2 else 0) - if sign ≠ 0 then 1 else 0
  (if c.minus ∨ c.zero then [] else List.replicate padCnt 32) ++
    (if sign ≠ 0 then [sign] else []) ++ (if x ≠ 0 then [48, x] else []) ++
    (if c.zero then List.replicate padCnt 48 else []) ++ buf.reverse ++
    if c.minus then List.replicate padCnt 32 else []

/-- What `vsnprintf` stores in front of the null byte. -/
def vsnprintf (bufSize : Nat) (output : List (BitVec 8)) : List (BitVec 8) :=
  output.take (bufSize - 1)

/-- `%0<width>o` -/
def zeroPadded (width : Nat) : PrintfConversion where
  minus := false
  plus := false
  space := false
  pound := false
  zero := true
  group := false
  width := width
  precision := -1

end Calendarizador.Source
