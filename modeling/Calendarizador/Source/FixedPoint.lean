import Calendarizador.Foundation.MachineInt

/-!
# 17.14 fixed point

`threads/fixedpoint.h`. A fixed-point number is a C `int`; every intermediate `int` is
stored through `i32`, every `int64_t` through `i64`, and `/` truncates toward zero.
`divFp` is only the quotient: its caller decides what a zero divisor does.
-/
namespace Calendarizador.Source
open Foundation

/-- `F`, that is 1.0 in 17.14 format. -/
def fpOne : Int := 16384

def intToFp (n : Int) : Int := i32 (n * fpOne)

def fpToInt (x : Int) : Int := x.tdiv fpOne

/-- Rounds to nearest by moving half a unit away from zero before truncating. -/
def fpToIntRound (x : Int) : Int :=
  if x ≥ 0 then (i32 (x + fpOne / 2)).tdiv fpOne else (i32 (x - fpOne / 2)).tdiv fpOne

def addFp (x y : Int) : Int := i32 (x + y)

def addInt (x n : Int) : Int := i32 (x + i32 (n * fpOne))

def subFp (x y : Int) : Int := i32 (x - y)

def subInt (x n : Int) : Int := i32 (x - i32 (n * fpOne))

def multFp (x y : Int) : Int := i32 ((i64 (x * y)).tdiv fpOne)

def multInt (x n : Int) : Int := i32 (x * n)

def divFp (x y : Int) : Int := i32 ((i64 (x * fpOne)).tdiv y)

def divInt (x n : Int) : Int := x.tdiv n

/-- Adding 1.0 always changes a number, also when the addition wraps. -/
theorem addInt_one_ne (x : Int) : addInt x 1 ≠ x := by
  unfold addInt fpOne i32
  omega

end Calendarizador.Source
