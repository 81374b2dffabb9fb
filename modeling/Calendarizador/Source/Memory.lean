import Calendarizador.Foundation.Bytes
import Calendarizador.Foundation.Transition
import Mathlib.Logic.Function.Basic
import Mathlib.Tactic.NormNum

/-!
# Halting, rounding, addresses and blocks of bytes

`ASSERT`, `NOT_REACHED` and `PANIC` of `lib/debug.h`, the macros of `lib/round.h`, the pages of
`threads/vaddr.h`, and `memset` and `memcpy` of `lib/string.c`. An address is the number of a
byte of the 4 GB address space.
-/
namespace Calendarizador.Source
open Foundation

/-- The ways in which a call does not return. -/
inductive Halt where
  | assertion | notReached | nullPointer | panic (message : String)
  /-- A loop goes on after the rounds it was given. -/
  | unfinished
  deriving DecidableEq, Repr

/-- `ASSERT (condition)` -/
def ensure (condition : Prop) [Decidable condition] : Except Halt Unit :=
  if condition then .ok () else .error .assertion

theorem ensure_pos {condition : Prop} [Decidable condition] (holds : condition) :
    ensure condition = .ok () := if_pos holds

theorem ensure_bind {α : Type} {condition : Prop} [Decidable condition] (holds : condition)
    (next : Unit → Except Halt α) : (ensure condition >>= next) = next () := by
  rw [ensure_pos holds]
  rfl

/-- What a `size_t` holds after the exact result `x` is stored. -/
def sizeT (x : Nat) : Nat := x % 4294967296

theorem sizeT_of_lt {x : Nat} (h : x < 4294967296) : sizeT x = x := Nat.mod_eq_of_lt h

def divRoundUp (x step : Nat) : Nat := (x + step - 1) / step

def pgSize : Nat := 4096

/-- `PHYS_BASE`, the end of the user address space. -/
def physBase : Nat := 3221225472

def pgOfs (va : Nat) : Nat := va % pgSize

def pgNo (va : Nat) : Nat := va / pgSize

def ptov (paddr : Nat) : Except Halt Nat := do
  ensure (paddr < physBase)
  .ok (sizeT (paddr + physBase))

/-! ## Blocks of bytes -/

abbrev Memory := Nat → BitVec 8

/-- `memset (dst, value, size)` -/
def memset (memory : Memory) (dst : Nat) (value : BitVec 8) (size : Nat) : Memory :=
  fun a => if dst ≤ a ∧ a < dst + size then value else memory a

/-- The loop of `memcpy`, and of `memmove` upwards: the memory, and where `dst` is in the end. -/
def copyUp (memory : Memory) (dst src : Nat) : Nat → Memory × Nat
  | 0 => (memory, dst)
  | size + 1 => copyUp (Function.update memory dst (memory src)) (dst + 1) (src + 1) size

/-- `memcpy (dst, src, size)`, one byte after the other. -/
def memcpy (memory : Memory) (dst src size : Nat) : Memory := (copyUp memory dst src size).1

section
variable {memory : Memory} {a dst src size : Nat}

theorem memset_outside {value : BitVec 8} (outside : ¬ (dst ≤ a ∧ a < dst + size)) :
    memset memory dst value size a = memory a :=
  if_neg outside

/-- Upwards no byte is overwritten before it is read if the source is above, or wholly below. -/
theorem copyUp_eq (size : Nat) (apart : dst ≤ src ∨ src + size ≤ dst) :
    copyUp memory dst src size =
      (splice memory dst size fun i => memory (src + i), dst + size) := by
  induction size generalizing memory dst src with
  | zero => rw [copyUp, splice_zero, Nat.add_zero]
  | succ size ih =>
    rw [copyUp, ih (by omega)]
    refine Prod.ext (funext fun a => ?_) (by omega)
    dsimp only [splice]
    by_cases first : a = dst
    · rw [first, if_neg (by omega), if_pos (by omega), Function.update_self, Nat.sub_self,
        Nat.add_zero]
    · rw [Function.update_of_ne first]
      by_cases inside : dst + 1 ≤ a ∧ a < dst + 1 + size
      · rw [if_pos inside, if_pos (by omega), Function.update_of_ne (by omega)]
        congr 1
        omega
      · rw [if_neg inside, if_neg (by omega)]

end

end Calendarizador.Source
