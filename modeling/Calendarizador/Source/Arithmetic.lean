import Mathlib.Algebra.Group.Nat.Defs

/-!
# 64-bit division

`lib/arithmetic.c`. The instruction DIVL divides a 64-bit by a 32-bit number and traps if the
quotient has more than 32 bits; `none` is that trap.
-/
namespace Calendarizador.Source

def divl (n : BitVec 64) (d : BitVec 32) : Option (BitVec 32) :=
  if d ≠ 0 ∧ n.toNat / d.toNat < 4294967296 then some (BitVec.ofNat 32 (n.toNat / d.toNat))
  else none

/-- One test of `nlz`: of the counted zeros and the shifted number. -/
def nlzTest (w : Nat) (p : Nat × BitVec 32) : Nat × BitVec 32 :=
  if p.2.toNat ≤ 2 ^ (32 - w) - 1 then (p.1 + w, p.2 <<< w) else p

def nlz (x : BitVec 32) : Nat :=
  let (n, x) := nlzTest 2 (nlzTest 4 (nlzTest 8 (nlzTest 16 (0, x))))
  if x.toNat ≤ 0x7FFFFFFF then n + 1 else n

def udiv64 (n d : BitVec 64) : Option (BitVec 64) :=
  if d >>> 32 = 0 then do
    let b : BitVec 64 := 1 <<< 32
    let n1 : BitVec 32 := (n >>> 32).setWidth 32
    let n0 : BitVec 32 := n.setWidth 32
    let d0 : BitVec 32 := d.setWidth 32
    let q ← divl (b * (n1 % d0).setWidth 64 + n0.setWidth 64) d0
    some (q.setWidth 64 + b * (n1 / d0).setWidth 64)
  else if n < d then some 0
  else do
    let d1 : BitVec 32 := (d >>> 32).setWidth 32
    let s := nlz d1
    let q ← divl (n >>> 1) (((d <<< s) >>> 32).setWidth 32)
    let q : BitVec 64 := (q >>> (31 - s)).setWidth 64
    some (if n - (q - 1) * d < d then q - 1 else q)

/-- The result is a `uint32_t`. -/
def umod64 (n d : BitVec 64) : Option (BitVec 32) := do
  let q ← udiv64 n d
  some ((n - d * q).setWidth 32)

def sdiv64 (n d : BitVec 64) : Option (BitVec 64) := do
  let nAbs := if 0 ≤ n.toInt then n else -n
  let dAbs := if 0 ≤ d.toInt then d else -d
  let qAbs ← udiv64 nAbs dAbs
  some (if n.toInt < 0 ↔ d.toInt < 0 then qAbs else -qAbs)

/-- The result is an `int32_t`. -/
def smod64 (n d : BitVec 64) : Option (BitVec 32) := do
  let q ← sdiv64 n d
  some ((n - d * q).setWidth 32)

def divdi3 (n d : BitVec 64) : Option (BitVec 64) := sdiv64 n d

def moddi3 (n d : BitVec 64) : Option (BitVec 64) := (smod64 n d).map (BitVec.signExtend 64)

def udivdi3 (n d : BitVec 64) : Option (BitVec 64) := udiv64 n d

def umoddi3 (n d : BitVec 64) : Option (BitVec 64) := (umod64 n d).map (BitVec.setWidth 64)

end Calendarizador.Source
