import Calendarizador.Source.Memory

/-!
# Strings and blocks of bytes

`memmove`, `memcmp`, `strcmp`, `strchr` and `strtok_r` of `lib/string.c`, and
`strip_antisocial_prefixes` of `lib/ustar.c` as it calls them.

A pointer into a constant string is the list of the bytes from there through the terminating
null, so `[]` is the pointer behind it: reading there has no result. The string that `strtok_r`
writes to is in memory, with its terminating null at the address `last`; reading or writing
behind it has no result.
-/
namespace Calendarizador.Source

/-- The loop of `memmove` downwards. -/
def moveDown (memory : Memory) (dst src : Nat) : Nat → Memory × Nat
  | 0 => (memory, dst)
  | size + 1 =>
    moveDown (Function.update memory (dst - 1) (memory (src - 1))) (dst - 1) (src - 1) size

/-- `memmove`: the memory and the result, which is `dst` as the loop left it. -/
def memmove (memory : Memory) (dst src size : Nat) : Except Halt (Memory × Nat) := do
  ensure (dst ≠ 0 ∨ size = 0)
  ensure (src ≠ 0 ∨ size = 0)
  .ok (if dst < src then copyUp memory dst src size
    else moveDown memory (dst + size) (src + size) size)

abbrev StringPtr := List (BitVec 8)

def memcmp : StringPtr → StringPtr → Nat → Option Int
  | _, _, 0 => some 0
  | a :: as, b :: bs, size + 1 =>
    if a ≠ b then some (if b < a then 1 else -1) else memcmp as bs size
  | _, _, _ => none

def strcmp : StringPtr → StringPtr → Option Int
  | a :: as, b :: bs =>
    if a ≠ 0 ∧ a = b then strcmp as bs
    else some (if a < b then -1 else if b < a then 1 else 0)
  | _, _ => none

/-- `strchr`; the inner `none` is its null pointer. -/
def strchr (c : BitVec 8) : StringPtr → Option (Option StringPtr)
  | [] => none
  | ch :: rest =>
    if ch = c then some (some (ch :: rest))
    else if ch = 0 then some none
    else strchr c rest

namespace StringPtr

/-- The condition of the loop of `strip_antisocial_prefixes`. -/
def antisocial (fileName : StringPtr) : Option Bool := do
  let ch ← fileName.head?
  if ch = 47 then some true
  else
    let dot ← memcmp fileName [46, 47, 0] 2
    if dot = 0 then some true
    else
      let dots ← memcmp fileName [46, 46, 47, 0] 3
      some (dots = 0)

/-- The loop, for at most `fuel` tests. Behind a null pointer there is nothing to read. -/
def stripLoop : Nat → StringPtr → Option StringPtr
  | 0, _ => none
  | fuel + 1, fileName => do
    if ← antisocial fileName then
      let slash ← ← strchr 47 fileName
      stripLoop fuel slash.tail
    else some fileName

def stripAntisocialPrefixes (fileName : StringPtr) : Option StringPtr := do
  let rest ← stripLoop fileName.length fileName
  let ch ← rest.head?
  if ch = 0 then some [46, 0]
  else
    let dots ← strcmp rest [46, 46, 0]
    some (if dots = 0 then [46, 0] else rest)

end StringPtr

/-! ## strtok_r -/

/-- `*s`, up to the terminating null. -/
def readChar (memory : Memory) (last s : Nat) : Option (BitVec 8) :=
  if s ≤ last then some (memory s) else none

/-- `*s = ch` -/
def writeChar (memory : Memory) (last s : Nat) (ch : BitVec 8) : Option Memory :=
  if s ≤ last then some (Function.update memory s ch) else none

/-- A loop that goes on while the test holds, for at most `fuel` rounds: where it stops, and the
byte there. -/
def skipWhile (test : BitVec 8 → Option Bool) (memory : Memory) (last : Nat) :
    Nat → Nat → Option (Nat × BitVec 8)
  | 0, _ => none
  | fuel + 1, s => do
    let ch ← readChar memory last s
    if ← test ch then skipWhile test memory last fuel (s + 1) else some (s, ch)

/-- The loop over delimiters also stops at the null. -/
def skipDelimiters (delimiters : StringPtr) : Memory → Nat → Nat → Nat → Option (Nat × BitVec 8) :=
  skipWhile fun ch => (strchr ch delimiters).map fun found => found.isSome && ch != 0

def skipToken (delimiters : StringPtr) : Memory → Nat → Nat → Nat → Option (Nat × BitVec 8) :=
  skipWhile fun ch => (strchr ch delimiters).map Option.isNone

/-- The memory that a tokenizer works on, and its `*save_ptr`. -/
structure Tokenizer where
  memory : Memory
  savePtr : Nat

/-- `strtok_r (s, delimiters, save_ptr)`: the token, if there is one, and what is left. -/
def strtokR (delimiters : StringPtr) (last : Nat) (s : Option Nat) (t : Tokenizer) :
    Option (Option Nat × Tokenizer) := do
  let (token, ch) ← skipDelimiters delimiters t.memory last (last + 1) (s.getD t.savePtr)
  if ch = 0 then some (none, { t with savePtr := token })
  else
    let (s, ch) ← skipToken delimiters t.memory last (last + 1) token
    if ch ≠ 0 then
      let memory ← writeChar t.memory last s 0
      some (some token, ⟨memory, s + 1⟩)
    else some (some token, { t with savePtr := s })

/-- The string at an address, of at most `size` bytes. -/
def stringAt (memory : Memory) : Nat → Nat → List (BitVec 8)
  | 0, _ => []
  | size + 1, s => if memory s = 0 then [] else memory s :: stringAt memory size (s + 1)

/-- What `n` calls give, the first one with `s` and the others with a null pointer, and what is
left by the last of them. -/
def tokens (delimiters : StringPtr) (last : Nat) :
    Nat → Option Nat → Tokenizer → Option (List (Option (List (BitVec 8))) × Tokenizer)
  | 0, _, t => some ([], t)
  | n + 1, s, t => do
    let (token, t) ← strtokR delimiters last s t
    let (rest, after) ← tokens delimiters last n none t
    some (token.map (stringAt t.memory (last + 1)) :: rest, after)

end Calendarizador.Source
