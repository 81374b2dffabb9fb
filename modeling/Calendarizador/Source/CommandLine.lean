import Calendarizador.Foundation.MachineInt
import Calendarizador.Source.Memory

/-!
# Running the actions of the command line

`run_actions` and `run_task` of `threads/init.c` in a kernel without user programs and
without a file system, `atoi` of `lib/stdlib.c`, and the table of `tests/threads/tests.c`.
A suffix of `argv` is the list of the words before the null pointer, so `[]` is the null
pointer itself. What the functions of `tests/threads` do is a parameter: a test that is started
with some arguments returns, or it halts or goes on for ever. Console output is left out.
-/
namespace Calendarizador.Source
open Foundation

/-- A string of the command line. -/
abbrev Word := List Char

def isspace (c : Char) : Bool := c.toNat = 32 ∨ (9 ≤ c.toNat ∧ c.toNat ≤ 13)

def isdigit (c : Char) : Bool := 48 ≤ c.toNat ∧ c.toNat ≤ 57

/-- The sign and what follows it. -/
def atoiSign : Word → Bool × Word
  | '+' :: rest => (false, rest)
  | '-' :: rest => (true, rest)
  | rest => (false, rest)

/-- The digits are read as a negative number. -/
def atoiDigits (s : Word) : Int :=
  (s.takeWhile isdigit).foldl (fun value c => i32 (i32 (value * 10) - (c.toNat - 48))) 0

def atoi (s : Word) : Int :=
  let (negative, digits) := atoiSign (s.dropWhile isspace)
  if negative then atoiDigits digits else i32 (-atoiDigits digits)

/-- The names in `tests`. -/
def testNames : List Word :=
  ["alarm-single", "prueba", "alarm-multiple", "alarm-simultaneous", "alarm-priority",
    "alarm-zero", "alarm-negative", "priority-change", "priority-donate-one",
    "priority-donate-multiple", "priority-donate-multiple2", "priority-donate-nest",
    "priority-donate-sema", "priority-donate-lower", "priority-donate-chain", "priority-fifo",
    "priority-preempt", "priority-sema", "priority-condvar", "mlfqs-load-1", "mlfqs-load-60",
    "mlfqs-load-avg", "mlfqs-recent-1", "mlfqs-fair-2", "mlfqs-fair-20", "mlfqs-nice-2",
    "mlfqs-nice-10", "mlfqs-block"].map String.toList

/-- The arguments of `run_ctest` besides the name. -/
structure TestArgs where
  cant : Int
  porc : Int
  bound : Bool
  deriving DecidableEq

/-- A test that was started, by `run_test` alone or by `run_ctest`. -/
structure Started where
  task : Word
  args : Option TestArgs
  deriving DecidableEq

-- what `t->function ()` does; an error is a call that does not return
variable (test : Started → Except Halt Unit)

/-- `run_test`, also as the last call of `run_ctest`. -/
def runTest (name : Word) (args : Option TestArgs) : Except Halt Started :=
  if name ∈ testNames then do
    test ⟨name, args⟩
    .ok ⟨name, args⟩
  else .error (.panic ("no test named \"" ++ String.ofList name ++ "\""))

/-- The local variables of `run_task`. -/
structure TaskOptions where
  args : TestArgs
  active : Bool
  deriving DecidableEq

def TaskOptions.initial : TaskOptions := ⟨⟨0, -1, false⟩, false⟩

inductive Flag where
  | t | p | b
  deriving DecidableEq

def Flag.word : Flag → Word
  | .t => ['-', 't']
  | .p => ['-', 'p']
  | .b => ['-', 'b']

/-- One option; `-p` and `-b` both set `porc`. -/
def TaskOptions.set (o : TaskOptions) (value : Int) : Flag → TaskOptions
  | .t => ⟨{ o.args with cant := value }, true⟩
  | .p => ⟨{ o.args with porc := value }, true⟩
  | .b => ⟨{ o.args with porc := value, bound := true }, true⟩

/-- The option a word names. -/
def flagOf (w : Word) : Option Flag :=
  if w = Flag.word .t then some .t
  else if w = Flag.word .p then some .p
  else if w = Flag.word .b then some .b
  else none

/-- The loop of `run_task` over all that is left of `argv`. `atoi` asserts that its argument
is not null. -/
def scanOptions (o : TaskOptions) : List Word → Except Halt TaskOptions
  | [] => .ok o
  | w :: rest =>
    match flagOf w with
    | none => scanOptions o rest
    | some flag =>
      match rest with
      | [] => .error .assertion
      | value :: rest => scanOptions (o.set (atoi value) flag) rest

/-- `run_task`; `act` is the global flag that the first task sets. Reading `argv[1]` of a list
without it would read past the null pointer. -/
def runTask (act : Bool) (argv : List Word) : Except Halt (Option Started) :=
  if act then .ok none
  else match argv with
    | _ :: task :: _ => do
      let o ← scanOptions .initial argv
      let started ← runTest test task (if o.active then some o.args else none)
      .ok (some started)
    | _ => .error .nullPointer

def runWord : Word := ['r', 'u', 'n']

/-- The table `actions`: names and argument counts. -/
def actionTable : List (Word × Nat) := [(runWord, 2)]

/-- The search in the table. Once `act` is set its first entry fits every word. -/
def findAction (act : Bool) (word : Word) : List (Word × Nat) → Except Halt Nat
  | [] =>
    if act then .error .nullPointer
    else .error (.panic ("unknown action `" ++ String.ofList word ++ "' (use -h for help)"))
  | (name, argc) :: more => if word = name ∨ act then .ok argc else findAction act word more

/-- The loop of `run_actions`: the tests it starts. -/
def actionLoop : Nat → Bool → List Word → Except Halt (List Started)
  | 0, _, _ => .error .unfinished
  | _ + 1, _, [] => .ok []
  | fuel + 1, act, word :: rest => do
    let argc ← findAction act word actionTable
    if (word :: rest).length < argc then
      .error (.panic ("action `" ++ String.ofList word ++ "' requires " ++ toString (argc - 1) ++
        " argument(s)"))
    else do
      let started ← runTask test act (word :: rest)
      let more ← actionLoop fuel (act || started.isSome) ((word :: rest).drop argc)
      .ok (started.toList ++ more)

/-- `run_actions`, called once at boot with `act` clear. -/
def runActions (fuel : Nat) (argv : List Word) : Except Halt (List Started) :=
  actionLoop test fuel false argv

end Calendarizador.Source
