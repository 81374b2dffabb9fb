import Calendarizador.Source.CommandLine
import Mathlib.Data.List.Induction
import Mathlib.Data.List.TakeWhile

/-!
# The actions of the command line

`run_task` sets a flag after the first task, and `run_actions` then takes every pair of words
for an action that has been done. So one action is run and later ones are skipped, and the one
that is run takes the last option of each kind from the whole line. Nothing but that test can
stop the walk through the line.
-/
namespace Calendarizador.Guarantees
open Foundation Source List

/-- A decimal number as it is written. -/
structure Numeral where
  negative : Bool
  digits : List (Fin 10)
  nonempty : digits ≠ []

def digitChar (d : Fin 10) : Char := Char.ofNat (48 + d)

def Numeral.text (n : Numeral) : Word :=
  (if n.negative then ['-'] else []) ++ n.digits.map digitChar

def digitsValue (digits : List (Fin 10)) : Int :=
  digits.foldl (fun v d => 10 * v + (d.val : Int)) 0

def Numeral.value (n : Numeral) : Int :=
  if n.negative then -digitsValue n.digits else digitsValue n.digits

/-- `run TEST` and its options. -/
structure Action where
  test : Word
  known : test ∈ testNames
  options : List (Flag × Numeral)

def Action.words (a : Action) : List Word :=
  runWord :: a.test :: a.options.flatMap fun o => [o.1.word, o.2.text]

def commandLine (actions : List Action) : List Word := actions.flatMap Action.words

/-- The last value given with a flag. -/
def lastOf (options : List (Flag × Numeral)) (flag : Flag) : Option Int :=
  ((options.filter fun o => o.1 = flag).getLast?).map fun o => o.2.value

def Action.last (a : Action) (flag : Flag) : Option Int := lastOf a.options flag

/-- The test was started with the values of its own action. -/
structure Serves (a : Action) (s : Started) : Prop where
  task : s.task = a.test
  plain : a.options = [] → s.args = none
  given : a.options ≠ [] → ∃ args, s.args = some args ∧ args.cant = (a.last .t).getD 0 ∧
    (∀ n, a.last .p = some n → args.porc = n) ∧ (∀ n, a.last .b = some n → args.porc = n) ∧
    (a.last .p = none → a.last .b = none → args.porc = -1) ∧ args.bound = (a.last .b).isSome

/-- The values of an action can all be stored. -/
structure Storable (a : Action) : Prop where
  fits : ∀ flag n, a.last flag = some n → -2147483648 ≤ n ∧ n < 2147483648
  agree : ∀ n n', a.last .p = some n → a.last .b = some n' → n = n'

/-! ## Numbers -/

theorem digitChar_digit (d : Fin 10) :
    isdigit (digitChar d) = true ∧ isspace (digitChar d) = false ∧ digitChar d ≠ '+' ∧
      digitChar d ≠ '-' ∧ ((digitChar d).toNat : Int) - 48 = d.val := by
  revert d
  decide

theorem i32_congr {x y : Int} (same : (x - y) % 4294967296 = 0) : i32 x = i32 y := by
  unfold i32
  omega

theorem i32_step (value d : Int) : i32 (i32 (i32 value * 10) - d) = i32 (value * 10 - d) := by
  refine i32_congr ?_
  unfold i32
  omega

/-- The digits are summed up with the wrap-around of `int`. -/
theorem atoiDigits_digits (digits : List (Fin 10)) (start : Int) :
    (digits.map digitChar).foldl (fun value c => i32 (i32 (value * 10) - (c.toNat - 48)))
        (i32 (-start)) =
      i32 (-digits.foldl (fun v d => 10 * v + (d.val : Int)) start) := by
  induction digits generalizing start with
  | nil => rfl
  | cons d rest ih =>
    rw [map_cons, foldl_cons, foldl_cons, (digitChar_digit d).2.2.2.2, i32_step]
    have next : -start * 10 - (d.val : Int) = -(10 * start + d.val) := by ring
    rw [next, ih]

theorem atoiDigits_eq (digits : List (Fin 10)) :
    atoiDigits (digits.map digitChar) = i32 (-digitsValue digits) := by
  have all : (digits.map digitChar).takeWhile isdigit = digits.map digitChar := by
    refine takeWhile_eq_self_iff.mpr fun c member => ?_
    obtain ⟨d, _, rfl⟩ := mem_map.mp member
    exact (digitChar_digit d).1
  rw [atoiDigits, all]
  exact atoiDigits_digits digits 0

theorem i32_neg (x : Int) : i32 (-i32 (-x)) = i32 x := by
  refine i32_congr ?_
  unfold i32
  omega

/-- What `atoi` makes of a number. -/
theorem atoi_text (n : Numeral) : atoi n.text = i32 n.value := by
  obtain ⟨negative, digits, nonempty⟩ := n
  obtain ⟨d, rest, starts⟩ := exists_cons_of_ne_nil nonempty
  obtain ⟨_, notSpace, notPlus, notMinus, _⟩ := digitChar_digit d
  cases negative with
  | true =>
    show atoi ('-' :: digits.map digitChar) = i32 (-digitsValue digits)
    rw [← atoiDigits_eq]
    rfl
  | false =>
    have sign : atoiSign ((digits.map digitChar).dropWhile isspace) =
        (false, digits.map digitChar) := by
      rw [starts, map_cons, dropWhile_cons_of_neg (by simp [notSpace])]
      unfold atoiSign
      split
      · rename_i same
        exact absurd (List.cons.inj same).1 notPlus
      · rename_i same
        exact absurd (List.cons.inj same).1 notMinus
      · rfl
    show atoi (digits.map digitChar) = i32 (digitsValue digits)
    rw [atoi, sign]
    show i32 (-atoiDigits (digits.map digitChar)) = _
    rw [atoiDigits_eq, i32_neg]

/-! ## The scan of `run_task` -/

def applyOption (o : TaskOptions) (option : Flag × Numeral) : TaskOptions :=
  o.set (i32 option.2.value) option.1

theorem flagOf_word (flag : Flag) : flagOf flag.word = some flag := by cases flag <;> rfl

theorem flagOf_run : flagOf runWord = none := by decide

theorem flagOf_test {w : Word} (known : w ∈ testNames) : flagOf w = none := by
  revert w
  decide

theorem scan_options (options : List (Flag × Numeral)) (o : TaskOptions) (rest : List Word) :
    scanOptions o ((options.flatMap fun option => [option.1.word, option.2.text]) ++ rest) =
      scanOptions (options.foldl applyOption o) rest := by
  induction options generalizing o with
  | nil => rfl
  | cons option more ih =>
    rw [flatMap_cons, foldl_cons, ← ih (applyOption o option)]
    show scanOptions o (option.1.word :: option.2.text :: _) = _
    rw [scanOptions, flagOf_word]
    show scanOptions (o.set (atoi option.2.text) option.1) _ = _
    rw [atoi_text]
    rfl

/-- The scan takes no notice of where an action ends. -/
theorem scan_commandLine (actions : List Action) (o : TaskOptions) :
    scanOptions o (commandLine actions) =
      .ok ((actions.flatMap Action.options).foldl applyOption o) := by
  induction actions generalizing o with
  | nil => rfl
  | cons a more ih =>
    show scanOptions o (runWord :: a.test :: ((a.options.flatMap _) ++ commandLine more)) = _
    rw [scanOptions, flagOf_run]
    rw [scanOptions, flagOf_test a.known]
    rw [scan_options, ih, flatMap_cons, foldl_append]

/-! ## The walk of `run_actions` -/

def Action.pairs (a : Action) : List (Word × Word) :=
  (runWord, a.test) :: a.options.map fun o => (o.1.word, o.2.text)

def unpair (pairs : List (Word × Word)) : List Word := pairs.flatMap fun p => [p.1, p.2]

theorem commandLine_pairs (actions : List Action) :
    commandLine actions = unpair (actions.flatMap Action.pairs) := by
  induction actions with
  | nil => rfl
  | cons a more ih =>
    have options : a.words = unpair a.pairs := by
      simp [Action.words, Action.pairs, unpair, flatMap_map]
    rw [commandLine, flatMap_cons, options, flatMap_cons, unpair, unpair,
      flatMap_append]
    exact congrArg _ ih

theorem findAction_act (w : Word) : findAction true w actionTable = .ok 2 := if_pos (.inr rfl)

theorem findAction_run : findAction false runWord actionTable = .ok 2 := rfl

section
variable (test : Started → Except Halt Unit)

/-- Once a task has run, the rest of the line is passed over in pairs. -/
theorem actionLoop_act (pairs : List (Word × Word)) {fuel : Nat} (enough : pairs.length < fuel) :
    actionLoop test fuel true (unpair pairs) = .ok [] := by
  induction pairs generalizing fuel with
  | nil =>
    cases fuel with
    | zero => cases enough
    | succ fuel => rfl
  | cons p more ih =>
    cases fuel with
    | zero => cases enough
    | succ fuel =>
      have rest := ih (Nat.lt_of_succ_lt_succ enough)
      show actionLoop test (fuel + 1) true (p.1 :: p.2 :: unpair more) = _
      rw [actionLoop, findAction_act, ok_bind, if_neg (by simp)]
      show (actionLoop test fuel true (unpair more) >>= _) = _
      rw [rest]
      rfl

/-- The one test that is started. -/
def onlyStarted (a : Action) (more : List Action) : Started :=
  let o := ((a :: more).flatMap Action.options).foldl applyOption .initial
  ⟨a.test, if o.active then some o.args else none⟩

theorem runActions_cons (a : Action) (more : List Action) {fuel : Nat}
    (enough : (commandLine (a :: more)).length < fuel) :
    runActions test fuel (commandLine (a :: more)) =
      (test (onlyStarted a more)).map fun _ => [onlyStarted a more] := by
  obtain ⟨rest, line⟩ : ∃ rest, commandLine (a :: more) = runWord :: a.test :: unpair rest := by
    rw [commandLine_pairs]
    exact ⟨a.pairs.tail ++ more.flatMap Action.pairs, rfl⟩
  have task : runTask test false (commandLine (a :: more)) =
      (test (onlyStarted a more)).map fun _ => some (onlyStarted a more) := by
    have scanned := scan_commandLine (a :: more) .initial
    rw [line] at scanned ⊢
    show (scanOptions .initial (runWord :: a.test :: unpair rest) >>= _) = _
    rw [scanned, ok_bind, runTest, if_pos a.known]
    change ((test (onlyStarted a more) >>= fun _ => .ok (onlyStarted a more)) >>= _) = _
    cases test (onlyStarted a more) <;> rfl
  cases fuel with
  | zero => cases enough
  | succ fuel =>
    have length : (unpair rest).length = 2 * rest.length := by
      simp [unpair, length_flatMap, map_const', Nat.mul_comm]
    have short : rest.length < fuel := by
      rw [line, length_cons, length_cons, length] at enough
      omega
    have skips := actionLoop_act test rest short
    rw [line] at task ⊢
    rw [runActions, actionLoop, findAction_run, ok_bind, if_neg (by simp), task]
    cases test (onlyStarted a more) with
    | error halt => rfl
    | ok _ =>
      show (actionLoop test fuel true (unpair rest) >>= _) = _
      rw [skips]
      rfl

end

/-! ## The values -/

theorem lastOf_concat (most : List (Flag × Numeral)) (o : Flag × Numeral) (flag : Flag) :
    lastOf (most ++ [o]) flag = if o.1 = flag then some o.2.value else lastOf most flag := by
  unfold lastOf
  rw [filter_append]
  by_cases same : o.1 = flag <;> simp [same]

/-- What the scan of one action's options leaves. -/
structure Scanned (options : List (Flag × Numeral)) (o : TaskOptions) : Prop where
  active : o.active = true ↔ options ≠ []
  cant : o.args.cant = ((lastOf options .t).map i32).getD 0
  bound : o.args.bound = (lastOf options .b).isSome
  /-- The later of `-p` and `-b` counts. -/
  porc : (lastOf options .p = none ∧ lastOf options .b = none ∧ o.args.porc = -1) ∨
    (∃ n, lastOf options .p = some n ∧ o.args.porc = i32 n) ∨
    ∃ n, lastOf options .b = some n ∧ o.args.porc = i32 n

theorem scanned (options : List (Flag × Numeral)) :
    Scanned options (options.foldl applyOption .initial) := by
  induction options using List.reverseRecOn with
  | nil => exact ⟨by simp [TaskOptions.initial], rfl, rfl, .inl ⟨rfl, rfl, rfl⟩⟩
  | append_singleton most option ih =>
    obtain ⟨flag, n⟩ := option
    rw [foldl_append]
    simp only [foldl_cons, foldl_nil]
    cases flag with
    | t =>
      refine ⟨by simp [applyOption, TaskOptions.set], ?_, ?_, ?_⟩
      · simp [lastOf_concat, applyOption, TaskOptions.set]
      · simpa [lastOf_concat, applyOption, TaskOptions.set] using ih.bound
      · simpa [lastOf_concat, applyOption, TaskOptions.set] using ih.porc
    | p =>
      refine ⟨by simp [applyOption, TaskOptions.set], ?_, ?_, ?_⟩
      · simpa [lastOf_concat, applyOption, TaskOptions.set] using ih.cant
      · simpa [lastOf_concat, applyOption, TaskOptions.set] using ih.bound
      · exact .inr (.inl ⟨n.value, by simp [lastOf_concat], rfl⟩)
    | b =>
      refine ⟨by simp [applyOption, TaskOptions.set], ?_, ?_, ?_⟩
      · simpa [lastOf_concat, applyOption, TaskOptions.set] using ih.cant
      · simp [lastOf_concat, applyOption, TaskOptions.set]
      · exact .inr (.inr ⟨n.value, by simp [lastOf_concat], rfl⟩)

theorem Scanned.porc_bounds {options : List (Flag × Numeral)} {o : TaskOptions}
    (h : Scanned options o) : -2147483648 ≤ o.args.porc ∧ o.args.porc < 2147483648 := by
  rcases h.porc with ⟨_, _, default⟩ | ⟨n, _, stored⟩ | ⟨n, _, stored⟩
  · rw [default]
    decide
  · rw [stored]
    exact i32_bounds n
  · rw [stored]
    exact i32_bounds n

/-- The only action of a line is served exactly if its values can be stored. -/
theorem serves_only (a : Action) : Serves a (onlyStarted a []) ↔ Storable a := by
  obtain ⟨o, values, started⟩ : ∃ o, Scanned a.options o ∧
      onlyStarted a [] = ⟨a.test, if o.active then some o.args else none⟩ := by
    refine ⟨_, scanned a.options, ?_⟩
    rw [onlyStarted, flatMap_cons, flatMap_nil, append_nil]
  rw [started]
  constructor
  · intro serves
    have given : ∀ {flag n}, a.last flag = some n → o.args.cant = (a.last .t).getD 0 ∧
        (∀ n, a.last .p = some n → o.args.porc = n) ∧
        (∀ n, a.last .b = some n → o.args.porc = n) := by
      intro flag n last
      have some_ : a.options ≠ [] := by
        intro none_
        rw [Action.last, none_] at last
        cases last
      obtain ⟨args, stored, cant, p, b, _⟩ := serves.given some_
      have same : o.args = args := by
        simpa [values.active.mpr some_] using stored
      rw [same]
      exact ⟨cant, p, b⟩
    refine ⟨fun flag n last => ?_, fun n n' first second => ?_⟩
    · obtain ⟨cant, p, b⟩ := given last
      cases flag with
      | t =>
        rw [values.cant, last] at cant
        have stored : i32 n = n := by
          have value : lastOf a.options .t = some n := last
          rw [value] at cant
          exact cant
        rw [← stored]
        exact i32_bounds n
      | p =>
        rw [← p n last]
        exact values.porc_bounds
      | b =>
        rw [← b n last]
        exact values.porc_bounds
    · obtain ⟨_, p, b⟩ := given first
      rw [← p n first, ← b n' second]
  · intro storable
    have stored : ∀ {flag n}, a.last flag = some n → i32 n = n := by
      intro flag n last
      obtain ⟨low, high⟩ := storable.fits flag n last
      exact i32_of_bounds n low high
    refine ⟨rfl, fun none_ => ?_, fun some_ => ⟨o.args, ?_, ?_, ?_, ?_, ?_, values.bound⟩⟩
    · have inactive : o.active ≠ true := fun active => values.active.mp active none_
      exact if_neg inactive
    · exact if_pos (values.active.mpr some_)
    · rw [values.cant]
      cases last : a.last .t with
      | none => rw [show lastOf a.options .t = none from last]; rfl
      | some n =>
        rw [show lastOf a.options .t = some n from last]
        exact stored last
    · intro n last
      rcases values.porc with ⟨none_, _, _⟩ | ⟨n', there, porc⟩ | ⟨n', there, porc⟩
      · cases none_.symm.trans last
      · cases there.symm.trans last
        rw [porc, stored last]
      · rw [porc, stored there, storable.agree n n' last there]
    · intro n last
      rcases values.porc with ⟨_, none_, _⟩ | ⟨n', there, porc⟩ | ⟨n', there, porc⟩
      · cases none_.symm.trans last
      · rw [porc, stored there, storable.agree n' n there last]
      · cases there.symm.trans last
        rw [porc, stored last]
    · intro noP noB
      rcases values.porc with ⟨_, _, porc⟩ | ⟨n', there, _⟩ | ⟨n', there, _⟩
      · exact porc
      · cases there.symm.trans noP
      · cases there.symm.trans noB

/-- A command line made of actions is read to its end without a panic, and only a test that does
not return can keep it from that; which tests are started does not depend on what they do. Each
test is run once, in order and with the values of its action, and the walk comes to its end,
exactly if there is at most one action, its values can be stored and its test returns. -/
theorem actions_run_in_order (actions : List Action) : ∃ started : List Started,
    ∀ test : Started → Except Halt Unit,
      (∀ fuel > (commandLine actions).length, runActions test fuel (commandLine actions) =
        (started.forM test).map fun _ => started) ∧
      (((∀ fuel > (commandLine actions).length,
          runActions test fuel (commandLine actions) = .ok started) ∧
        List.Forall₂ Serves actions started) ↔
        (actions = [] ∨ ∃ a, actions = [a] ∧ Storable a) ∧ ∀ s ∈ started, test s = .ok ()) := by
  cases actions with
  | nil =>
    refine ⟨[], fun test => ?_⟩
    have ends : ∀ fuel > 0, runActions test fuel [] = .ok [] := by
      intro fuel enough
      cases fuel with
      | zero => cases enough
      | succ fuel => rfl
    exact ⟨ends, fun _ => ⟨.inl rfl, by simp⟩, fun _ => ⟨ends, .nil⟩⟩
  | cons a more =>
    refine ⟨[onlyStarted a more], fun test => ⟨fun fuel enough => ?_, ?_⟩⟩
    · rw [runActions_cons test a more enough]
      change _ = (test (onlyStarted a more) >>= fun _ => .ok ()).map _
      cases test (onlyStarted a more) <;> rfl
    · have returns : (∀ fuel > (commandLine (a :: more)).length,
          runActions test fuel (commandLine (a :: more)) = .ok [onlyStarted a more]) ↔
          ∀ s ∈ [onlyStarted a more], test s = .ok () := by
        rw [forall_mem_singleton]
        constructor
        · intro runs
          have run := runs _ (Nat.lt_succ_self _)
          rw [runActions_cons test a more (Nat.lt_succ_self _)] at run
          cases ran : test (onlyStarted a more) with
          | error halt =>
            rw [ran] at run
            cases run
          | ok _ => rfl
        · intro ran fuel enough
          rw [runActions_cons test a more enough, ran]
          rfl
      have serves : List.Forall₂ Serves (a :: more) [onlyStarted a more] ↔
          (a :: more = [] ∨ ∃ b, a :: more = [b] ∧ Storable b) := by
        constructor
        · intro served
          cases served with
          | cons first rest =>
            cases rest
            exact .inr ⟨a, rfl, (serves_only a).mp first⟩
        · rintro (none_ | ⟨b, single, storable⟩)
          · cases none_
          · cases single
            exact .cons ((serves_only a).mpr storable) .nil
      rw [returns, serves, and_comm]

/-- `run alarm-single run prueba -t 3`, where every test returns: `prueba` is not run, and
`alarm-single` is started with the count that was meant for it. -/
theorem second_action_skipped : ∃ actions,
    commandLine actions = ["run", "alarm-single", "run", "prueba", "-t", "3"].map String.toList ∧
    runActions (fun _ => .ok ()) 7 (commandLine actions) =
      .ok [⟨"alarm-single".toList, some ⟨3, -1, false⟩⟩] ∧
    ¬ List.Forall₂ Serves actions [⟨"alarm-single".toList, some ⟨3, -1, false⟩⟩] := by
  refine ⟨[⟨"alarm-single".toList, by decide, []⟩,
    ⟨"prueba".toList, by decide, [(.t, ⟨false, [3], by decide⟩)]⟩], by decide, by decide, ?_⟩
  rintro (_ | ⟨_, ⟨⟩⟩)

end Calendarizador.Guarantees
