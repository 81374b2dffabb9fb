import Calendarizador.Invariant.Loader

/-!
# The ELF loader on any file

Whatever the bytes of the file are: no assertion fails, the loops end, no count of bytes wraps
and only user pages are mapped. If the file is loaded, the program finds each of its `PT_LOAD`
segments in its memory.
-/
namespace Calendarizador.Guarantees
open Foundation Source

/-- What a call of `load` leaves behind. -/
structure LoadSafe (env : LoadEnv) (result : Option (Nat × Nat)) (after : Loader) : Prop where
  unwrapped : after.wrapped = false
  user_range : ∀ va, after.userByte va ≠ none → pgSize ≤ va ∧ va < physBase
  segments : result ≠ none → ∃ file, env.file = some file ∧ ∀ i < file.ehdr.phnum,
    (file.phdr (file.ehdr.phoff + 32 * i)).type = ptLoad →
      after.HasSegment file (file.phdr (file.ehdr.phoff + 32 * i))

/-- `load` returns and is safe for every file and every answer of the page allocator. -/
theorem elf_loader {env : LoadEnv} (fresh : env.Fresh) {fuel : Nat} (enough : 786432 ≤ fuel)
    {s : Loader} (unwrapped : s.wrapped = false) :
    ∃ result after, Loader.load env fuel s = .ok (result, after) ∧ LoadSafe env result after := by
  obtain ⟨result, after, executed, unwrapped', pages, segments⟩ :=
    Loader.load_spec fresh enough unwrapped
  refine ⟨result, after, executed, unwrapped', fun va seen => ?_, segments⟩
  have mapped : after.pages (pgNo va) ≠ none := by
    intro unmapped
    rw [Loader.userByte, unmapped] at seen
    exact seen rfl
  have range := pages _ mapped
  simp only [pgNo, pgSize, physBase] at range ⊢
  omega

/-- An executable of 84 bytes: its headers are also its only segment, of 100 bytes at
`0x8048000`. -/
def tinyExecutable : Executable where
  length := 84
  data i := [127, 69, 76, 70, 1, 1, 1, 0, 0, 0, 0, 0, 0, 0, 0, 0, 2, 0, 3, 0, 1, 0, 0, 0,
    84, 128, 4, 8, 52, 0, 0, 0, 0, 0, 0, 0, 0, 0, 0, 0, 52, 0, 32, 0, 1, 0, 0, 0, 0, 0, 0, 0,
    1, 0, 0, 0, 0, 0, 0, 0, 0, 128, 4, 8, 0, 128, 4, 8, 84, 0, 0, 0, 100, 0, 0, 0,
    6, 0, 0, 0, 0, 16, 0, 0].getD i 0
  small := by decide

/-- Pages from the start of RAM on, never an early end of a read. -/
def tinyEnv : LoadEnv where
  file := some tinyExecutable
  answers i := if i < 16 then some (physBase + pgSize * (i + 1)) else none
  limits _ := 4096
  initRamPages := 32
  initPageDir := physBase

def unloaded : Loader :=
  ⟨fun _ => 0, none, fun _ => false, fun _ => none, 0, 0, 0, false⟩

theorem tinyEnv_fresh : tinyEnv.Fresh := by
  refine ⟨fun i k answer => ?_, fun i j k first second => ?_⟩
  all_goals simp only [tinyEnv, Option.ite_none_right_eq_some, Option.some.injEq] at *
  all_goals simp only [pgOfs, pgSize, physBase] at *
  all_goals omega

theorem elf_loader_tiny : ∃ after, Loader.load tinyEnv 786432 unloaded =
      .ok (some (134512724, 3221225472), after) ∧
    after.HasSegment tinyExecutable ⟨1, 0, 134512640, 84, 100, 6⟩ := by
  obtain ⟨result, after, executed, safe⟩ :=
    elf_loader tinyEnv_fresh (le_refl 786432) (s := unloaded) rfl
  have value : (Loader.load tinyEnv 786432 unloaded).map Prod.fst =
      .ok (some (134512724, 3221225472)) := by
    rfl
  rw [executed] at value
  obtain rfl : result = some (134512724, 3221225472) := Except.ok.inj value
  obtain ⟨file, opened, segments⟩ := safe.segments (by simp)
  obtain rfl : tinyExecutable = file := Option.some.inj opened
  exact ⟨after, executed, segments 0 (by decide) (by decide)⟩

end Calendarizador.Guarantees
