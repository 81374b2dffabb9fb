import Calendarizador.Foundation.MachineInt
import Calendarizador.Source.Memory
import Mathlib.Logic.Function.Basic

/-!
# The ELF loader

`load`, `validate_segment`, `load_segment`, `setup_stack` and `install_page` of
`userprog/process.c`, with the functions of `userprog/pagedir.c` and `filesys/file.c` they
call. A `uint32_t` is a natural number kept below `2 ^ 32` by `sizeT`, an `off_t` an integer
kept in range by `i32`. What the page allocator answers, and where a read stops early because
`inode_read_at` gets no bounce buffer, is given from outside. A page table is the set of
mappings it holds.
-/
namespace Calendarizador.Source
open Foundation

/-- The bytes of a file; `file_length` is an `off_t`. -/
structure Executable where
  length : Nat
  data : Nat → BitVec 8
  small : length < 2147483648

/-- What the world outside the loader answers. -/
structure LoadEnv where
  /-- `filesys_open` -/
  file : Option Executable
  /-- the calls of `palloc_get_page`, in order -/
  answers : Nat → Option Nat
  /-- the calls of `file_read`, in order: how many bytes are read at most -/
  limits : Nat → Nat
  initRamPages : Nat
  initPageDir : Nat

structure Loader where
  memory : Nat → BitVec 8
  /-- `t->pagedir` -/
  pagedir : Option Nat
  /-- the page directory entries that are set -/
  tables : Nat → Bool
  /-- the page table entries that are present: the frame's kernel address and `PTE_W` -/
  pages : Nat → Option (Nat × Bool)
  /-- `file->pos` -/
  pos : Int
  asked : Nat
  reads : Nat
  /-- Whether a subtraction of `read_bytes` or `zero_bytes` has wrapped. -/
  wrapped : Bool

/-- `struct Elf32_Ehdr`, the fields `load` looks at. -/
structure Ehdr where
  ident : List (BitVec 8)
  type : Nat
  machine : Nat
  version : Nat
  entry : Nat
  phoff : Nat
  phentsize : Nat
  phnum : Nat

/-- `struct Elf32_Phdr`, the fields `load` looks at. -/
structure Phdr where
  type : Nat
  offset : Nat
  vaddr : Nat
  filesz : Nat
  memsz : Nat
  flags : Nat

namespace Executable

def half (f : Executable) (ofs : Nat) : Nat := (f.data ofs).toNat + 256 * (f.data (ofs + 1)).toNat

def word (f : Executable) (ofs : Nat) : Nat := f.half ofs + 65536 * f.half (ofs + 2)

/-- The bytes `load` reads first. -/
def ehdr (f : Executable) : Ehdr where
  ident := (List.range 7).map f.data
  type := f.half 16
  machine := f.half 18
  version := f.word 20
  entry := f.word 24
  phoff := f.word 28
  phentsize := f.half 42
  phnum := f.half 44

/-- The program header at the offset `ofs`. -/
def phdr (f : Executable) (ofs : Nat) : Phdr where
  type := f.word ofs
  offset := f.word (ofs + 4)
  vaddr := f.word (ofs + 8)
  filesz := f.word (ofs + 16)
  memsz := f.word (ofs + 20)
  flags := f.word (ofs + 24)

end Executable

def ptLoad : Nat := 1

def ptDynamic : Nat := 2

def ptInterp : Nat := 3

def ptShlib : Nat := 5

/-- `(flags & PF_W) != 0` -/
def Phdr.writable (p : Phdr) : Bool := p.flags / 2 % 2 = 1

/-- `x & ~PGMASK` -/
def pgRoundDown (x : Nat) : Nat := x / pgSize * pgSize

/-- `ROUND_UP (x, PGSIZE)` on `uint32_t` -/
def pgRoundUp (x : Nat) : Nat := pgRoundDown (sizeT (x + pgSize - 1))

/-- `a - b` on `uint32_t` -/
def sub32 (a b : Nat) : Nat := sizeT (a + 4294967296 - b)

def validateSegment (phdr : Phdr) (file : Executable) : Bool :=
  if phdr.offset % pgSize ≠ phdr.vaddr % pgSize then false
  else if phdr.offset > file.length then false
  else if phdr.memsz < phdr.filesz then false
  else if phdr.memsz = 0 then false
  else if ¬ phdr.vaddr < physBase then false
  else if ¬ sizeT (phdr.vaddr + phdr.memsz) < physBase then false
  else if sizeT (phdr.vaddr + phdr.memsz) < phdr.vaddr then false
  else if phdr.vaddr < pgSize then false
  else true

namespace Loader

@[simps]
def ask (s : Loader) : Loader := { s with asked := s.asked + 1 }

@[simps]
def setMemory (s : Loader) (memory : Nat → BitVec 8) : Loader := { s with memory }

@[simps]
def setTable (s : Loader) (n : Nat) : Loader :=
  { s with tables := Function.update s.tables n true }

@[simps]
def setPage (s : Loader) (n : Nat) (pte : Nat × Bool) : Loader :=
  { s with pages := Function.update s.pages n (some pte) }

@[simps]
def seek (s : Loader) (pos : Int) : Loader := { s with pos }

/-- `palloc_get_page` -/
def getPage (env : LoadEnv) (s : Loader) : Option Nat × Loader :=
  (env.answers s.asked, s.ask)

/-- `palloc_free_page` clears the page. -/
def freePage (s : Loader) (kpage : Nat) : Loader :=
  s.setMemory (memset s.memory kpage 0xcc pgSize)

def fileSeek (s : Loader) (newPos : Int) : Except Halt Loader := do
  ensure (0 ≤ newPos)
  .ok (s.seek newPos)

/-- The bytes that a read of `size` bytes at the position of the file gets. -/
def readCount (env : LoadEnv) (file : Executable) (s : Loader) (size : Nat) : Nat :=
  min (min size (file.length - s.pos.toNat)) (env.limits s.reads)

@[simps]
def advance (s : Loader) (n : Nat) : Loader := { s with pos := s.pos + n, reads := s.reads + 1 }

/-- `file_read` into a structure of the caller; the result is the number of bytes read. -/
def fileRead (env : LoadEnv) (file : Executable) (s : Loader) (size : Nat) : Nat × Loader :=
  let n := s.readCount env file size
  (n, s.advance n)

/-- Bytes `src..` of the file in place of the `n` bytes at `dst`. -/
def copyIn (memory : Nat → BitVec 8) (file : Executable) (src dst n : Nat) : Nat → BitVec 8 :=
  fun a => if dst ≤ a ∧ a < dst + n then file.data (src + (a - dst)) else memory a

/-- `file_read` into the memory at `dst`. -/
def fileReadInto (env : LoadEnv) (file : Executable) (s : Loader) (dst size : Nat) :
    Nat × Loader :=
  let n := s.readCount env file size
  (n, (s.advance n).setMemory (copyIn s.memory file s.pos.toNat dst n))

/-- `pd_no` -/
def pdNo (va : Nat) : Nat := va / 4194304

/-- `pagedir_get_page` -/
def pagedirGetPage (s : Loader) (uaddr : Nat) : Except Halt (Option Nat) := do
  ensure (uaddr < physBase)
  ensure (s.pagedir ≠ none)
  if s.tables (pdNo uaddr) then .ok ((s.pages (pgNo uaddr)).map fun pte => pte.1 + pgOfs uaddr)
  else .ok none

/-- `lookup_page` with `create` set: whether there is a page table for `vaddr` now. -/
def createTable (env : LoadEnv) (s : Loader) (vaddr : Nat) : Except Halt (Bool × Loader) := do
  ensure (s.pagedir ≠ none)
  ensure (vaddr < physBase)
  if s.tables (pdNo vaddr) then .ok (true, s)
  else
    match s.getPage env with
    | (none, s) => .ok (false, s)
    | (some _, s) => .ok (true, s.setTable (pdNo vaddr))

def pagedirSetPage (env : LoadEnv) (s : Loader) (upage kpage : Nat) (writable : Bool) :
    Except Halt (Bool × Loader) := do
  ensure (pgOfs upage = 0)
  ensure (pgOfs kpage = 0)
  ensure (upage < physBase)
  -- `vtop` asserts that the address is a kernel address
  ensure (physBase ≤ kpage)
  ensure ((kpage - physBase) / pgSize < env.initRamPages)
  ensure (s.pagedir ≠ some env.initPageDir)
  match ← s.createTable env upage with
  | (false, s) => .ok (false, s)
  | (true, s) =>
    ensure (s.pages (pgNo upage) = none)
    .ok (true, s.setPage (pgNo upage) (kpage, writable))

def installPage (env : LoadEnv) (s : Loader) (upage kpage : Nat) (writable : Bool) :
    Except Halt (Bool × Loader) := do
  match ← s.pagedirGetPage upage with
  | some _ => .ok (false, s)
  | none => s.pagedirSetPage env upage kpage writable

/-- Records whether `a - b` wraps. -/
@[simps]
def noteWrap (s : Loader) (a b : Nat) : Loader := { s with wrapped := s.wrapped || a < b }

/-- One page of the loop of `load_segment`; `false` if the call returns `false`. -/
def loadPage (env : LoadEnv) (file : Executable) (s : Loader) (upage pageReadBytes : Nat)
    (writable : Bool) : Except Halt (Bool × Loader) :=
  match s.getPage env with
  | (none, s) => .ok (false, s)
  | (some kpage, s) =>
    match s.fileReadInto env file kpage pageReadBytes with
    | (n, s) =>
      if n ≠ pageReadBytes then .ok (false, s.freePage kpage)
      else do
        let s := s.setMemory
          (memset s.memory (kpage + pageReadBytes) 0 (pgSize - pageReadBytes))
        match ← s.installPage env upage kpage writable with
        | (false, s) => .ok (false, s.freePage kpage)
        | (true, s) => .ok (true, s)

/-- The loop of `load_segment`, for at most `fuel` rounds. -/
def loadPages (env : LoadEnv) (file : Executable) (writable : Bool) :
    Nat → Loader → Nat → Nat → Nat → Except Halt (Bool × Loader)
  | 0, s, _, readBytes, zeroBytes =>
    if readBytes > 0 ∨ zeroBytes > 0 then .error .unfinished else .ok (true, s)
  | fuel + 1, s, upage, readBytes, zeroBytes =>
    if readBytes > 0 ∨ zeroBytes > 0 then do
      let pageReadBytes := if readBytes < pgSize then readBytes else pgSize
      let pageZeroBytes := pgSize - pageReadBytes
      match ← s.loadPage env file upage pageReadBytes writable with
      | (false, s) => .ok (false, s)
      | (true, s) =>
        let s := (s.noteWrap readBytes pageReadBytes).noteWrap zeroBytes pageZeroBytes
        loadPages env file writable fuel s (sizeT (upage + pgSize))
          (sub32 readBytes pageReadBytes) (sub32 zeroBytes pageZeroBytes)
    else .ok (true, s)

def loadSegment (env : LoadEnv) (fuel : Nat) (file : Executable) (s : Loader) (ofs : Int)
    (upage readBytes zeroBytes : Nat) (writable : Bool) : Except Halt (Bool × Loader) := do
  ensure (sizeT (readBytes + zeroBytes) % pgSize = 0)
  ensure (pgOfs upage = 0)
  ensure (ofs.tmod 4096 = 0)
  let s ← s.fileSeek ofs
  loadPages env file writable fuel s upage readBytes zeroBytes

/-- The `PT_LOAD` case of `load`. -/
def loadPhdr (env : LoadEnv) (fuel : Nat) (file : Executable) (s : Loader) (phdr : Phdr) :
    Except Halt (Bool × Loader) :=
  if validateSegment phdr file then
    let filePage := pgRoundDown phdr.offset
    let memPage := pgRoundDown phdr.vaddr
    let pageOffset := phdr.vaddr % pgSize
    if phdr.filesz > 0 then
      let readBytes := sizeT (pageOffset + phdr.filesz)
      let end_ := pgRoundUp (sizeT (pageOffset + phdr.memsz))
      loadSegment env fuel file (s.noteWrap end_ readBytes) (i32 filePage) memPage readBytes
        (sub32 end_ readBytes) phdr.writable
    else
      loadSegment env fuel file s (i32 filePage) memPage 0
        (pgRoundUp (sizeT (pageOffset + phdr.memsz))) phdr.writable
  else .ok (false, s)

/-- The loop over the program headers, with `more` of them to go. -/
def loadPhdrs (env : LoadEnv) (fuel : Nat) (file : Executable) :
    Nat → Loader → Int → Except Halt (Bool × Loader)
  | 0, s, _ => .ok (true, s)
  | more + 1, s, fileOfs =>
    if fileOfs < 0 ∨ fileOfs > file.length then .ok (false, s)
    else do
      let s ← s.fileSeek fileOfs
      match s.fileRead env file 32 with
      | (n, s) =>
        if n ≠ 32 then .ok (false, s)
        else
          let phdr := file.phdr fileOfs.toNat
          let next := i32 (fileOfs + 32)
          if phdr.type = ptDynamic ∨ phdr.type = ptInterp ∨ phdr.type = ptShlib then
            .ok (false, s)
          else if phdr.type = ptLoad then
            match ← s.loadPhdr env fuel file phdr with
            | (false, s) => .ok (false, s)
            | (true, s) => loadPhdrs env fuel file more s next
          else loadPhdrs env fuel file more s next

/-- `setup_stack`; the result is the stack pointer. -/
def setupStack (env : LoadEnv) (s : Loader) : Except Halt (Option Nat × Loader) :=
  match s.getPage env with
  | (none, s) => .ok (none, s)
  | (some kpage, s) => do
    let s := s.setMemory (memset s.memory kpage 0 pgSize)
    match ← s.installPage env (physBase - pgSize) kpage true with
    | (true, s) => .ok (some physBase, s)
    | (false, s) => .ok (none, s.freePage kpage)

/-- `"\177ELF\1\1\1"` -/
def elfIdent : List (BitVec 8) := [127, 69, 76, 70, 1, 1, 1]

/-- The test of the executable header. -/
def headerOk (e : Ehdr) : Prop :=
  e.ident = elfIdent ∧ e.type = 2 ∧ e.machine = 3 ∧ e.version = 1 ∧ e.phentsize = 32 ∧
    e.phnum ≤ 1024

instance (e : Ehdr) : Decidable (headerOk e) := inferInstanceAs (Decidable (_ ∧ _))

/-- `t->pagedir` is a new page directory, which has no user mappings, or `NULL`. -/
@[simps]
def setPagedir (s : Loader) (pagedir : Option Nat) : Loader :=
  { s with pagedir, tables := fun _ => false, pages := fun _ => none }

/-- `load`: the entry point and the stack pointer if it returns `true`. A loop of
`load_segment` is given `fuel` rounds. -/
def load (env : LoadEnv) (fuel : Nat) (s : Loader) : Except Halt (Option (Nat × Nat) × Loader) :=
  match s.getPage env with
  | (none, s) => .ok (none, s.setPagedir none)
  | (some pd, s) =>
    let s := s.setPagedir (some pd)
    match env.file with
    | none => .ok (none, s)
    | some file =>
      match (s.seek 0).fileRead env file 52 with
      | (n, s) =>
        if n ≠ 52 ∨ ¬ headerOk file.ehdr then .ok (none, s)
        else do
          match ← loadPhdrs env fuel file file.ehdr.phnum s (i32 file.ehdr.phoff) with
          | (false, s) => .ok (none, s)
          | (true, s) =>
            match ← s.setupStack env with
            | (none, s) => .ok (none, s)
            | (some esp, s) => .ok (some (file.ehdr.entry, esp), s)

/-- What a user program finds at the address `va`: the byte, and whether it may write it. -/
def userByte (s : Loader) (va : Nat) : Option (BitVec 8 × Bool) :=
  (s.pages (pgNo va)).map fun pte => (s.memory (pte.1 + pgOfs va), pte.2)

/-- The user program finds the segment: the bytes of the file, then zeros. -/
structure HasSegment (s : Loader) (file : Executable) (p : Phdr) : Prop where
  /-- the bytes are in the file -/
  source : 0 < p.filesz → p.offset + p.filesz ≤ file.length
  bytes : ∀ i < p.memsz, s.userByte (p.vaddr + i) =
    some (if i < p.filesz then file.data (p.offset + i) else 0, p.writable)

end Loader

/-- The page allocator returns fresh pages of RAM, or `NULL`. -/
structure LoadEnv.Fresh (env : LoadEnv) : Prop where
  frame : ∀ i k, env.answers i = some k → pgOfs k = 0 ∧ physBase ≤ k ∧
    (k - physBase) / pgSize < env.initRamPages ∧ k ≠ env.initPageDir
  distinct : ∀ i j k, env.answers i = some k → env.answers j = some k → i = j

end Calendarizador.Source
