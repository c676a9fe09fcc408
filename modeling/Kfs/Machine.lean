import Kfs.Lib.Bytes
import Kfs.Lib.Exec
import Kfs.Lib.Word

/-!
# The machine the kernel runs on

The kernel's static variables are the fields of `State`, one record for each
file of the source; everything reached through a pointer is in the memory
`M`. How a pointer reaches memory is the `Bus`: `Flat` is memory addressed
directly, with the page directory and the page tables in a store of their
own; `Kfs.Mmu` is physical memory behind the paging hardware.

An address in the code is tagged with what it points at (`Loc`), so that a
bus may tell page-table words from other data.
-/

namespace Kfs

open Kfs.Lib

/-! ## Constants (`kernel.h`, `pmm.h`, `paging.h`) -/

@[simp] def pageSize : Nat := 4096
@[simp] def pmmStart : Nat := 0x00100000
@[simp] def pmmMaxBytes : Nat := 10 * 1024 * 1024

@[simp] def userZoneStart : Nat := 0x00600000

@[simp] def kheapStart : Nat := 0x00200000
@[simp] def kheapEnd : Nat := 0x002FFFFF
@[simp] def kvmemStart : Nat := 0x00300000
@[simp] def kvmemEnd : Nat := 0x005FFFFF

@[simp] def pagePresent : Nat := 0x001
@[simp] def pageWrite : Nat := 0x002
@[simp] def pageUser : Nat := 0x004

@[simp] def bitmapWords : Nat := pmmMaxBytes / pageSize / 32 + 1

/-! ## State -/

/-- Why the kernel stops. -/
inductive Trap where
  /-- `kpanic_fatal` with its format and arguments. -/
  | panic (fmt : String) (args : List Nat)
  /-- A static array is indexed outside its bounds. -/
  | outOfBounds (index : Nat)
  /-- A pointer of a command reaches memory of the kernel itself; see `Guarded`. -/
  | strayAccess (addr : Nat)
  /-- The paging hardware refuses an access. -/
  | pageFault (addr : Nat)
  /-- A `while` loop has not ended within the model's bound on its rounds. -/
  | outOfFuel
  deriving DecidableEq, Repr

/-- The static variables of `pmm.c`. -/
structure Pmm where
  totalPages : Nat
  freePages : Nat
  pmmLimitBytes : Nat
  bitmap : Vector (BitVec 32) bitmapWords

/-- The static variables of `kheap.c`. -/
structure KHeap where
  heapBase : Nat
  heapSize : Nat
  heapUsed : Nat
  freeList : Nat
  deriving DecidableEq, Repr

/-- The static variables of `vmem.c`. -/
structure Vmem where
  vmemCurrent : Nat
  vmemSize : Nat
  vmemList : Nat
  deriving DecidableEq, Repr

structure State (M : Type) where
  pmm : Pmm
  kheap : KHeap
  vmem : Vmem
  mem : M

/-- The static variables as the loader leaves them. -/
def State.boot {M : Type} (mem : M) : State M where
  pmm := ⟨0, 0, 0, .replicate _ 0#32⟩
  kheap := ⟨0, 0, 0, 0⟩
  vmem := ⟨kvmemStart, 0, 0⟩
  mem := mem

/-- Where the linker puts the page directory and the three static page tables:
page-aligned, apart, and inside the megabyte that `pmm_init` reserves for the
kernel image. -/
structure Image where
  pageDirectory : Nat
  pageTables : Nat
  pdAligned : pageDirectory % 4096 = 0
  ptAligned : pageTables % 4096 = 0
  pdLo : 0x100000 ≤ pageDirectory
  pdHi : pageDirectory + 4096 ≤ 0x200000
  ptLo : 0x100000 ≤ pageTables
  ptHi : pageTables + 3 * 4096 ≤ 0x200000
  apart : pageDirectory + 4096 ≤ pageTables ∨ pageTables + 3 * 4096 ≤ pageDirectory

/-- The layout the README gives. -/
def Image.readme : Image where
  pageDirectory := 0x100000
  pageTables := 0x101000
  pdAligned := by decide
  ptAligned := by decide
  pdLo := by decide
  pdHi := by decide
  ptLo := by decide
  ptHi := by decide
  apart := by decide

/-- A layout that `link.ld` gives: the code starts at 1M, and `.bss` lies behind it. -/
def Image.linked : Image where
  pageDirectory := 0x10C000
  pageTables := 0x10D000
  pdAligned := by decide
  ptAligned := by decide
  pdLo := by decide
  pdHi := by decide
  ptLo := by decide
  ptHi := by decide
  apart := by decide

/-! ## The bus -/

/-- A pointer, tagged with what it points at. -/
inductive Loc where
  | data (a : Nat)
  | table (a : Nat)

/-- How the code's pointers reach memory, and the control registers. -/
class Bus (M : Type) where
  load : M → Loc → Except Trap Nat
  store : M → Loc → Nat → Except Trap M
  readCr0 : M → Nat
  writeCr0 : M → Nat → M
  loadCr3 : M → Nat → M

/-- Kernel code: it reads and writes the state and returns or stops. -/
abbrev K (M α : Type) := EStateM Trap (State M) α

variable {M α : Type}

def kpanicFatal (fmt : String) (args : List Nat) : K M α := throw (.panic fmt args)

section Bus

variable [Bus M]

def loadAt (l : Loc) : K M Nat := fun s =>
  match Bus.load s.mem l with
  | .ok v => .ok v s
  | .error e => .error e s

def storeAt (l : Loc) (v : Nat) : K M Unit := fun s =>
  match Bus.store s.mem l v with
  | .ok m => .ok () { s with mem := m }
  | .error e => .error e s

/-- `*(uint32_t *)a`; pointer arithmetic wraps at `2 ^ 32`. -/
def ld (a : Nat) : K M Nat := loadAt (.data (a % 2 ^ 32))

/-- `*(uint32_t *)a = v`. -/
def st (a v : Nat) : K M Unit := storeAt (.data (a % 2 ^ 32)) v

/-- Read a word of the page directory or of a page table. -/
def ldTable (a : Nat) : K M Nat := loadAt (.table a)

/-- Write a word of the page directory or of a page table. -/
def stTable (a v : Nat) : K M Unit := storeAt (.table a) v

def readCr0 : K M Nat := do return Bus.readCr0 (← get).mem

def writeCr0 (v : Nat) : K M Unit := modify fun s => { s with mem := Bus.writeCr0 s.mem v }

def loadCr3 (phys : Nat) : K M Unit := modify fun s => { s with mem := Bus.loadCr3 s.mem phys }

end Bus

/-! ## Memory addressed directly -/

/-- Data and page-table words in two stores, both addressed directly. No data write reaches a
page table here, wherever it goes. -/
structure Flat where
  data : Mem
  table : Mem
  cr0 : Nat
  cr3 : Nat

def Flat.blank : Flat := ⟨fun _ => 0, fun _ => 0, 0, 0⟩

instance : Bus Flat where
  load m
    | .data a => .ok (load32 m.data a)
    | .table a => .ok (load32 m.table a)
  store m
    | .data a, v => .ok { m with data := store32 m.data a v }
    | .table a, v => .ok { m with table := store32 m.table a v }
  readCr0 m := m.cr0
  writeCr0 m v := { m with cr0 := v }
  loadCr3 m v := { m with cr3 := v }

def State.setData (s : State Flat) (m : Mem) : State Flat :=
  { s with mem := { s.mem with data := m } }

def State.setTable (s : State Flat) (m : Mem) : State Flat :=
  { s with mem := { s.mem with table := m } }

theorem ld_flat {a : Nat} (h : a < 2 ^ 32) (s : State Flat) :
    ld a s = .ok (load32 s.mem.data a) s := by
  unfold ld
  rw [Nat.mod_eq_of_lt h]
  rfl

theorem st_flat {a : Nat} (h : a < 2 ^ 32) (v : Nat) (s : State Flat) :
    st a v s = .ok () (s.setData (store32 s.mem.data a v)) := by
  unfold st
  rw [Nat.mod_eq_of_lt h]
  rfl

theorem ldTable_flat (a : Nat) (s : State Flat) : ldTable a s = .ok (load32 s.mem.table a) s := rfl

theorem stTable_flat (a v : Nat) (s : State Flat) :
    stTable a v s = .ok () (s.setTable (store32 s.mem.table a v)) := rfl

end Kfs
