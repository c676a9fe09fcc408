import Kfs.Format
import Kfs.Literal
import Kfs.CommandLine
import Kfs.Memory
import Kfs.Lib.Program

/-!
# The shell's commands (`shell.c`)

A command is a program over what it can ask of the kernel: to print, to clear the
screen, to run code on the kernel's memory, to write to a port, or to stop the
machine. No command reads the screen or the keyboard. The source's functions stand
here under their names, with all that they print; `ksize` and `vsize` are here once
more, with the messages that they print.

Most commands have a counterpart in `Kfs.Shell` that leaves the printing out.
-/

namespace Kfs

open Kfs.Lib

/-- Why the processor runs no more code: the kernel stops itself, `hlt` with interrupts
off, or a reset. -/
inductive Stop where
  | trap (t : Trap)
  | halted
  | reset
  deriving DecidableEq, Repr

/-- What a command asks of the kernel. -/
inductive CmdOp (M : Type) : Type → Type 1 where
  | print (text : List (BitVec 8)) : CmdOp M Unit
  | clear : CmdOp M Unit
  | memory {α : Type} (x : K M α) : CmdOp M α
  | outb (port : Nat) (val : BitVec 8) : CmdOp M Unit
  | stop (s : Stop) : CmdOp M Unit

abbrev Cmd (M : Type) := Program (CmdOp M)

/-! ## Formats -/

/-- An argument of `kprintf`: a string, or a word. -/
inductive PrintArg where
  | str (s : List (BitVec 8))
  | num (v : Nat)

/-- The text of an argument for the letter `d`. -/
def PrintArg.rendering (d : BitVec 8) : PrintArg → List (BitVec 8)
  | .str s => if d = 115 then s else []
  | .num v =>
    if d = 99 then [.ofNat 8 v]
    else if d = 100 then decimalText (.ofNat 32 v)
    else if d = 115 then []
    else hexText (.ofNat 32 v)

/-- The text of the pieces of a format. -/
def printText : List (Piece (BitVec 8)) → List PrintArg → List (BitVec 8)
  | [], _ => []
  | .lit b :: ps, args => b :: printText ps args
  | .esc d :: ps, args =>
    if TakesArg d then
      match args with
      | a :: args => a.rendering d ++ printText ps args
      | [] => []
    else if d = percent then percent :: printText ps args
    else printText ps args

/-- The text of a call of `kprintf`. -/
def printed (fmt : String) (args : List PrintArg) : List (BitVec 8) :=
  printText (pieces percent (bytesOf fmt)) args

/-- The date and the time the kernel was built at, `__DATE__` and `__TIME__`. -/
structure Build where
  date : String
  time : String

namespace Cmd

variable {M : Type}

def kprintf (fmt : String) (args : List PrintArg) : Cmd M Unit :=
  .single (.print (printed fmt args))

def kprints (texts : List String) : Cmd M Unit := texts.forM fun text => kprintf text []

def memory {α : Type} (x : K M α) : Cmd M α := .single (.memory x)

def outb (port : Nat) (val : BitVec 8) : Cmd M Unit := .single (.outb port val)

/-- `outw`: a word goes to two ports. -/
def outw (port : Nat) (val : BitVec 16) : Cmd M Unit := do
  outb port (val.setWidth 8)
  outb (port + 1) ((val >>> 8).setWidth 8)

def stop (s : Stop) : Cmd M Unit := .single (.stop s)

/-- `argv[i]`. -/
def arg (argv : List (List (BitVec 8))) (i : Nat) : List (BitVec 8) := argv.getD i []

/-- `parse_hex_or_dec(argv[i])`. -/
def parseArg (argv : List (List (BitVec 8))) (i : Nat) : Nat := (parseHexOrDec (arg argv i)).toNat

/-! ## System commands -/

def cmdHelp : Cmd M Unit := do
  kprints
    ["System commands:\n",
      "  help clear echo reboot halt shutdown version gdt\n"]
  kprints
    ["Kernel Heap commands (kmalloc):\n",
      "  kmalloc     - Allocate kernel memory: kmalloc <bytes>\n",
      "  kfree       - Free kernel memory: kfree <addr>\n",
      "  ksize       - Get allocated block size: ksize <addr>\n",
      "  ktest       - Allocate, write, verify, free: ktest <bytes> <value>\n",
      "  kbrk        - Physical memory break: kbrk [new_addr]\n"]
  kprints
    ["Virtual Memory commands (vmalloc):\n",
      "  vmalloc vfree vsize vbrk\n",
      "  vget        - Show mapping of a virtual addr: vget <virt>\n"]
  kprints
    ["Memory Tests:\n",
      "  meminfo     - Show memory stats\n",
      "  present     - Map, unmap, then access to trigger not-present fault\n",
      "  pageops     - Test page creation and management\n",
      "  kmalloctest - Test allocation functions (kmalloc, kfree, ksize)\n",
      "  vmalloctest - Test allocation functions (vmalloc, vfree, vsize)\n",
      "  write       - Write int to any allocator addr: write <addr> <value>\n",
      "  read        - Read int from any allocator addr: read <addr>\n",
      "  rotest      - Test read-only page protection\n",
      "  pftest      - Test page fault handler by accessing invalid memory\n",
      "  panictest   - Test kernel panic handling\n"]

def cmdClear : Cmd M Unit := .single .clear

/-- The words, with a space after each but the last. -/
def echoWords : List (List (BitVec 8)) → Cmd M Unit
  | [] => pure ()
  | w :: ws => do
    kprintf "%s" [.str w]
    if ws ≠ [] then
      kprintf " " []
    echoWords ws

def cmdEcho (argv : List (List (BitVec 8))) : Cmd M Unit := do
  echoWords argv.tail
  kprintf "\n" []

/-- The last method, an interrupt without an IDT, resets the machine. -/
def cmdReboot : Cmd M Unit := do
  kprints ["Rebooting system...\n", "Trying multiple reboot methods...\n"]
  kprintf "Method 1: Keyboard controller reset...\n" []
  outb 0x64 0xFE
  kprintf "Method 2: ACPI reset...\n" []
  outb 0xCF9 0x06
  kprintf "Method 3: Triple fault...\n" []
  stop .reset

def cmdHalt : Cmd M Unit := do
  kprints
    ["System halted. To restart:\n",
      "- Physical computer: Press reset button on case\n",
      "- QEMU: Ctrl+A then X, or close window\n",
      "- VirtualBox: Machine menu -> Reset\n",
      "- VMware: VM menu -> Power -> Reset\n",
      "\nSystem is now halted...\n"]
  stop .halted

/-- The segment registers hold what `gdt_setup_at_required_address` loaded. -/
def cmdGdtInfo : Cmd M Unit := do
  kprintf "Global Descriptor Table Information:\n" []
  kprintf "  GDT Base Address: %x\n" [.num 0x00000800]
  kprints
    ["  Segment Layout:\n",
      "    0x00: Null Segment\n",
      "    0x08: Kernel Code Segment (Ring 0)\n",
      "    0x10: Kernel Data Segment (Ring 0)\n",
      "    0x18: Kernel Stack Segment (Ring 0)\n",
      "    0x20: User Code Segment (Ring 3)\n",
      "    0x28: User Data Segment (Ring 3)\n",
      "    0x30: User Stack Segment (Ring 3)\n",
      "  Current Segment Registers:\n"]
  kprintf "    CS: %x, DS: %x, ES: %x\n" [.num 0x08, .num 0x10, .num 0x10]
  kprintf "    FS: %x, GS: %x, SS: %x\n" [.num 0x10, .num 0x10, .num 0x18]

def cmdVersion (build : Build) : Cmd M Unit := do
  kprintf "KFS (Kernel From Scratch) v1.0\n" []
  kprintf "Built: %s %s\n" [.str (bytesOf build.date), .str (bytesOf build.time)]
  kprints
    ["Architecture: i386 (32-bit)\n",
      "Features: GDT, Interrupts, Keyboard, VGA Text Mode, Shell\n"]

/-- `int $0x15` finds no gate in the IDT, and neither do the faults that follow. -/
def cmdShutdown : Cmd M Unit := do
  kprints
    ["Shutting down system gracefully...\n",
      "This will try to power off the system.\n\n",
      "Attempting ACPI shutdown...\n"]
  outw 0x604 0x2000
  kprintf "Attempting APM shutdown...\n" []
  stop .reset

/-! ## Memory commands -/

def pmmTotalPages : K M Nat := do return (← get).pmm.totalPages

def pmmFreePages : K M Nat := do return (← get).pmm.freePages

/-- `pages * PAGE_SIZE / (1024 * 1024)` in 32 bits. -/
def pagesMb (pages : Nat) : Nat := pages * pageSize % 2 ^ 32 / (1024 * 1024)

def cmdPmminfo : Cmd M Unit := do
  let total ← memory pmmTotalPages
  let free ← memory pmmFreePages
  kprintf "Physical Memory Manager (PMM):\n" []
  kprintf "  Total pages: %d (%d MB)\n" [.num total, .num (pagesMb total)]
  kprintf "  Free pages: %d (%d MB)\n" [.num free, .num (pagesMb free)]

def cmdMeminfo : Cmd M Unit := do
  kprintf "=== Memory Information ===\n" []
  cmdPmminfo
  kprintf "\nAllocator Regions:\n" []
  kprintf "  kmalloc: %x - %x (64MB) - Physical memory\n" [.num kheapStart, .num kheapEnd]
  kprintf "  vmalloc: %x - %x (32MB) - Kernel virtual memory\n" [.num kvmemStart, .num kvmemEnd]
  kprintf "  vmalloc: %x - %x (64MB) - User virtual memory\n" [.num vmemStart, .num vmemEnd]

def cmdKbrk (argv : List (List (BitVec 8))) : Cmd M Unit := do
  if argv.length < 2 then
    let brk ← memory (kbrk 0)
    kprintf "kbrk: %x\n" [.num brk]
  else
    let newBrk := parseArg argv 1
    if newBrk = 0 then
      kprintf "[ERROR] vbrk: invalid address %x\n" [.num newBrk]
    else
      let result ← memory (kbrk newBrk)
      if result = 0xFFFFFFFF then
        kprintf "[ERROR] kbrk: invalid address %x\n" [.num newBrk]
      else
        kprintf "kbrk: %x\n" [.num result]

variable [Bus M] (img : Image) (build : Build)

/-- `ksize` with its messages. -/
def ksize (ptr : Nat) : Cmd M Nat := do
  if ptr = 0 then return 0
  let h ← memory (do return (← get).kheap)
  if h.heapBase = 0 || ptr < h.heapBase || ptr ≥ add32 h.heapBase h.heapSize then
    kprintf "[ERROR]ksize: invalid pointer %x (outside kernel heap)\n" [.num ptr]
    return 0
  let blk := sub32 ptr headerSize
  let magic ← memory (ld (blk + 8))
  if magic ≠ magicAllocated then
    kprintf "[ERROR] ksize: pointer %x refers to non-allocated block (magic=%x)\n"
      [.num ptr, .num magic]
    return 0
  if !(← memory (isValidKheapBlock blk)) then
    kprintf "[ERROR] ksize: pointer %x fails allocation validation\n" [.num ptr]
    return 0
  memory (ld blk)

/-- `vsize` with its messages. -/
def vsize (ptr : Nat) : Cmd M Nat := do
  if ptr = 0 then return 0
  let v ← memory (do return (← get).vmem)
  if ptr < kvmemStart || ptr ≥ v.vmemCurrent then
    kprintf "[ERROR] vsize: invalid pointer %x (outside vmalloc allocated region)\n" [.num ptr]
    return 0
  let blk := sub32 ptr vmemHeader
  let magic ← memory (ld (blk + 12))
  if magic ≠ vmemMagicAllocated then
    kprintf "[ERROR] vsize: pointer %x refers to non-allocated block (magic=%x)\n"
      [.num ptr, .num magic]
    return 0
  if !(← memory (isValidAllocatedBlock blk)) then
    kprintf "[ERROR] vsize: pointer %x fails allocation validation\n" [.num ptr]
    return 0
  memory (ld blk)

def cmdKmalloc (argv : List (List (BitVec 8))) : Cmd M Unit := do
  if argv.length < 2 then
    kprintf "Usage: kmalloc <bytes>\n" []
  else
    let n := parseArg argv 1
    let p ← memory (kmalloc n)
    kprintf "kmalloc(%d) -> %x\n" [.num n, .num p]

def cmdKfree (argv : List (List (BitVec 8))) : Cmd M Unit := do
  if argv.length < 2 then
    kprintf "Usage: kfree <addr>\n" []
  else
    let a := parseArg argv 1
    memory (kfree a)
    kprintf "kfree(%x)\n" [.num a]

def cmdKsize (argv : List (List (BitVec 8))) : Cmd M Unit := do
  if argv.length < 2 then
    kprintf "Usage: ksize <addr>\n" []
  else
    let a := parseArg argv 1
    let s ← ksize a
    kprintf "ksize(%x) -> %d\n" [.num a, .num s]

def cmdVmalloc (argv : List (List (BitVec 8))) : Cmd M Unit := do
  if argv.length < 2 then
    kprintf "Usage: vmalloc <bytes>\n" []
  else
    let n := parseArg argv 1
    let p ← memory (vmalloc img n)
    kprintf "vmalloc(%d) -> %x\n" [.num n, .num p]

def cmdVfree (argv : List (List (BitVec 8))) : Cmd M Unit := do
  if argv.length < 2 then
    kprintf "Usage: vfree <addr>\n" []
  else
    let a := parseArg argv 1
    memory (vfree a)
    kprintf "vfree(%x)\n" [.num a]

def cmdVsize (argv : List (List (BitVec 8))) : Cmd M Unit := do
  if argv.length < 2 then
    kprintf "Usage: vsize <addr>\n" []
  else
    let a := parseArg argv 1
    let s ← vsize a
    kprintf "vsize(%x) -> %d\n" [.num a, .num s]

def cmdVbrk (argv : List (List (BitVec 8))) : Cmd M Unit := do
  if argv.length < 2 then
    let brk ← memory (vbrk img 0)
    kprintf "vbrk: %x\n" [.num brk]
  else
    let newBrk := parseArg argv 1
    if newBrk = 0 then
      kprintf "[ERROR] vbrk: address %x not allocatable\n" [.num newBrk]
    else
      let result ← memory (vbrk img newBrk)
      if result = 0xFFFFFFFF then
        kprintf "[ERROR] vbrk: address %x not allocatable\n" [.num newBrk]
      else
        kprintf "vbrk: %x\n" [.num result]

def cmdVget (argv : List (List (BitVec 8))) : Cmd M Unit := do
  if argv.length < 2 then
    kprintf "Usage: vget <virt>\n" []
  else
    let virt := parseArg argv 1
    let pte ← memory (vmmGetMapping img virt)
    let pdIdx := (virt >>> 22) &&& 0x3FF
    let ptIdx := (virt >>> 12) &&& 0x3FF
    let offset := virt &&& 0xFFF
    kprintf "logical: %x (flat seg)\n" [.num virt]
    kprintf "virtual: %x  pd=%d pt=%d off=%d\n" [.num virt, .num pdIdx, .num ptIdx, .num offset]
    if pte = 0 then
      kprintf "mapping: (not present)\n" []
    else
      let phys := (pte &&& 0xFFFFF000) ||| offset
      let flags := pte &&& 0xFFF
      kprintf "physical: %x  flags: %x\n" [.num phys, .num flags]

/-! ## Test commands -/

def cmdPageOps : Cmd M Unit := do
  kprintf "Page ops test...\n" []
  let phys ← memory pmmAllocPage
  if phys = 0 then
    kprintf "alloc failed\n" []
    return
  let virt := 0x10000000
  if (← memory (vmmMapPage img virt phys pageWrite)) ≠ 0 then
    kprintf "map failed\n" []
    memory (pmmFreePage phys)
    return
  memory (st virt 0x12345678)
  let back ← memory (ld virt)
  kprintf "map %x -> %x, rw=%s\n"
    [.num virt, .num phys, .str (bytesOf (if back = 0x12345678 then "ok" else "bad"))]
  let got ← memory (vmmGetMapping img virt)
  kprintf "get %x => %x\n" [.num virt, .num got]
  memory (vmmUnmapPage img virt)
  let after ← memory (vmmGetMapping img virt)
  kprintf "unmap ok=%s\n" [.str (bytesOf (if after = 0 then "yes" else "no"))]
  memory (pmmFreePage phys)

/-- Reloading CR3 flushes the TLB, which the bus does not have. -/
def cmdPresent : Cmd M Unit := do
  kprintf "present test: 1. map 2. unmap 3. fault\n" []
  let virt := 0x50000000
  let phys ← memory pmmAllocPage
  if phys = 0 then
    kprintf "alloc failed\n" []
    return
  if (← memory (vmmMapPage img virt phys (pageWrite ||| pageUser))) ≠ 0 then
    kprintf "map failed\n" []
    memory (pmmFreePage phys)
    return
  memory (st virt 0xCAFEBABE)
  kprintf "mapped and wrote ok\n" []
  kprintf "unmapping page at %x...\n" [.num virt]
  memory (vmmUnmapPage img virt)
  memory (pmmFreePage phys)
  kprintf "unmapped\n" []
  kprintf "flushing TLB...\n" []
  let mapping ← memory (vmmGetMapping img virt)
  kprintf "mapping check: %x -> %x (should be 0)\n" [.num virt, .num mapping]
  kprintf "about to access unmapped address; expect panic/page fault...\n" []
  discard (memory (ld virt))

/-- One test of `kmalloctest` or `vmalloctest`: allocate, ask for the size, free. -/
def sizeTest (name sizeName : String) (alloc size : Nat → Cmd M Nat)
    (free : Nat → Cmd M Unit) (n : Nat) :
    Cmd M Unit := do
  let ptr ← alloc n
  kprintf ("\n  " ++ name ++ " = %x\n") [.num ptr]
  let s ← size ptr
  kprintf ("  " ++ sizeName ++ "(%x) = %d bytes\n\n") [.num ptr, .num s]
  cmdPmminfo
  free ptr

def cmdKmallocTest : Cmd M Unit := do
  cmdPmminfo
  sizeTest "kmalloc(100)" "ksize" (fun n => memory (kmalloc n)) ksize
    (fun p => memory (kfree p)) 100
  sizeTest "kmalloc(5000)" "ksize" (fun n => memory (kmalloc n)) ksize
    (fun p => memory (kfree p)) 5000

def cmdVmallocTest : Cmd M Unit := do
  cmdPmminfo
  sizeTest "vmalloc(200)" "vsize" (fun n => memory (vmalloc img n)) vsize
    (fun p => memory (vfree p)) 200
  sizeTest "vmalloc(5000)" "vsize" (fun n => memory (vmalloc img n)) vsize
    (fun p => memory (vfree p)) 5000

/-- `ktest` and `vtest`, with the names that they print. -/
def allocTest (test alloc size free : String) (allocFn sizeFn : Nat → Cmd M Nat)
    (freeFn : Nat → Cmd M Unit) (argv : List (List (BitVec 8))) : Cmd M Unit := do
  if argv.length < 3 then
    kprintf ("Usage: " ++ test ++ " <bytes> <value>\n") []
    return
  let nbytes := parseArg argv 1
  let value := parseArg argv 2
  let ptr ← allocFn nbytes
  if ptr = 0 then
    kprintf (test ++ ": " ++ alloc ++ "(%d) failed\n") [.num nbytes]
    return
  kprintf (test ++ ": " ++ alloc ++ "(%d) -> %x\n") [.num nbytes, .num ptr]
  kprintf (test ++ ": writing value %d to %d bytes\n") [.num value, .num nbytes]
  memory (st ptr value)
  let back ← memory (ld ptr)
  kprintf (test ++ ": read back first int = %d\n") [.num back]
  let got ← sizeFn ptr
  kprintf (test ++ ": " ++ size ++ "(%x) -> %d\n") [.num ptr, .num got]
  kprintf (test ++ ": verify OK\n") []
  freeFn ptr
  kprintf (test ++ ": " ++ free ++ "(%x)\n") [.num ptr]

def cmdKtest : List (List (BitVec 8)) → Cmd M Unit :=
  allocTest "ktest" "kmalloc" "ksize" "kfree" (fun n => memory (kmalloc n)) ksize
    (fun p => memory (kfree p))

def cmdVtest : List (List (BitVec 8)) → Cmd M Unit :=
  allocTest "vtest" "vmalloc" "vsize" "vfree" (fun n => memory (vmalloc img n)) vsize
    (fun p => memory (vfree p))

/-- The size that the allocator of its region gives for `addr`. -/
def allocSize (addr : Nat) : Cmd M (AllocType × Nat) := do
  if addr ≥ kheapStart && addr < kheapEnd then
    return (.kmalloc, ← ksize addr)
  else if addr ≥ kvmemStart && addr < kvmemEnd then
    return (.kvmalloc, ← vsize addr)
  else if addr ≥ vmemStart && addr < vmemEnd then
    return (.vmalloc, ← vsize addr)
  else
    return (.unknown, 0)

def cmdWrite (argv : List (List (BitVec 8))) : Cmd M Unit := do
  if argv.length < 3 then
    kprintf "Usage: write <addr> <value>\n" []
    return
  let addr := parseArg argv 1
  let val := parseArg argv 2
  if val > 0x7FFFFFFF then
    kprintf "write: value too big for int: %x\n" [.num val]
    return
  if addr < 0x00100000 then
    memory (kpanicFatal "write: attempt to write to BIOS memory at %p\n" [addr])
  let (type, size) ← allocSize addr
  if size > 0 then
    if 4 > size then
      memory (kpanicFatal ("write: buffer overflow detected! Writing 4 bytes to " ++ type.text ++
        " allocation of %d bytes at %p\n") [size, addr])
    kprintf "write: writing to %s allocation (%d bytes) at %p\n"
      [.str (bytesOf type.text), .num size, .num addr]
  else
    kprintf "write: WARNING - address %p not recognized as valid allocation\n" [.num addr]
    return
  memory (st addr val)
  kprintf "write: *(int*)%x = %d\n" [.num addr, .num val]

def cmdRead (argv : List (List (BitVec 8))) : Cmd M Unit := do
  if argv.length < 2 then
    kprintf "Usage: read <addr>\n" []
    return
  let addr := parseArg argv 1
  let (type, size) ← allocSize addr
  if size > 0 then
    if 4 > size then
      memory (kpanicFatal ("read: buffer overflow detected! Reading 4 bytes from " ++ type.text ++
        " allocation of %d bytes at %p\n") [size, addr])
    kprintf "read: reading from %s allocation (%d bytes) at %p\n"
      [.str (bytesOf type.text), .num size, .num addr]
  else
    kprintf "read: WARNING - address %p not recognized as valid allocation\n" [.num addr]
    return
  let val ← memory (ld addr)
  kprintf "read: *(int*)%x = %d\n" [.num addr, .num val]

def cmdRotest : Cmd M Unit := do
  kprintf "Testing read-only page protection...\n" []
  let physPage ← memory pmmAllocPage
  if physPage = 0 then
    kprintf "rotest: failed to allocate physical page\n" []
    return
  kprintf "rotest: allocated physical page at %x\n" [.num physPage]
  let virtAddr := 0x50000000
  if (← memory (vmmMapPage img virtAddr physPage pagePresent)) ≠ 0 then
    kprintf "rotest: failed to map read-only page\n" []
    memory (pmmFreePage physPage)
    return
  kprintf "rotest: mapped read-only page at virtual %x\n" [.num virtAddr]
  let originalValue ← memory (ld virtAddr)
  kprintf "rotest: read from page: %x\n" [.num originalValue]
  kprints
    ["rotest: attempting to write to read-only page...\n",
      "rotest: WARNING - this may cause a page fault!\n"]
  memory (st virtAddr 0xDEADBEEF)
  kprintf "rotest: write succeeded - protection not working!\n" []
  let newValue ← memory (ld virtAddr)
  kprintf "rotest: new value: %x\n" [.num newValue]
  memory (vmmUnmapPage img virtAddr)
  memory (pmmFreePage physPage)
  kprintf "rotest: cleaned up\n" []

def cmdPftest : Cmd M Unit := do
  kprints
    ["=== Page Fault Handler Test ===\n",
      "Testing page fault detection and handling...\n\n",
      "Test 1: Accessing unmapped memory\n",
      "pftest: About to access 0x12345678 (unmapped)...\n",
      "pftest: This should trigger a page fault!\n"]
  discard (memory (ld 0x12345678))
  kprintf "pftest: ERROR - Page fault handler not working!\n" []

def cmdPftest2 : Cmd M Unit := do
  kprints
    ["=== Simple Page Fault Test ===\n",
      "pftest2: About to access unmapped memory at 0x20000000\n",
      "pftest2: This should trigger a page fault!\n",
      "pftest2: If you see this message after the access, the handler isn't working.\n"]
  discard (memory (ld 0x20000000))
  kprints
    ["pftest2: ERROR - Page fault handler not working!\n",
      "pftest2: The access succeeded when it should have failed!\n"]

def cmdPanicTest : Cmd M Unit := do
  kprints
    ["Fatal Panic Test - Out of Memory:\n",
      "   Testing kpanic_fatal() on out of memory...\n"]
  discard (memory (kmalloc (50 * 1024 * 1024)))

def function (argv : List (List (BitVec 8))) : ShellCommand → Cmd M Unit
  | .help => cmdHelp
  | .clear => cmdClear
  | .echo => cmdEcho argv
  | .reboot => cmdReboot
  | .halt => cmdHalt
  | .gdt => cmdGdtInfo
  | .version => cmdVersion build
  | .shutdown => cmdShutdown
  | .meminfo => cmdMeminfo
  | .kmalloc => cmdKmalloc argv
  | .kfree => cmdKfree argv
  | .ksize => cmdKsize argv
  | .kbrk => cmdKbrk argv
  | .vmalloc => cmdVmalloc img argv
  | .vfree => cmdVfree argv
  | .vsize => cmdVsize argv
  | .vbrk => cmdVbrk img argv
  | .vget => cmdVget img argv
  | .present => cmdPresent img
  | .pageops => cmdPageOps img
  | .kmalloctest => cmdKmallocTest
  | .vmalloctest => cmdVmallocTest img
  | .ktest => cmdKtest argv
  | .vtest => cmdVtest img argv
  | .write => cmdWrite argv
  | .read => cmdRead argv
  | .rotest => cmdRotest img
  | .pftest => cmdPftest
  | .pftest2 => cmdPftest2
  | .panictest => cmdPanicTest

end Cmd

end Kfs
