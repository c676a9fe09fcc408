import Kfs.Command
import Kfs.CommandRun
import Kfs.Interrupt
import Kfs.Typing

/-!
# The whole kernel (`kernel_main.c`, `keyboard.c`, `shell.c`, `panic.c`)

`Kernel` puts the parts together: the memory that the allocators and the page tables
live in, the shell with its screens, and the keyboard. A scancode goes all the way: from
the interrupt handler to the input line, and with Enter through the shell into a
command, which works on memory and prints.

When kernel code stops, `kpanic_fatal` prints on the screen that is shown and halts. A
page fault gets there through `page_fault_handler`. It takes the word at `28(%esp)` for
the error code; what lies there depends on the compiler, and is a parameter here.

What a stray pointer of a command would do to the other parts is not modelled. Where
that matters the kernel runs on guarded memory, which stops it there.
-/

namespace Kfs

open Kfs.Lib

/-- The memory that pointers reach is in `st`. The shell's arrays, the screens and text memory,
the keyboard's variables and the table of gates are stores of their own, which no data write
reaches (at `Flat` the page tables too). In the source all of these are mapped and writable: see
`Guarded`. -/
structure Kernel (M : Type) where
  st : State M
  shell : ShellState
  keys : KeyboardState
  extended : BitVec 8
  ports : List (Nat × BitVec 8)
  intr : Interrupts

abbrev Ke (M α : Type) := EStateM Stop (Kernel M) α

/-- What the model leaves open: where the linker puts the tables and the handlers, when the
kernel was built, and the word that `page_fault_handler` takes for the error code. -/
structure Setup where
  img : Image
  link : Linkage
  build : Build
  errorCode : Nat

/-- The layout that the README gives, with the table and the handlers inside the image. -/
def Setup.readme : Setup where
  img := Image.readme
  link := ⟨0x110000, 0x120000, 0x120010⟩
  build := ⟨"Jan  1 2025", "00:00:00"⟩
  errorCode := 0

variable {M α : Type}

/-- No key is down and nothing is on the screens. -/
def Kernel.blank (s : State M) : Kernel M where
  st := s
  shell := ⟨.blank, fun _ => 0, ⟨0, fun _ => none, fun _ => 0⟩, []⟩
  keys := ⟨0, 0, 0⟩
  extended := 0
  ports := []
  intr := ⟨.replicate 256 (gateOf 0 0 0), ⟨0, 0⟩, ⟨0, 0⟩, false⟩

/-! ## Parts of the kernel -/

def onShell (x : Sh α) : Ke M α := fun k =>
  match x k.shell with
  | .ok a s => .ok a { k with shell := s }
  | .error e s => .error (.trap e) { k with shell := s }

def onDisplay (x : C α) : Ke M α := onShell (onConsole x)

/-- What the keyboard driver sees. -/
def Kernel.keyboard (k : Kernel M) : Keyboard := ⟨k.keys, k.extended, k.shell.console, k.ports⟩

def Kernel.putKeyboard (k : Kernel M) (b : Keyboard) : Kernel M where
  st := k.st
  shell := { k.shell with console := b.console }
  keys := b.keys
  extended := b.extended
  ports := b.ports
  intr := k.intr

def onKeyboard (x : Kb α) : Ke M α := fun k =>
  match x k.keyboard with
  | .ok a b => .ok a (k.putKeyboard b)
  | .error e b => .error (.trap e) (k.putKeyboard b)

/-! ## Faults and panics (`paging.c`, `panic.c`) -/

section Trap

variable [Bus M] (cfg : Setup)

def pageFaultHandler (faultAddr errorCode : Nat) : K M Unit := do
  if faultAddr < 0x00100000 then
    kpanicFatal "Access to BIOS memory region denied\n" []
  if errorCode &&& 0x4 ≠ 0 && faultAddr < userZoneStart then
    kpanicFatal "User access to kernel space denied\n" []
  if errorCode &&& 0x4 ≠ 0 && faultAddr ≥ userZoneStart then
    let pte ← virtToPte cfg.img faultAddr false
    if pte ≠ 0 then
      if (← ldTable pte) &&& pagePresent ≠ 0 then
        kpanicFatal "User access to supervisor-only page denied\n" []
  kpanicFatal "Page fault\n" []

/-- Kernel code whose page faults go to the handler. -/
def handled (x : K M α) : K M α := fun s =>
  match x s with
  | .error (.pageFault a) s =>
    match pageFaultHandler cfg a cfg.errorCode s with
    | .ok () s => .error (.pageFault a) s
    | .error e s => .error e s
  | r => r

/-- What `kpanic_fatal` prints. -/
def Trap.message : Trap → List (BitVec 8)
  | .panic fmt args => printed fmt (args.map .num) ++ bytesOf "\nKernel halted.\n"
  | _ => []

/-- The panic is printed, and nothing runs any more. -/
def halt (e : Trap) : Ke M α := do
  onDisplay (screenPutstring e.message)
  throw (.trap e)

/-- Code that works on memory. -/
def inMemory (x : K M α) : Ke M α := fun k =>
  match handled cfg x k.st with
  | .ok a s => .ok a { k with st := s }
  | .error e s => halt e { k with st := s }

end Trap

/-! ## Commands -/

section Run

variable [Bus M] (cfg : Setup)

def CmdOp.act : ∀ α, CmdOp M α → Ke M α
  | _, .print text => onDisplay (screenPutstring text)
  | _, .clear => onDisplay screenClear
  | _, .memory x => inMemory cfg x
  | _, .outb port val => modify fun k => { k with ports := (port, val) :: k.ports }
  | _, .stop s => throw s

/-- The strings that `argv` points at. -/
def Args.words (args : Args) : List (List (BitVec 8)) :=
  (List.range args.argc).map fun i => cString args.buffer ((args.argv i).getD 0) shellBufferSize

namespace Kernel

def shellExecuteCommand (commandLine : Nat → Sh (BitVec 8)) : Ke M Unit := do
  onShell (shellParseArgs commandLine)
  let args := (← get).shell.args
  if args.argc ≠ 0 then
    match ← onShell (findCommand ShellCommand.table) with
    | some cmd =>
      onDisplay (kprintfLine "Executing command: " cmd.nameStr.bytes)
      onShell (modify fun s => { s with calls := (cmd, args) :: s.calls })
      (Cmd.function cfg.img cfg.build args.words cmd).run (CmdOp.act cfg)
    | none =>
      onDisplay (kprintfLine "Unknown command: "
        (cString args.buffer ((args.argv 0).getD 0) shellBufferSize))
      onDisplay (kprintf "Type 'help' for available commands.\n")

def shellProcessInput (input : CStr) : Ke M Unit := do
  let len ← onShell (strlen .outOfFuel (loadChar input) addressSpace)
  if len = 0 then
    onDisplay shellPrintPrompt
  else
    if len < shellBufferSize - 1 then
      onShell (strcpy .outOfFuel storeShell (loadChar input) addressSpace)
      shellExecuteCommand cfg loadShell
    else
      onDisplay (kprintf "Command too long!\n")
    onDisplay shellPrintPrompt

end Kernel

/-! ## Keys -/

theorem zero_notMem_cString (m : Mem) : ∀ (n a : Nat), 0 ∉ cString m a n
  | 0, _ => List.not_mem_nil
  | n + 1, a => by
    unfold cString
    split
    · exact List.not_mem_nil
    · next h0 =>
      rw [List.mem_cons, not_or]
      exact ⟨Ne.symm h0, zero_notMem_cString m n (a + 1)⟩

theorem cString_length_le (m : Mem) : ∀ (n a : Nat), (cString m a n).length ≤ n
  | 0, _ => Nat.le_refl 0
  | n + 1, a => by
    unfold cString
    split
    · exact Nat.zero_le _
    · exact Nat.succ_le_succ (cString_length_le m n (a + 1))

def lineStr (s : ScreenState) : CStr where
  bytes := cString s.buffer 0 screenSize
  noNul := zero_notMem_cString _ _ _
  small := Nat.lt_of_le_of_lt (cString_length_le _ _ _) (by decide)

namespace Kernel

def inputNewline : Ke M Unit := do
  onDisplay (do bufSet (← cur).inputLength 0)
  onDisplay (screenPutchar newline)
  let s ← onDisplay cur
  if s.inputLength > 0 then
    shellProcessInput cfg (lineStr s)
  else
    onDisplay shellPrintPrompt
  onDisplay (setCur fun s => { s with inputLength := 0, inputCursor := 0 })

/-- The key types a character. -/
def typeKey (scancode : BitVec 8) : Ke M Unit := do
  let c ← onKeyboard (scancodeToAscii scancode)
  if c = backspace then
    onDisplay inputDeleteCharAtCursor
  else if c = newline then
    inputNewline cfg
  else
    onDisplay (inputInsertCharAtCursor c)

/-- The press of a key without prefix; only the keys that type reach the shell. -/
def keyPress (scancode : BitVec 8) : Ke M Unit :=
  if scancode ∈ caseKeys then onKeyboard (Kfs.keyPress scancode [])
  else typeKey cfg scancode

def keyboardHandler (scancode : BitVec 8) : Ke M Unit := do
  if scancode = extendedPrefix then
    onKeyboard (setExtended 1)
    onKeyboard (picSendEoi irq1)
  else if scancode &&& 0x80 = 0 then
    if (← get).extended ≠ 0 then
      onKeyboard (extendedPress scancode)
      onKeyboard (setExtended 0)
      onKeyboard (picSendEoi irq1)
    else
      keyPress cfg scancode
      onKeyboard (picSendEoi irq1)
      onKeyboard (setExtended 0)
  else
    onKeyboard (keyRelease scancode)
    onKeyboard (picSendEoi irq1)
    onKeyboard (setExtended 0)

/-- A sequence of scancodes, each handled before the next. -/
def typeCodes : List (BitVec 8) → Ke M Unit
  | [] => pure ()
  | c :: codes => do
    keyboardHandler cfg c
    typeCodes codes

end Kernel

end Run

end Kfs
