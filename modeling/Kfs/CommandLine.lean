import Kfs.Printf
import Kfs.Lib.CString

/-!
# From a line to a command (`shell.c`, `string.c`)

`shell_process_input` copies the line into `shell_buffer`; `shell_execute_command`
has it copied once more, into `args_buffer`, where `shell_parse_args` cuts it into
words in place: each word's end is overwritten by a NUL, and `argv` points at the
words' first characters. Then the table is searched for the first word.

Arrays are indexed through functions that stop the run outside their bounds. What
a command does is a parameter: it gets `argc` and `argv`, with the buffer they point
into, and may print or stop. Every call of a command is recorded.
-/

namespace Kfs

open Kfs.Lib

@[simp] def shellBufferSize : Nat := 256
@[simp] def shellMaxArgs : Nat := 16

@[simp] def tab : BitVec 8 := 9

/-- The entries of the table `commands`, each with its own function. -/
inductive ShellCommand where
  | help | clear | echo | reboot | halt | gdt | version | shutdown | meminfo
  | kmalloc | kfree | ksize | kbrk | vmalloc | vfree | vsize | vbrk | vget
  | present | pageops | kmalloctest | vmalloctest | ktest | vtest | write | read
  | rotest | pftest | pftest2 | panictest
  deriving DecidableEq, Repr

namespace ShellCommand

def name : ShellCommand → String
  | help => "help" | clear => "clear" | echo => "echo" | reboot => "reboot" | halt => "halt"
  | gdt => "gdt" | version => "version" | shutdown => "shutdown" | meminfo => "meminfo"
  | kmalloc => "kmalloc" | kfree => "kfree" | ksize => "ksize" | kbrk => "kbrk"
  | vmalloc => "vmalloc" | vfree => "vfree" | vsize => "vsize" | vbrk => "vbrk" | vget => "vget"
  | present => "present" | pageops => "pageops" | kmalloctest => "kmalloctest"
  | vmalloctest => "vmalloctest" | ktest => "ktest" | vtest => "vtest" | write => "write"
  | read => "read" | rotest => "rotest" | pftest => "pftest" | pftest2 => "pftest2"
  | panictest => "panictest"

/-- The table, without its sentinel. -/
def table : List ShellCommand :=
  [help, clear, echo, reboot, halt, gdt, version, shutdown, meminfo, kmalloc, kfree, ksize, kbrk,
    vmalloc, vfree, vsize, vbrk, vget, present, pageops, kmalloctest, vmalloctest, ktest, vtest,
    write, read, rotest, pftest, pftest2, panictest]

theorem name_noNul (cmd : ShellCommand) : (0 : BitVec 8) ∉ bytesOf cmd.name := by
  cases cmd <;> decide

theorem name_length (cmd : ShellCommand) : (bytesOf cmd.name).length < 2 ^ 32 := by
  cases cmd <;> decide

def nameStr (cmd : ShellCommand) : CStr := ⟨bytesOf cmd.name, cmd.name_noNul, cmd.name_length⟩

end ShellCommand

/-! ## State -/

/-- `argc`, `argv` and the buffer that `argv` points into; `none` is `NULL`. -/
structure Args where
  argc : Nat
  argv : Nat → Option Nat
  buffer : Mem

/-- The shell's arrays, the screens, and the commands called so far, the latest first. -/
structure ShellState where
  console : Console
  shellBuffer : Mem
  args : Args
  calls : List (ShellCommand × Args)

abbrev Sh (α : Type) := EStateM Trap ShellState α

/-- What the commands do. -/
abbrev Handlers := ShellCommand → Args → C Unit

def onConsole {α : Type} (x : C α) : Sh α := fun s =>
  match x s.console with
  | .ok a c => .ok a { s with console := c }
  | .error e c => .error e { s with console := c }

def loadChar (str : CStr) (i : Nat) : Sh (BitVec 8) := do
  if i ≤ str.length then return str.byte i
  throw (.outOfBounds i)

def loadShell (i : Nat) : Sh (BitVec 8) := do
  if i < shellBufferSize then return (← get).shellBuffer i
  throw (.outOfBounds i)

def storeShell (i : Nat) (b : BitVec 8) : Sh Unit := do
  if i < shellBufferSize then
    modify fun s => { s with shellBuffer := storeByte s.shellBuffer i b }
  else
    throw (.outOfBounds i)

def loadArgs (i : Nat) : Sh (BitVec 8) := do
  if i < shellBufferSize then return (← get).args.buffer i
  throw (.outOfBounds i)

def storeArgs (i : Nat) (b : BitVec 8) : Sh Unit := do
  if i < shellBufferSize then
    modify fun s => { s with args := { s.args with buffer := storeByte s.args.buffer i b } }
  else
    throw (.outOfBounds i)

def storeArgv (i : Nat) (p : Option Nat) : Sh Unit := do
  if i < shellMaxArgs then
    modify fun s => { s with args := { s.args with argv := Function.update s.args.argv i p } }
  else
    throw (.outOfBounds i)

def loadArg (i j : Nat) : Sh (BitVec 8) := do
  if i < shellMaxArgs then
    match (← get).args.argv i with
    | some a => loadArgs (a + j)
    | none => throw (.pageFault 0)
  else
    throw (.outOfBounds i)

def setArgc (n : Nat) : Sh Unit := modify fun s => { s with args := { s.args with argc := n } }

/-! ## Parsing -/

def isBlank (c : BitVec 8) : Bool := c = space ∨ c = tab

def isWordChar (c : BitVec 8) : Bool := c ≠ space ∧ c ≠ tab ∧ c ≠ 0

/-- A pointer that moves over `args_buffer` leaves it before this many rounds. -/
def scanLimit : Nat := shellBufferSize + 1

/-- One round of the outer loop, from `token`. -/
def parseRound (last token : Nat) : Sh (Nat ⊕ Unit) := do
  let argc := (← get).args.argc
  if token < last ∧ argc < shellMaxArgs - 1 then
    let token ← scan .outOfFuel loadArgs isBlank scanLimit token
    if (← loadArgs token) = 0 then
      return .inr ()
    storeArgv argc (some token)
    setArgc (argc + 1)
    let token ← scan .outOfFuel loadArgs isWordChar scanLimit token
    if (← loadArgs token) ≠ 0 then
      storeArgs token 0
      return .inl (token + 1)
    return .inl token
  return .inr ()

/-- `input` is what the source string is read with. -/
def shellParseArgs (input : Nat → Sh (BitVec 8)) : Sh Unit := do
  strcpy .outOfFuel storeArgs input scanLimit
  setArgc 0
  let last ← strlen .outOfFuel loadArgs scanLimit
  iterate .outOfFuel (parseRound last) shellMaxArgs 0
  storeArgv (← get).args.argc none

/-! ## Commands -/

/-- `kprintf` with a format that is `before`, `%s` and a line feed. -/
def kprintfLine (before : String) (str : List (BitVec 8)) : C Unit :=
  screenPutstring (bytesOf before ++ str ++ [newline])

/-- `commands[i].function(argc, argv)`. -/
def callCommand (handlers : Handlers) (cmd : ShellCommand) : Sh Unit := do
  let args := (← get).args
  modify fun s => { s with calls := (cmd, args) :: s.calls }
  onConsole (handlers cmd args)

/-- The first entry whose name is `argv[0]`. -/
def findCommand : List ShellCommand → Sh (Option ShellCommand)
  | [] => return none
  | cmd :: cmds => do
    if (← strcmp .outOfFuel (loadArg 0) (loadChar cmd.nameStr) scanLimit) = 0 then
      return some cmd
    findCommand cmds

def shellExecuteCommand (handlers : Handlers) (commandLine : Nat → Sh (BitVec 8)) : Sh Unit := do
  shellParseArgs commandLine
  let args := (← get).args
  if args.argc ≠ 0 then
    match ← findCommand ShellCommand.table with
    | some cmd =>
      onConsole (kprintfLine "Executing command: " cmd.nameStr.bytes)
      callCommand handlers cmd
    | none =>
      onConsole (kprintfLine "Unknown command: "
        (cString args.buffer ((args.argv 0).getD 0) shellBufferSize))
      onConsole (kprintf "Type 'help' for available commands.\n")

/-- `shell_process_input`, with the commands as a parameter. -/
def Shell.shellProcessInput (handlers : Handlers) (input : CStr) : Sh Unit := do
  let len ← strlen .outOfFuel (loadChar input) addressSpace
  if len = 0 then
    onConsole shellPrintPrompt
  else
    if len < shellBufferSize - 1 then
      strcpy .outOfFuel storeShell (loadChar input) addressSpace
      shellExecuteCommand handlers loadShell
    else
      onConsole (kprintf "Command too long!\n")
    onConsole shellPrintPrompt

end Kfs
