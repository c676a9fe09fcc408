import Kfs.Machine
import Mathlib.Logic.Function.Basic

/-!
# Screens and the input line (`screen.c`)

Three screens share the text memory at `0xB8000`. A `struct screen_state` keeps
a screen's cursor, its colour and the line being typed on it; its `buffer` is
used for two things, the characters of that line and the image of the screen
while another one is shown.

`buffer` is an array of `SCREEN_SIZE` bytes, and an index outside it stops the
run with `outOfBounds`. Text memory goes on past the 2000 cells of the screen, so
`Vga` is a total map; the indices written are recorded, since `VGA_BUFFER` is
volatile. The output of a shell command is a parameter: commands reach the
display only by printing and by `screen_clear`.
-/

namespace Kfs

open Kfs.Lib

@[simp] def screenWidth : Nat := 80
@[simp] def screenHeight : Nat := 25
@[simp] def screenSize : Nat := screenWidth * screenHeight * 2
abbrev maxScreens : Nat := 3

instance : NeZero maxScreens := ⟨by decide⟩

/-- `enum vga_color`. -/
inductive VgaColor where
  | black | blue | green | cyan | red | magenta | brown | lightGrey
  | darkGrey | lightBlue | lightGreen | lightCyan | lightRed | lightMagenta | lightBrown | white
  deriving DecidableEq, Repr

def VgaColor.code : VgaColor → BitVec 8
  | .black => 0 | .blue => 1 | .green => 2 | .cyan => 3 | .red => 4 | .magenta => 5 | .brown => 6
  | .lightGrey => 7 | .darkGrey => 8 | .lightBlue => 9 | .lightGreen => 10 | .lightCyan => 11
  | .lightRed => 12 | .lightMagenta => 13 | .lightBrown => 14 | .white => 15

def vgaColor (fg bg : VgaColor) : BitVec 8 := fg.code ||| bg.code <<< 4

def vgaEntry (uc color : BitVec 8) : BitVec 16 := uc.setWidth 16 ||| color.setWidth 16 <<< 8

/-! ## State -/

/-- `struct screen_state`. -/
structure ScreenState where
  buffer : Mem
  cursorX : Nat
  cursorY : Nat
  inputLength : Nat
  inputCursor : Nat
  inputStartX : Nat
  inputStartY : Nat
  color : BitVec 8

/-- Text memory by bytes, and the cells written so far, the latest first. -/
structure Vga where
  mem : Mem
  written : List Nat

/-- `VGA_BUFFER[i]`. -/
def Vga.cell (v : Vga) (i : Nat) : BitVec 16 := v.mem (2 * i + 1) ++ v.mem (2 * i)

/-- `VGA_BUFFER[i] = e`. -/
def Vga.set (v : Vga) (i : Nat) (e : BitVec 16) : Vga where
  mem := storeByte (storeByte v.mem (2 * i) (e.extractLsb' 0 8)) (2 * i + 1) (e.extractLsb' 8 8)
  written := i :: v.written

/-- The screens, the one `current_screen` points at, text memory, and the position in
the cursor registers. They are a store of their own: no pointer of a command reaches them. -/
structure Console where
  states : Fin maxScreens → ScreenState
  current : Fin maxScreens
  vga : Vga
  hardwareCursor : Nat

/-- All of it zero, with the cursors in the corner. -/
def Console.blank : Console where
  states _ := ⟨fun _ => 0, 0, 0, 0, 0, 0, 0, 0⟩
  current := 0
  vga := ⟨fun _ => 0, []⟩
  hardwareCursor := 0

/-- Code that works on the screens. -/
abbrev C (α : Type) := EStateM Trap Console α

/-- `*current_screen`. -/
def cur : C ScreenState := do
  let c ← get
  return c.states c.current

def setState (i : Fin maxScreens) (f : ScreenState → ScreenState) : C Unit :=
  modify fun c => { c with states := Function.update c.states i (f (c.states i)) }

def setCur (f : ScreenState → ScreenState) : C Unit :=
  modify fun c => { c with states := Function.update c.states c.current (f (c.states c.current)) }

def vgaRead (i : Nat) : C (BitVec 16) := do return (← get).vga.cell i

def vgaWrite (i : Nat) (e : BitVec 16) : C Unit := modify fun c => { c with vga := c.vga.set i e }

/-- `current_screen->buffer[i]`. -/
def bufGet (i : Nat) : C (BitVec 8) := do
  if i < screenSize then return (← cur).buffer i
  throw (.outOfBounds i)

def bufSet (i : Nat) (b : BitVec 8) : C Unit := do
  if i < screenSize then
    setCur fun s => { s with buffer := storeByte s.buffer i b }
  else
    throw (.outOfBounds i)

def updateHardwareCursor : C Unit :=
  modify fun c => { c with hardwareCursor :=
    ((c.states c.current).cursorY * screenWidth + (c.states c.current).cursorX) % 2 ^ 16 }

/-! ## Printing -/

/-- The characters of a string literal. -/
def bytesOf (str : String) : List (BitVec 8) := str.toList.map fun c => .ofNat 8 c.toNat

@[simp] def space : BitVec 8 := 32
@[simp] def newline : BitVec 8 := 10
@[simp] def backspace : BitVec 8 := 8

def screenClear : C Unit := do
  forUp (fun i => do vgaWrite i (vgaEntry space (← cur).color)) 0 (screenWidth * screenHeight)
  setCur fun s => { s with cursorX := 0, cursorY := 0 }
  updateHardwareCursor

def screenScroll : C Unit := do
  forUp (fun y => forUp (fun x => do
    vgaWrite (y * screenWidth + x) (← vgaRead ((y + 1) * screenWidth + x))) 0 screenWidth)
    0 (screenHeight - 1)
  forUp (fun x => do
    vgaWrite ((screenHeight - 1) * screenWidth + x) (vgaEntry space (← cur).color)) 0 screenWidth
  setCur fun s => { s with cursorY := screenHeight - 1 }
  updateHardwareCursor

def screenSetColor (fg bg : VgaColor) : C Unit := do
  setCur fun s => { s with color := vgaColor fg bg }
  updateHardwareCursor

def screenPutchar (c : BitVec 8) : C Unit := do
  let s ← cur
  if c = newline then
    setCur fun s => { s with cursorX := 0, cursorY := s.cursorY + 1 }
  else if c = backspace then
    if s.cursorX > 0 then
      setCur fun s => { s with cursorX := s.cursorX - 1 }
      vgaWrite (s.cursorY * screenWidth + (s.cursorX - 1)) (vgaEntry space s.color)
  else
    vgaWrite (s.cursorY * screenWidth + s.cursorX) (vgaEntry c s.color)
    setCur fun s => { s with cursorX := s.cursorX + 1 }
  -- the line overflows one column late: column 80 is written first
  if (← cur).cursorX > screenWidth then
    setCur fun s => { s with cursorX := 0, cursorY := s.cursorY + 1 }
  if (← cur).cursorY ≥ screenHeight then
    screenScroll
  updateHardwareCursor

def screenPutstring : List (BitVec 8) → C Unit
  | [] => pure ()
  | c :: str => do
    screenPutchar c
    screenPutstring str

/-- `kprintf` of a text without directives, character by character; `%s` prints its
argument the same way. -/
def kprintf (str : String) : C Unit := screenPutstring (bytesOf str)

def screenSetCursor (x y : Nat) : C Unit := do
  if x < screenWidth ∧ y < screenHeight then
    setCur fun s => { s with cursorX := x, cursorY := y }
    updateHardwareCursor

/-! ## The input line -/

/-- At most `n` rounds of `while (x >= SCREEN_WIDTH)`. -/
def wrapRounds : Nat → Nat → Nat → Nat × Nat
  | 0, x, y => (x, y)
  | n + 1, x, y => if x ≥ screenWidth then wrapRounds n (x - screenWidth) (y + 1) else (x, y)

/-- Column and row of a position `x` columns into row `y`. -/
def wrapLine (x y : Nat) : Nat × Nat := wrapRounds x x y

/-- The row `y`, or the last row after a scroll that moves the line up. -/
def scrollInto (y : Nat) : C Nat := do
  if y ≥ screenHeight then
    screenScroll
    if (← cur).inputStartY > 0 then
      setCur fun s => { s with inputStartY := s.inputStartY - 1 }
    return screenHeight - 1
  return y

/-- Draw character `i` of the line. `fit` is what happens to a row below the screen:
`scrollInto` while inserting, nothing otherwise. -/
def drawTyped (fit : Nat → C Nat) (i : Nat) : C Unit := do
  let s ← cur
  let (x, y) := wrapLine (s.inputStartX + i) s.inputStartY
  let y ← fit y
  if y < screenHeight then
    vgaWrite (y * screenWidth + x) (vgaEntry (← bufGet i) (← cur).color)

/-- Blank the cell after the line. -/
def eraseEnd (fit : Nat → C Nat) : C Unit := do
  let s ← cur
  let (x, y) := wrapLine (s.inputStartX + s.inputLength) s.inputStartY
  let y ← fit y
  if y < screenHeight then
    vgaWrite (y * screenWidth + x) (vgaEntry space (← cur).color)

/-- Put the screen's cursor where the line's cursor is. -/
def placeCursor (fit : Nat → C Nat) : C Unit := do
  let s ← cur
  let (x, y) := wrapLine (s.inputStartX + s.inputCursor) s.inputStartY
  let y ← fit y
  setCur fun s => { s with cursorX := x, cursorY := y }
  updateHardwareCursor

/-- `for (i = input_length; i > input_cursor; i--) buffer[i] = buffer[i - 1]`. -/
def shiftRight : C Unit := do
  let s ← cur
  forUp (fun k => do
    let i := s.inputLength - k
    bufSet i (← bufGet (i - 1))) 0 (s.inputLength - s.inputCursor)

/-- `for (i = input_cursor - 1; i < input_length - 1; i++) buffer[i] = buffer[i + 1]`. -/
def shiftLeft : C Unit := do
  let s ← cur
  forUp (fun i => do bufSet i (← bufGet (i + 1))) (s.inputCursor - 1)
    (s.inputLength - 1 - (s.inputCursor - 1))

/-- Draw the line from its cursor on, and blank the cell after it. -/
def redraw (fit : Nat → C Nat) : C Unit := do
  let s ← cur
  forUp (drawTyped fit) s.inputCursor (s.inputLength - s.inputCursor)
  eraseEnd fit

def inputInsertCharAtCursor (c : BitVec 8) : C Unit := do
  if 32 ≤ c.toNat ∧ c.toNat ≤ 126 then
    let s ← cur
    if s.inputLength < screenSize - 1 then
      shiftRight
      bufSet s.inputCursor c
      setCur fun s => { s with inputLength := s.inputLength + 1 }
      bufSet (s.inputLength + 1) 0
      redraw scrollInto
      setCur fun s => { s with inputCursor := s.inputCursor + 1 }
      placeCursor scrollInto

def inputDeleteCharAtCursor : C Unit := do
  let s ← cur
  if s.inputCursor > 0 ∧ s.inputLength > 0 then
    shiftLeft
    setCur fun s => { s with inputLength := s.inputLength - 1 }
    bufSet (s.inputLength - 1) 0
    setCur fun s => { s with inputCursor := s.inputCursor - 1 }
    redraw pure
    placeCursor pure

def inputMoveCursorLeft : C Unit := do
  if (← cur).inputCursor > 0 then
    setCur fun s => { s with inputCursor := s.inputCursor - 1 }
    placeCursor pure

def inputMoveCursorRight : C Unit := do
  let s ← cur
  if s.inputCursor < s.inputLength then
    setCur fun s => { s with inputCursor := s.inputCursor + 1 }
    placeCursor pure

def inputSetStartPosition : C Unit :=
  setCur fun s => { s with
    inputStartX := s.cursorX
    inputStartY := s.cursorY
    inputLength := 0
    inputCursor := 0 }

/-! ## The shell's side (`shell.c`) -/

/-- What a command does to the display. -/
inductive Out where
  | char (c : BitVec 8)
  | clear

def Out.run : Out → C Unit
  | .char c => screenPutchar c
  | .clear => screenClear

def runOut : List Out → C Unit
  | [] => pure ()
  | o :: out => do
    o.run
    runOut out

def shellPrintPrompt : C Unit := do
  kprintf "kfs> "
  inputSetStartPosition

/-- `out` is the output of the command that `input` runs. -/
def shellProcessInput (input : List (BitVec 8)) (out : List Out) : C Unit := do
  if input.length ≠ 0 then
    runOut out
  shellPrintPrompt

/-- The string at `a`: the bytes before the first NUL, of at most `n`. -/
def cString (m : Mem) (a : Nat) : Nat → List (BitVec 8)
  | 0 => []
  | n + 1 => if m a = 0 then [] else m a :: cString m (a + 1) n

def inputNewline (out : List Out) : C Unit := do
  bufSet (← cur).inputLength 0
  screenPutchar newline
  let s ← cur
  if s.inputLength > 0 then
    shellProcessInput (cString s.buffer 0 screenSize) out
  else
    shellPrintPrompt
  setCur fun s => { s with inputLength := 0, inputCursor := 0 }

/-! ## Switching -/

/-- `memcpy(current_screen->buffer, VGA_BUFFER, SCREEN_SIZE)`. -/
def saveScreen : C Unit := do
  let v := (← get).vga
  setCur fun s => { s with buffer := fun i => if i < screenSize then v.mem i else s.buffer i }

/-- `memcpy(VGA_BUFFER, current_screen->buffer, SCREEN_SIZE)`. -/
def showScreen : C Unit :=
  modify fun c => { c with vga :=
    ⟨fun i => if i < screenSize then (c.states c.current).buffer i else c.vga.mem i,
      List.range (screenSize / 2) ++ c.vga.written⟩ }

def setCurrent (i : Fin maxScreens) : C Unit := modify fun c => { c with current := i }

def switchScreen (n : Int) : C Unit := do
  if h : 0 ≤ n ∧ n < maxScreens then
    let i : Fin maxScreens := ⟨n.toNat, by omega⟩
    if (← get).current ≠ i then
      saveScreen
      setCurrent i
      showScreen
      updateHardwareCursor

def loadHomeScreen : C Unit := do
  kprintf "Welcome to KrnL!\n"
  screenSetColor .lightCyan .black
  screenSetColor .brown .black
  screenSetColor .white .black
  kprintf "- Architecture: i386 (x86)\n"
  kprintf "- Boot loader: GRUB\n"
  kprintf "- KrnL successfully loaded!\n\n"
  screenSetColor .lightCyan .black

def initialColor (i : Nat) : BitVec 8 :=
  if i = 0 then vgaColor .lightGrey .black
  else if i = 1 then vgaColor .blue .lightGrey
  else if i = 2 then vgaColor .magenta .white
  else vgaColor .white .black

/-- One round of `screen_init`. -/
def initScreen (i : Fin maxScreens) : C Unit := do
  setState i fun s =>
    ⟨fun j => if j < screenSize then 0 else s.buffer j, 0, 0, 0, 0, 0, 0, initialColor i⟩
  setCurrent i
  screenClear
  if i = 0 then loadHomeScreen
  shellPrintPrompt
  saveScreen
  updateHardwareCursor

def screenInit : C Unit := do
  initScreen 0
  initScreen 1
  initScreen 2
  setCurrent 0
  showScreen
  updateHardwareCursor

end Kfs
