import Kfs.ScreenSwitch

/-!
# The keyboard (`keyboard.c`)

`keyboard_handler` runs once for every scancode. A press is the key's code, its
release the code with bit 7 set; `0xE0` says that the next code belongs to another
key. The handler keeps one flag for both shift keys and one for control, types into
the input line and switches screens.

A flag says whether *some* key is down, but the handler clears it at any release: of
either shift key, and also of a key with prefix.
-/

namespace Kfs

open Kfs.Lib

/-! ## State -/

/-- `struct keyboard_state`; no code reads its `extended_key`. -/
structure KeyboardState where
  shiftPressed : BitVec 8
  ctrlPressed : BitVec 8
  capsLock : BitVec 8
  deriving DecidableEq, Repr

/-- The keyboard's variables, the screens, and the bytes sent to I/O ports, the latest
first. -/
structure Keyboard where
  keys : KeyboardState
  extended : BitVec 8
  console : Console
  ports : List (Nat × BitVec 8)

abbrev Kb (α : Type) := EStateM Trap Keyboard α

def setKeys (f : KeyboardState → KeyboardState) : Kb Unit :=
  modify fun k => { k with keys := f k.keys }

def setExtended (v : BitVec 8) : Kb Unit := modify fun k => { k with extended := v }

/-- A call into `screen.c`. -/
def onScreen {α : Type} (x : C α) : Kb α := fun k =>
  match x k.console with
  | .ok a c => .ok a { k with console := c }
  | .error e c => .error e { k with console := c }

def outb (port : Nat) (val : BitVec 8) : Kb Unit :=
  modify fun k => { k with ports := (port, val) :: k.ports }

/-! ## Key codes (`keyboard.h`) -/

def keyLeftShift : BitVec 8 := 0x2A
def keyRightShift : BitVec 8 := 0x36
def keyLeftCtrl : BitVec 8 := 0x1D
def keyCapsLock : BitVec 8 := 0x3A
def keyF1 : BitVec 8 := 0x3B
def keyF2 : BitVec 8 := 0x3C
def keyF3 : BitVec 8 := 0x3D
def keyF4 : BitVec 8 := 0x3E
def keyF5 : BitVec 8 := 0x3F
def keyF6 : BitVec 8 := 0x40
def keyF7 : BitVec 8 := 0x41
def keyF8 : BitVec 8 := 0x42
def keyF9 : BitVec 8 := 0x43
def keyF10 : BitVec 8 := 0x44
def keyArrowLeft : BitVec 8 := 0x4B
def keyArrowRight : BitVec 8 := 0x4D

/-- The byte that says that the next code belongs to another key. -/
def extendedPrefix : BitVec 8 := 0xE0

def pic1Command : Nat := 0x20
def pic2Command : Nat := 0xA0
def irq1 : Nat := 33

/-- An initialised `char` table of 128 entries; the rest of it is zero. -/
def charTable (entries : List (BitVec 8)) : Vector (BitVec 8) 128 := .ofFn fun i => entries.getD i 0

def asciiTable : Vector (BitVec 8) 128 := charTable <|
  [0, 0] ++ bytesOf "1234567890-=\x08" ++ bytesOf "\tqwertyuiop[]\n" ++ [0] ++
    bytesOf "asdfghjkl;'`" ++ [0] ++ bytesOf "\\zxcvbnm,./" ++ [0] ++
      bytesOf "*" ++ [0] ++ bytesOf " "

def asciiTableShift : Vector (BitVec 8) 128 := charTable <|
  [0, 0] ++ bytesOf "!@#$%^&*()_+\x08" ++ bytesOf "\tQWERTYUIOP\x7b\x7d\n" ++ [0] ++
    bytesOf "ASDFGHJKL:\"~" ++ [0] ++ bytesOf "|ZXCVBNM<>?" ++ [0] ++
      bytesOf "*" ++ [0] ++ bytesOf " "

/-! ## The handler -/

def picSendEoi (irq : Nat) : Kb Unit := do
  if irq ≥ 8 then
    outb pic2Command 0x20
  outb pic1Command 0x20

/-- `c` lies between the letters `a` and `z`. -/
def isBetween (c a z : BitVec 8) : Bool := a.toNat ≤ c.toNat && c.toNat ≤ z.toNat

@[simp] def lowerA : BitVec 8 := 97
@[simp] def lowerZ : BitVec 8 := 122
@[simp] def upperA : BitVec 8 := 65
@[simp] def upperZ : BitVec 8 := 90

def scancodeToAscii (scancode : BitVec 8) : Kb (BitVec 8) := do
  let k := (← get).keys
  if h : scancode.toNat < 128 then
    let c := if k.shiftPressed ≠ 0 then asciiTableShift[scancode.toNat]
      else asciiTable[scancode.toNat]
    if k.capsLock ≠ 0 && isBetween c lowerA lowerZ then
      return c - lowerA + upperA
    else if k.capsLock ≠ 0 && isBetween c upperA upperZ then
      return c - upperA + lowerA
    return c
  throw (.outOfBounds scancode.toNat)

/-- A function key: `withCtrl` is printed while control is down, `alone` is done otherwise. -/
def functionKey (withCtrl : String) (alone : C Unit) : Kb Unit := do
  if (← get).keys.ctrlPressed ≠ 0 then
    onScreen (screenPutstring (bytesOf withCtrl))
  else
    onScreen alone

/-- The key types a character; `out` is the output of the command that Enter runs. -/
def typeKey (scancode : BitVec 8) (out : List Out) : Kb Unit := do
  let c ← scancodeToAscii scancode
  if c = backspace then
    onScreen inputDeleteCharAtCursor
  else if c = newline then
    onScreen (inputNewline out)
  else
    onScreen (inputInsertCharAtCursor c)

/-- The press of a key without prefix. -/
def keyPress (scancode : BitVec 8) (out : List Out) : Kb Unit := do
  if scancode = keyLeftShift ∨ scancode = keyRightShift then
    setKeys fun k => { k with shiftPressed := 1 }
  else if scancode = keyLeftCtrl then
    setKeys fun k => { k with ctrlPressed := 1 }
  else if scancode = keyCapsLock then
    setKeys fun k => { k with capsLock := if k.capsLock = 0 then 1 else 0 }
  else if scancode = keyF1 then functionKey "[Ctrl+F1]" (switchScreen 0)
  else if scancode = keyF2 then functionKey "[Ctrl+F2]" (switchScreen 1)
  else if scancode = keyF3 then functionKey "[Ctrl+F3]" (switchScreen 2)
  else if scancode = keyF4 then functionKey "[Ctrl+F4]" (screenPutstring (bytesOf "[F4]"))
  else if scancode = keyF5 then functionKey "[Ctrl+F5]" (screenPutstring (bytesOf "[F5]"))
  else if scancode = keyF6 then functionKey "[Ctrl+F6]" (screenPutstring (bytesOf "[F6]"))
  else if scancode = keyF7 then functionKey "[Ctrl+F7]" (screenPutstring (bytesOf "[F7]"))
  else if scancode = keyF8 then functionKey "[Ctrl+F8]" (screenPutstring (bytesOf "[F8]"))
  else if scancode = keyF9 then functionKey "[Ctrl+F9]" (screenPutstring (bytesOf "[F9]"))
  else if scancode = keyF10 then functionKey "[Ctrl+F10]" (screenPutstring (bytesOf "[F10]"))
  else typeKey scancode out

def extendedPress (scancode : BitVec 8) : Kb Unit := do
  if scancode = keyArrowLeft then
    onScreen inputMoveCursorLeft
  else if scancode = keyArrowRight then
    onScreen inputMoveCursorRight

def keyRelease (scancode : BitVec 8) : Kb Unit := do
  let keyCode := scancode &&& 0x7F
  if keyCode = keyLeftShift ∨ keyCode = keyRightShift then
    setKeys fun k => { k with shiftPressed := 0 }
  else if keyCode = keyLeftCtrl then
    setKeys fun k => { k with ctrlPressed := 0 }

def keyboardHandler (scancode : BitVec 8) (out : List Out) : Kb Unit := do
  if scancode = extendedPrefix then
    setExtended 1
    picSendEoi irq1
  else if scancode &&& 0x80 = 0 then
    if (← get).extended ≠ 0 then
      extendedPress scancode
      setExtended 0
      picSendEoi irq1
    else
      keyPress scancode out
      picSendEoi irq1
      setExtended 0
  else
    keyRelease scancode
    picSendEoi irq1
    setExtended 0

end Kfs
