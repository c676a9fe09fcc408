import Kfs.KeyboardRun
import Kfs.ScreenEdit
import Mathlib.Data.List.InsertIdx

/-!
# What the user types

`Typist` is the keyboard and the input lines as the user knows them: the modifier keys
and, for each screen, a line of text with a cursor. A scancode edits the line that is
shown, or submits it. None of this depends on what the screens show or on what the
commands do.

The driver refines it (`keyboardHandler_shows`), as long as no line is left behind
unfinished: a switch to another screen overwrites the line that is being typed.
-/

namespace Kfs

open Kfs.Lib

structure Typist where
  keys : KeyboardState
  extended : BitVec 8
  lines : Fin maxScreens → Editor
  current : Fin maxScreens

/-- The character a key types while `keys` are down. -/
def charOf (keys : KeyboardState) (scancode : BitVec 8) : BitVec 8 :=
  if h : scancode.toNat < 128 then
    let c := if keys.shiftPressed ≠ 0 then asciiTableShift[scancode.toNat]
      else asciiTable[scancode.toNat]
    if keys.capsLock ≠ 0 && isBetween c lowerA lowerZ then c - lowerA + upperA
    else if keys.capsLock ≠ 0 && isBetween c upperA upperZ then c - upperA + lowerA
    else c
  else 0

def screenOf (scancode : BitVec 8) : Option (Fin maxScreens) :=
  if scancode = keyF1 then some 0
  else if scancode = keyF2 then some 1
  else if scancode = keyF3 then some 2
  else none

/-- The keys that only print. -/
def printKeys : List (BitVec 8) := [keyF4, keyF5, keyF6, keyF7, keyF8, keyF9, keyF10]

namespace Typist

def line (t : Typist) : Editor := t.lines t.current

def setLine (t : Typist) (e : Editor) : Typist :=
  { t with lines := Function.update t.lines t.current e }

def edit (t : Typist) (op : EditOp) : Typist := t.setLine (t.line.step op)

def select (t : Typist) (i : Fin maxScreens) : Typist :=
  if t.current = i then t else { t.setLine Editor.empty with current := i }

/-- What the press of a key without prefix does, and the lines that it submits. -/
def press (t : Typist) (scancode : BitVec 8) : Typist × List (List (BitVec 8)) :=
  if scancode = keyLeftShift ∨ scancode = keyRightShift then
    ({ t with keys := { t.keys with shiftPressed := 1 } }, [])
  else if scancode = keyLeftCtrl then
    ({ t with keys := { t.keys with ctrlPressed := 1 } }, [])
  else if scancode = keyCapsLock then
    ({ t with keys := { t.keys with capsLock := if t.keys.capsLock = 0 then 1 else 0 } }, [])
  else if scancode ∈ printKeys then (t, [])
  else
    match screenOf scancode with
    | some i => if t.keys.ctrlPressed ≠ 0 then (t, []) else (t.select i, [])
    | none =>
      if charOf t.keys scancode = backspace then (t.edit .delete, [])
      else if charOf t.keys scancode = newline then (t.setLine Editor.empty, [t.line.text])
      else (t.edit (.insert (charOf t.keys scancode)), [])

def pressExtended (t : Typist) (scancode : BitVec 8) : Typist :=
  if scancode = keyArrowLeft then t.edit .left
  else if scancode = keyArrowRight then t.edit .right
  else t

def release (t : Typist) (scancode : BitVec 8) : Typist :=
  let keyCode := scancode &&& 0x7F
  if keyCode = keyLeftShift ∨ keyCode = keyRightShift then
    { t with keys := { t.keys with shiftPressed := 0 } }
  else if keyCode = keyLeftCtrl then
    { t with keys := { t.keys with ctrlPressed := 0 } }
  else t

/-- What a scancode does, and the lines that it submits. -/
def key (t : Typist) (scancode : BitVec 8) : Typist × List (List (BitVec 8)) :=
  if scancode = extendedPrefix then ({ t with extended := 1 }, [])
  else if scancode &&& 0x80 = 0 then
    if t.extended ≠ 0 then ({ t.pressExtended scancode with extended := 0 }, [])
    else ({ (t.press scancode).1 with extended := 0 }, (t.press scancode).2)
  else ({ t.release scancode with extended := 0 }, [])

def types : Typist → List (BitVec 8) → Typist × List (List (BitVec 8))
  | t, [] => (t, [])
  | t, c :: codes => (((t.key c).1.types codes).1, (t.key c).2 ++ ((t.key c).1.types codes).2)

/-- The code switches to another screen. -/
def Leaves (t : Typist) (scancode : BitVec 8) : Prop :=
  scancode ≠ extendedPrefix ∧ t.extended = 0 ∧ t.keys.ctrlPressed = 0 ∧
    ∃ i, screenOf scancode = some i ∧ t.current ≠ i

/-- No screen is left while a line is being typed on it. -/
def Clean : Typist → List (BitVec 8) → Prop
  | _, [] => True
  | t, c :: codes => (t.Leaves c → t.line.text = []) ∧ (t.key c).1.Clean codes

theorem clean_of_no_screen {codes : List (BitVec 8)} (h : ∀ c ∈ codes, screenOf c = none)
    (t : Typist) :
    t.Clean codes := by
  induction codes generalizing t with
  | nil => trivial
  | cons c codes ih =>
    refine ⟨fun hl => ?_, ih (fun d hd => h d (List.mem_cons_of_mem c hd)) _⟩
    obtain ⟨-, -, -, i, hi, -⟩ := hl
    rw [h c List.mem_cons_self] at hi
    cases hi

/-- A typist who has pressed nothing. -/
def fresh : Typist := ⟨⟨0, 0, 0⟩, 0, fun _ => Editor.empty, 0⟩

end Typist

/-! ## The line on a screen -/

/-- The line on screen `s` is that of `e`, a line of printable characters. -/
structure ShowsLine (s : ScreenState) (e : Editor) : Prop where
  represents : Represents s e
  ok : e.Ok
  printable : ∀ b ∈ e.text, 32 ≤ b.toNat ∧ b.toNat ≤ 126

theorem LineAt.shows {s : ScreenState} (h : LineAt 0 0 s) : ShowsLine s Editor.empty where
  represents := by
    obtain ⟨hL, hk⟩ := h
    refine ⟨?_, hk, fun he => Bool.noConfusion he⟩
    unfold lineText
    rw [hL]
    rfl
  ok := ⟨Nat.le_refl 0, Nat.zero_le _⟩
  printable b hb := absurd hb List.not_mem_nil

theorem Editor.step_printable {e : Editor} (h : ∀ b ∈ e.text, 32 ≤ b.toNat ∧ b.toNat ≤ 126)
    (op : EditOp) :
    ∀ b ∈ (e.step op).text, 32 ≤ b.toNat ∧ b.toNat ≤ 126 := by
  intro b hb
  cases op with
  | insert c =>
    change b ∈ (if _ then _ else e : Editor).text at hb
    split at hb
    · next hc =>
      rcases List.eq_or_mem_of_mem_insertIdx hb with rfl | hb
      · exact ⟨hc.1, hc.2.1⟩
      · exact h b hb
    · exact h b hb
  | delete =>
    change b ∈ (if _ then _ else e : Editor).text at hb
    split at hb
    · exact h b (List.mem_of_mem_eraseIdx hb)
    · exact h b hb
  | left =>
    change b ∈ (if _ then _ else e : Editor).text at hb
    split at hb <;> exact h b hb
  | right =>
    change b ∈ (if _ then _ else e : Editor).text at hb
    split at hb <;> exact h b hb

theorem ShowsLine.step {s s' : ScreenState} {e : Editor} (h : ShowsLine s e) {op : EditOp}
    (hs : Represents s' (e.step op)) : ShowsLine s' (e.step op) :=
  ⟨hs, h.ok.step op, Editor.step_printable h.printable op⟩

theorem ShowsLine.sameText {s s' : ScreenState} {e : Editor}
    (h : ShowsLine s e) (hs : SameText s s') :
    ShowsLine s' e := by
  obtain ⟨hb, hl, hk⟩ := hs
  refine ⟨⟨?_, hk.trans h.represents.cursor, fun he => ?_⟩, h.ok, h.printable⟩
  · rw [← h.represents.text, lineText, lineText, hl, hb]
  · rw [hl, hb]
    exact h.represents.nul he

theorem ShowsLine.empty {s : ScreenState} (hl : s.inputLength = 0) (hk : s.inputCursor = 0) :
    ShowsLine s Editor.empty := by
  refine ⟨⟨?_, hk, nofun⟩, ⟨Nat.le_refl 0, Nat.zero_le _⟩, nofun⟩
  rw [lineText, hl]
  rfl

theorem ShowsLine.lineOk {s : ScreenState} {e : Editor} (h : ShowsLine s e) : LineOk s := by
  have h1 := h.represents.length
  have h2 := h.represents.cursor
  have h3 := h.ok.cursor
  have h4 := h.ok.length
  unfold LineOk
  simp only [screenSize, screenWidth, screenHeight]
  omega

/-! ## The keyboard driver -/

/-- The driver's variables and the screens are those of the typist. -/
structure TypedBy (k : Keyboard) (t : Typist) : Prop where
  keys : k.keys = t.keys
  extended : k.extended = t.extended
  current : k.console.current = t.current
  lines : ∀ i, ShowsLine (k.console.states i) (t.lines i)

theorem TypedBy.line {k : Keyboard} {t : Typist} (h : TypedBy k t) :
    ShowsLine (k.console.states k.console.current) t.line := by
  rw [h.current]
  exact h.lines t.current

theorem onScreen_of_ok {α : Type} {x : C α} {a : α} {k : Keyboard}
    {c : Console} (h : x k.console = .ok a c) :
    onScreen x k = .ok a { k with console := c } := by
  unfold onScreen
  rw [h]

section TypedBy

variable {k : Keyboard} {t : Typist} (h : TypedBy k t)
include h

theorem TypedBy.touched {c : Console} {e : Editor}
    (hc : Touches (fun _ s => ShowsLine s e) k.console c) :
    TypedBy { k with console := c } (t.setLine e) := by
  refine ⟨h.keys, h.extended, hc.current.trans h.current, fun i => ?_⟩
  have hk := hc.keep
  rw [h.current] at hk
  show ShowsLine (c.states i) (Function.update t.lines t.current e i)
  by_cases hi : i = t.current
  · rw [hi, Function.update_self]
    exact hk
  · rw [Function.update_of_ne hi, hc.others i (by rw [h.current]; exact hi)]
    exact h.lines i

theorem TypedBy.draws {x : C Unit} (hx : Total (Touches SameText) x) :
    ∃ k', onScreen x k = .ok () k' ∧ TypedBy k' t := by
  obtain ⟨_, c, hr, ht⟩ := hx k.console
  refine ⟨_, onScreen_of_ok hr, ?_⟩
  have := h.touched (c := c) (e := t.line) ⟨ht.current, ht.others, h.line.sameText ht.keep⟩
  rwa [Typist.setLine, Typist.line, Function.update_eq_self] at this

theorem TypedBy.edit (op : EditOp) : ∃ k', onScreen op.run k = .ok () k' ∧
    TypedBy k' (t.edit op) := by
  obtain ⟨c, hr, ht⟩ := op.run_edit h.line.represents h.line.ok
  exact ⟨_, onScreen_of_ok hr, h.touched (ht.mono fun _ _ hs => h.line.step hs)⟩

theorem TypedBy.newline (out : List Out) :
    ∃ k', onScreen (inputNewline out) k = .ok () k' ∧ TypedBy k' (t.setLine Editor.empty) := by
  obtain ⟨c, hr, ht⟩ := newline_ok out h.line.lineOk.2
  exact ⟨_, onScreen_of_ok hr, h.touched (ht.mono fun _ _ hs => .empty hs.1 hs.2)⟩

theorem TypedBy.select (i : Fin maxScreens) (hi : t.current ≠ i → t.line.text = []) :
    ∃ k', onScreen (switchScreen i) k = .ok () k' ∧ TypedBy k' (t.select i) := by
  unfold Typist.select
  by_cases hcur : t.current = i
  · rw [if_pos hcur]
    refine ⟨k, onScreen_of_ok (switchScreen_stay fun j hj => ?_), h⟩
    rw [h.current, hcur]
    exact Fin.ext (by omega)
  · rw [if_neg hcur]
    obtain ⟨c, hr, hc, hself, hother⟩ := switchScreen_other (c := k.console) (h.current ▸ hcur)
    have hempty := hi hcur
    refine ⟨_, onScreen_of_ok hr, h.keys, h.extended, hc, fun j => ?_⟩
    show ShowsLine (c.states j) (Function.update t.lines t.current Editor.empty j)
    by_cases hj : j = t.current
    · have hlen := h.line.represents.length
      have hle := h.line.ok.cursor
      have hcursor := h.line.represents.cursor
      rw [hempty] at hlen hle
      rw [hj, Function.update_self, ← h.current, hself]
      exact .empty hlen (hcursor.trans (Nat.le_zero.mp hle))
    · rw [Function.update_of_ne hj, hother j (h.current ▸ hj)]
      exact h.lines j

omit h in
theorem functionKey_eq (withCtrl : String) (alone : C Unit) : functionKey withCtrl alone k =
    onScreen (if k.keys.ctrlPressed ≠ 0 then screenPutstring (bytesOf withCtrl) else alone) k := by
  unfold functionKey
  rw [get_bind_apply]
  split <;> rfl

theorem TypedBy.printKey (withCtrl alone : String) :
    ∃ k', functionKey withCtrl (screenPutstring (bytesOf alone)) k = .ok () k' ∧ TypedBy k' t := by
  rw [functionKey_eq]
  split
  · exact h.draws (screenPutstring_draws _)
  · exact h.draws (screenPutstring_draws _)

theorem TypedBy.switchKey (withCtrl : String) {i : Fin maxScreens}
    (hi : t.keys.ctrlPressed = 0 → t.current ≠ i → t.line.text = []) :
    ∃ k', functionKey withCtrl (switchScreen i) k = .ok () k' ∧
      TypedBy k' (if t.keys.ctrlPressed ≠ 0 then t else t.select i) := by
  rw [functionKey_eq, h.keys]
  by_cases hc : t.keys.ctrlPressed = 0
  · rw [if_neg (not_not.mpr hc), if_neg (not_not.mpr hc)]
    exact h.select i (hi hc)
  · rw [if_pos hc, if_pos hc]
    exact h.draws (screenPutstring_draws _)

omit h in
theorem scancodeToAscii_charOf {scancode : BitVec 8} (hs : scancode.toNat < 128) :
    scancodeToAscii scancode k = .ok (charOf k.keys scancode) k := by
  unfold scancodeToAscii charOf
  rw [get_bind_apply, dif_pos hs, dif_pos hs]
  dsimp only
  split_ifs <;> rfl

theorem TypedBy.typeKey {scancode : BitVec 8} (hs : scancode.toNat < 128) (out : List Out) :
    ∃ k', typeKey scancode out k = .ok () k' ∧ TypedBy k'
      (if charOf t.keys scancode = backspace then t.edit .delete
      else if charOf t.keys scancode = Kfs.newline then t.setLine Editor.empty
      else t.edit (.insert (charOf t.keys scancode))) := by
  unfold Kfs.typeKey
  rw [bind_of_ok (scancodeToAscii_charOf hs), h.keys]
  split
  · exact h.edit .delete
  split
  · exact h.newline out
  · exact h.edit (.insert _)

end TypedBy

/-! ## The handler -/

/-- The keys with a `case` of their own. -/
def caseKeys : List (BitVec 8) :=
  [keyLeftShift, keyRightShift, keyLeftCtrl, keyCapsLock, keyF1, keyF2, keyF3] ++ printKeys

instance (scancode : BitVec 8) : Decidable (scancode ∈ caseKeys) :=
  decidable_of_iff (caseKeys.contains scancode = true) List.contains_iff_mem

theorem keyPress_types {scancode : BitVec 8} (h : scancode ∉ caseKeys) (out : List Out) :
    keyPress scancode out = typeKey scancode out := by
  simp only [caseKeys, printKeys, List.cons_append, List.nil_append,
    List.mem_cons, List.not_mem_nil,
    or_false, not_or] at h
  unfold keyPress
  simp only [h, or_self, ↓reduceIte]

theorem press_types {t : Typist} {scancode : BitVec 8} (h : scancode ∉ caseKeys) :
    t.press scancode = if charOf t.keys scancode = backspace then (t.edit .delete, [])
      else if charOf t.keys scancode = newline then (t.setLine Editor.empty, [t.line.text])
      else (t.edit (.insert (charOf t.keys scancode)), []) := by
  simp only [caseKeys, List.cons_append, List.nil_append, List.mem_cons, not_or] at h
  unfold Typist.press screenOf
  simp only [h, or_self, ↓reduceIte]

theorem press_submits {t : Typist} {scancode : BitVec 8} (h : scancode ∈ caseKeys) :
    (t.press scancode).2 = [] := by
  have hswitch : ∀ i, (if t.keys.ctrlPressed ≠ 0 then (t, []) else (t.select i, []) :
      Typist × List (List (BitVec 8))).2 = [] := by
    intro i
    split <;> rfl
  simp only [caseKeys, printKeys, List.cons_append, List.nil_append,
    List.mem_cons, List.not_mem_nil,
    or_false] at h
  rcases h with rfl | rfl | rfl | rfl | rfl | rfl | rfl | rfl | rfl | rfl | rfl | rfl | rfl | rfl
  · rfl
  · rfl
  · rfl
  · rfl
  · exact hswitch 0
  · exact hswitch 1
  · exact hswitch 2
  all_goals rfl

section Handler

variable {k : Keyboard} {t : Typist} (h : TypedBy k t)
include h

theorem TypedBy.switchPress {scancode : BitVec 8} {out : List Out}
    {withCtrl : String} {i : Fin maxScreens}
    (hkey : keyPress scancode out = functionKey withCtrl (switchScreen i))
    (htyp : t.press scancode = if t.keys.ctrlPressed ≠ 0 then (t, []) else (t.select i, []))
    (hi : t.keys.ctrlPressed = 0 → t.current ≠ i → t.line.text = []) :
    ∃ k', keyPress scancode out k = .ok () k' ∧ TypedBy k' (t.press scancode).1 := by
  obtain ⟨k', hr, hk⟩ := h.switchKey withCtrl hi
  rw [hkey, htyp]
  refine ⟨k', hr, ?_⟩
  split_ifs at hk ⊢ <;> exact hk

theorem TypedBy.printPress {scancode : BitVec 8} {out : List Out} {withCtrl alone : String}
    (hkey : keyPress scancode out = functionKey withCtrl (screenPutstring (bytesOf alone)))
    (htyp : t.press scancode = (t, [])) :
    ∃ k', keyPress scancode out k = .ok () k' ∧ TypedBy k' (t.press scancode).1 := by
  rw [hkey, htyp]
  exact h.printKey withCtrl alone

theorem TypedBy.modifierPress {scancode : BitVec 8} {out : List Out}
    (f : KeyboardState → KeyboardState) (hkey : keyPress scancode out = setKeys f)
    (htyp : t.press scancode = ({ t with keys := f t.keys }, [])) :
    ∃ k', keyPress scancode out k = .ok () k' ∧ TypedBy k' (t.press scancode).1 := by
  rw [hkey, htyp]
  exact ⟨{ k with keys := f k.keys }, rfl, congrArg f h.keys, h.extended, h.current, h.lines⟩

theorem TypedBy.press {scancode : BitVec 8} (hs : scancode.toNat < 128) (out : List Out)
    (hclean : t.keys.ctrlPressed = 0 → ∀ i, screenOf scancode = some i →
      t.current ≠ i → t.line.text = []) :
    ∃ k', keyPress scancode out k = .ok () k' ∧ TypedBy k' (t.press scancode).1 := by
  by_cases hc : scancode ∈ caseKeys
  · simp only [caseKeys, printKeys, List.cons_append, List.nil_append,
      List.mem_cons, List.not_mem_nil,
      or_false] at hc
    rcases hc with rfl | rfl | rfl | rfl | rfl | rfl | rfl | rfl | rfl | rfl | rfl | rfl | rfl | rfl
    · exact h.modifierPress (fun keys => { keys with shiftPressed := 1 }) rfl rfl
    · exact h.modifierPress (fun keys => { keys with shiftPressed := 1 }) rfl rfl
    · exact h.modifierPress (fun keys => { keys with ctrlPressed := 1 }) rfl rfl
    · exact h.modifierPress
        (fun keys => { keys with capsLock := if keys.capsLock = 0 then 1 else 0 })
        rfl rfl
    · exact h.switchPress rfl rfl fun hctrl => hclean hctrl 0 rfl
    · exact h.switchPress rfl rfl fun hctrl => hclean hctrl 1 rfl
    · exact h.switchPress rfl rfl fun hctrl => hclean hctrl 2 rfl
    all_goals exact h.printPress rfl rfl
  · obtain ⟨k', hr, hk⟩ := h.typeKey hs out
    rw [keyPress_types hc, press_types hc]
    refine ⟨k', hr, ?_⟩
    split_ifs at hk ⊢ <;> exact hk

theorem TypedBy.pressExtended (scancode : BitVec 8) :
    ∃ k', extendedPress scancode k = .ok () k' ∧ TypedBy k' (t.pressExtended scancode) := by
  unfold extendedPress Typist.pressExtended
  split
  · exact h.edit .left
  split
  · exact h.edit .right
  · exact ⟨k, rfl, h⟩

theorem TypedBy.release (scancode : BitVec 8) :
    ∃ k', keyRelease scancode k = .ok () k' ∧ TypedBy k' (t.release scancode) := by
  unfold keyRelease Typist.release
  dsimp only
  split
  · exact ⟨_, rfl, by rw [← h.keys], h.extended, h.current, h.lines⟩
  split
  · exact ⟨_, rfl, by rw [← h.keys], h.extended, h.current, h.lines⟩
  · exact ⟨k, rfl, h⟩

/-- **The driver refines the typist**, whatever the command prints that Enter runs. -/
theorem keyboardHandler_shows (scancode : BitVec 8) (out : List Out)
    (hclean : t.Leaves scancode → t.line.text = []) :
    ∃ k', keyboardHandler scancode out k = .ok () k' ∧ TypedBy k' (t.key scancode).1 := by
  unfold keyboardHandler Typist.key
  by_cases hpre : scancode = extendedPrefix
  · rw [if_pos hpre, if_pos hpre]
    exact ⟨_, rfl, h.keys, rfl, h.current, h.lines⟩
  rw [if_neg hpre, if_neg hpre]
  by_cases hs : scancode &&& 0x80 = 0
  · rw [if_pos hs, if_pos hs, get_bind_apply, h.extended]
    by_cases hext : t.extended = 0
    · obtain ⟨k', hr, hk⟩ := h.press (press_lt scancode hs) out fun hctrl i hi hne =>
        hclean ⟨hpre, hext, hctrl, i, hi, hne⟩
      rw [if_neg (not_not.mpr hext), if_neg (not_not.mpr hext), bind_of_ok hr]
      exact ⟨_, rfl, hk.keys, rfl, hk.current, hk.lines⟩
    · obtain ⟨k', hr, hk⟩ := h.pressExtended scancode
      rw [if_pos hext, if_pos hext, bind_of_ok hr]
      exact ⟨_, rfl, hk.keys, rfl, hk.current, hk.lines⟩
  · obtain ⟨k', hr, hk⟩ := h.release scancode
    rw [if_neg hs, if_neg hs, bind_of_ok hr]
    exact ⟨_, rfl, hk.keys, rfl, hk.current, hk.lines⟩

end Handler

end Kfs
