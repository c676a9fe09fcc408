import Kfs.Guard
import Kfs.KernelRun

/-!
# From scancodes to memory

What a scancode does to memory is what the line does that it submits, and most submit
none (`handler_effect`). On the screens and in the driver's variables the kernel does
what the keyboard model does for some output of the command, so what is known of that
model for every output holds of the kernel.

With the typist in front, a whole run is told without screens: memory ends as it does
when the lines that were typed are run one after the other (`typed_is_executed`). The
screens and the keyboard's variables are stores of their own in the model, so that is
stated on guarded memory, which stops a command whose pointer would reach them.
-/

namespace Kfs

open Kfs.Lib

variable {M : Type} [Bus M] (cfg : Setup)

/-! ## Calls into the driver -/

section Keyboard

variable {α β : Type} {k : Kernel M}

omit [Bus M] in
theorem onKeyboard_of_ok {x : Kb α} {a : α} {b : Keyboard} (h : x k.keyboard = .ok a b) :
    onKeyboard x k = .ok a (k.putKeyboard b) := by
  unfold onKeyboard
  rw [h]

omit [Bus M] in
theorem onKeyboard_bind (x : Kb α) (f : α → Kb β) :
    (onKeyboard (x >>= f) : Ke M β) = onKeyboard x >>= fun a => onKeyboard (f a) := by
  funext k
  unfold onKeyboard
  simp only [bind, EStateM.bind]
  cases x k.keyboard <;> rfl

omit [Bus M] in
theorem onKeyboard_ite {c : Prop} [Decidable c] (x y : Kb α) :
    (onKeyboard (if c then x else y) : Ke M α) = if c then onKeyboard x else onKeyboard y := by
  split <;> rfl

omit [Bus M] in
theorem onKeyboard_onScreen (x : C α) : (onKeyboard (onScreen x) : Ke M α) = onDisplay x := by
  funext k
  have hcon : k.keyboard.console = k.shell.console := rfl
  cases hx : x k.shell.console
    <;> simp only [onKeyboard, onScreen, onDisplay, onShell, onConsole, hcon, hx] <;> rfl

end Keyboard

/-! ## Enter -/

/-- What `shell_process_input` gets when Enter is pressed. -/
def submittedLine (s : ScreenState) : List (BitVec 8) :=
  if s.inputLength > 0 then commandLine s else []

/-- The scancode is the press of a key that types a line feed. -/
def Kernel.Enters (k : Kernel M) (scancode : BitVec 8) : Prop :=
  scancode ≠ extendedPrefix ∧ scancode &&& 0x80 = 0 ∧ k.extended = 0 ∧ scancode ∉ caseKeys ∧
    charOf k.keys scancode = newline

instance (k : Kernel M) (scancode : BitVec 8) : Decidable (k.Enters scancode) :=
  inferInstanceAs (Decidable (_ ∧ _))

/-- The lines that the scancode submits, none or one. -/
def Kernel.submits (k : Kernel M) (scancode : BitVec 8) : List (List (BitVec 8)) :=
  if k.Enters scancode then [submittedLine (k.shell.console.states k.shell.console.current)] else []

def runLines : List (List (BitVec 8)) → EStateM Stop (State M) Unit
  | [] => pure ()
  | line :: lines => do
    lineEffect cfg line
    runLines lines

/-- The kernel has done what `x` does to the screens for some output, and its memory is `s`. -/
structure Answered (x : List Out → C Unit) (k k' : Kernel M) (s : State M) : Prop where
  st : k'.st = s
  keys : k'.keys = k.keys
  extended : k'.extended = k.extended
  out : ∃ out, x out k.shell.console = .ok () k'.shell.console

def SameMemory (k : Kernel M) (s : State M) : Prop := k.st = s

section Enter

variable {k : Kernel M}

/-- **A line in the shell**: its effect, and on the screens what the model of the shell does. -/
theorem processInput_answered (input : CStr) :
    Agree (Answered (Kfs.shellProcessInput input.bytes) k) SameMemory
      (Kernel.shellProcessInput cfg input k) (lineEffect cfg input.bytes k.st) := by
  by_cases h0 : input.length = 0
  · have hlen : onShell (strlen .outOfFuel (loadChar input) addressSpace) k = .ok input.length k :=
      onShell_of_ok (strlenLine_ok input k.shell)
    obtain ⟨c, hp, -⟩ := prompt_ok k.shell.console
    have hprompt :
        onDisplay shellPrintPrompt k = .ok () { k with shell := { k.shell with console := c } } :=
      onShell_of_ok (onConsole_of_ok hp)
    unfold Kernel.shellProcessInput lineEffect
    rw [bind_of_ok hlen, if_pos h0, if_pos (.inl h0), hprompt]
    refine .ok ⟨rfl, rfl, rfl, [], ?_⟩
    unfold Kfs.shellProcessInput
    rw [if_neg (show ¬ input.bytes.length ≠ 0 from not_not.mpr h0)]
    exact hp
  · refine (processInput_effect cfg input (Worked.refl k)).mono
      (fun k' s' h => ?_) fun _ _ h => h.st
    obtain ⟨k₁, h₁, hp⟩ := h
    obtain ⟨out, hout⟩ := h₁.out
    obtain ⟨c, hc, -⟩ := prompt_ok k₁.shell.console
    have hprompt :
        onDisplay shellPrintPrompt k₁ =
        .ok () { k₁ with shell := { k₁.shell with console := c } } :=
      onShell_of_ok (onConsole_of_ok hc)
    rw [hprompt] at hp
    cases hp
    refine ⟨h₁.st, h₁.keys, h₁.extended, out, ?_⟩
    unfold Kfs.shellProcessInput
    rw [if_pos (show input.bytes.length ≠ 0 from h0)]
    exact (bind_of_ok hout).trans hc

omit [Bus M] in
theorem prompt_answered (k : Kernel M) : ∃ k', onDisplay shellPrintPrompt k = .ok () k' ∧
    Answered (fun _ => shellPrintPrompt) k k' k.st := by
  obtain ⟨c, hp, -⟩ := prompt_ok k.shell.console
  exact ⟨_, onShell_of_ok (onConsole_of_ok hp), rfl, rfl, rfl, [], hp⟩

/-- The line is ended in `buffer` and on the screen; what is submitted then is `submittedLine`. -/
theorem endLine {c : Console} (hL : (c.states c.current).inputLength < screenSize) : ∃ c₁ c₂,
    bufSet (c.states c.current).inputLength 0 c = .ok () c₁ ∧ screenPutchar newline c₁ = .ok () c₂ ∧
      (c₂.states c₂.current).inputLength = (c.states c.current).inputLength ∧
      cString (c₂.states c₂.current).buffer 0 screenSize = commandLine (c.states c.current) := by
  have hset : bufSet (c.states c.current).inputLength 0 c = .ok () (c.setCur fun s =>
      { s with buffer := storeByte s.buffer (c.states c.current).inputLength 0 }) := by
    unfold bufSet
    rw [if_pos hL]
    rfl
  obtain ⟨_, c₂, hr₂, ht₂⟩ := screenPutchar_draws newline (c.setCur fun s =>
    { s with buffer := storeByte s.buffer (c.states c.current).inputLength 0 })
  have hcur : c₂.current = c.current := ht₂.current
  obtain ⟨hb, hl, -⟩ := ht₂.keep
  rw [Console.setCur_current, Console.setCur_self] at hb hl
  refine ⟨_, c₂, hset, hr₂, ?_, ?_⟩
  · rw [hcur, hl]
  · rw [hcur, hb]
    rfl

theorem Kernel.inputNewline_eq {c₁ c₂ : Console}
    (h₁ : bufSet (k.shell.console.states k.shell.console.current).inputLength 0 k.shell.console =
      .ok () c₁)
    (h₂ : screenPutchar newline c₁ = .ok () c₂) :
    Kernel.inputNewline cfg k = ((if (c₂.states c₂.current).inputLength > 0 then
        Kernel.shellProcessInput cfg (lineStr (c₂.states c₂.current))
      else onDisplay shellPrintPrompt) >>= fun _ =>
        onDisplay (setCur fun s => { s with inputLength := 0, inputCursor := 0 }) : Ke M Unit)
      { k with shell := { k.shell with console := c₂ } } := by
  have hset : onDisplay (do bufSet (← cur).inputLength 0) k =
      .ok () { k with shell := { k.shell with console := c₁ } } :=
        onShell_of_ok (onConsole_of_ok h₁)
  have hfeed :
      onDisplay (screenPutchar newline) { k with shell := { k.shell with console := c₁ } } =
      .ok () { k with shell := { k.shell with console := c₂ } } :=
        onShell_of_ok (onConsole_of_ok h₂)
  have hcur : onDisplay cur { k with shell := { k.shell with console := c₂ } } =
      .ok (c₂.states c₂.current) { k with shell := { k.shell with console := c₂ } } := rfl
  unfold Kernel.inputNewline
  rw [bind_of_ok hset, bind_of_ok hfeed, bind_of_ok hcur]
  split <;> rfl

/-- **Enter**: the effect of the line, and on the screens what the model of Enter does. -/
theorem newline_answered
    (hL : (k.shell.console.states k.shell.console.current).inputLength < screenSize) :
    Agree (Answered Kfs.inputNewline k) SameMemory (Kernel.inputNewline cfg k)
      (lineEffect cfg (submittedLine (k.shell.console.states k.shell.console.current)) k.st) := by
  obtain ⟨c₁, c₂, hr₁, hr₂, hlen, hline⟩ := endLine hL
  obtain ⟨k₂, hk₂⟩ : ∃ k₂ : Kernel M, k₂ = { k with shell := { k.shell with console := c₂ } } :=
    ⟨_, rfl⟩
  have hst : k₂.st = k.st := by rw [hk₂]
  -- the shell's part, from `k₂` on
  have hshell : Agree (Answered (fun out => if (c₂.states c₂.current).inputLength > 0 then
        Kfs.shellProcessInput (cString (c₂.states c₂.current).buffer 0 screenSize) out
      else shellPrintPrompt) k₂) SameMemory
      ((if (c₂.states c₂.current).inputLength > 0 then
        Kernel.shellProcessInput cfg (lineStr (c₂.states c₂.current))
      else onDisplay shellPrintPrompt : Ke M Unit) k₂)
      (lineEffect cfg (submittedLine (k.shell.console.states k.shell.console.current)) k₂.st) := by
    unfold submittedLine
    rw [← hlen]
    by_cases hpos : (c₂.states c₂.current).inputLength > 0
    · simp only [if_pos hpos, ← hline]
      exact processInput_answered cfg (lineStr (c₂.states c₂.current))
    · simp only [if_neg hpos]
      obtain ⟨k₃, hp, hk₃⟩ := prompt_answered k₂
      exact .of_ok hp rfl hk₃
  have hrun := Kernel.inputNewline_eq cfg hr₁ hr₂
  rw [← hk₂] at hrun
  have hmodel : ∀ out, Kfs.inputNewline out k.shell.console =
      ((if (c₂.states c₂.current).inputLength > 0 then
        Kfs.shellProcessInput (cString (c₂.states c₂.current).buffer 0 screenSize) out
      else shellPrintPrompt) >>= fun _ =>
        setCur fun s => { s with inputLength := 0, inputCursor := 0 } : C Unit) c₂ := by
    intro out
    unfold Kfs.inputNewline
    rw [cur_bind, bind_of_ok hr₁, bind_of_ok hr₂, cur_bind]
    split <;> rfl
  rw [hrun, ← hst, ← bind_pure (lineEffect cfg _)]
  refine hshell.bind fun _ k₃ s₃ h₃ => ?_
  obtain ⟨out, hout⟩ := h₃.out
  refine .ok ⟨h₃.st, h₃.keys.trans (by rw [hk₂]), h₃.extended.trans (by rw [hk₂]), out, ?_⟩
  have hcon : k₂.shell.console = c₂ := by rw [hk₂]
  rw [hcon] at hout
  rw [hmodel, bind_of_ok hout]
  rfl

end Enter

/-! ## The handler -/

/-- The kernel has done what the keyboard model does for some output, and its memory is `s`. -/
structure Handled (scancode : BitVec 8) (k k' : Kernel M) (s : State M) : Prop where
  st : k'.st = s
  keyboard : ∃ out b, Kfs.keyboardHandler scancode out k.keyboard = .ok () b ∧ k'.keys = b.keys ∧
    k'.extended = b.extended ∧ k'.shell.console = b.console

section Handler

variable {k : Kernel M} {scancode : BitVec 8}

theorem typeKey_driver (hc : charOf k.keys scancode ≠ newline) (hs : scancode.toNat < 128) :
    Kernel.typeKey cfg scancode k = onKeyboard (Kfs.typeKey scancode []) k := by
  have hascii : scancodeToAscii scancode k.keyboard = .ok (charOf k.keys scancode) k.keyboard :=
    scancodeToAscii_charOf hs
  unfold Kernel.typeKey Kfs.typeKey
  rw [onKeyboard_bind, bind_of_ok (onKeyboard_of_ok hascii), bind_of_ok (onKeyboard_of_ok hascii)]
  rw [if_neg hc, if_neg hc, onKeyboard_ite, onKeyboard_onScreen, onKeyboard_onScreen]

theorem handler_driver (h : ¬ k.Enters scancode) :
    Kernel.keyboardHandler cfg scancode k = onKeyboard (Kfs.keyboardHandler scancode []) k := by
  unfold Kernel.keyboardHandler Kfs.keyboardHandler
  by_cases hpre : scancode = extendedPrefix
  · rw [if_pos hpre, if_pos hpre, onKeyboard_bind]
  rw [if_neg hpre, if_neg hpre]
  by_cases hs : scancode &&& 0x80 = 0
  · have hget : ∀ f : Keyboard → Kb Unit, onKeyboard (get >>= f) k = onKeyboard (f k.keyboard) k :=
      fun _ => rfl
    have hext : k.keyboard.extended = k.extended := rfl
    rw [if_pos hs, if_pos hs, hget, get_bind_apply, hext]
    by_cases he : k.extended = 0
    · have hpress : Kernel.keyPress cfg scancode k = onKeyboard (Kfs.keyPress scancode []) k := by
        unfold Kernel.keyPress
        by_cases hc : scancode ∈ caseKeys
        · rw [if_pos hc]
        · rw [if_neg hc, keyPress_types hc]
          exact typeKey_driver cfg (fun hn => h ⟨hpre, hs, he, hc, hn⟩) (press_lt scancode hs)
      rw [if_neg (not_not.mpr he), if_neg (not_not.mpr he)]
      simp only [onKeyboard_bind]
      exact bind_congr_at hpress
    · rw [if_pos he, if_pos he]
      simp only [onKeyboard_bind]
  · rw [if_neg hs, if_neg hs]
    simp only [onKeyboard_bind]

theorem handler_enter (h : k.Enters scancode) : Kernel.keyboardHandler cfg scancode k =
    (Kernel.inputNewline cfg >>= fun _ => onKeyboard (picSendEoi irq1) >>= fun _ =>
      onKeyboard (setExtended 0) : Ke M Unit) k := by
  obtain ⟨hpre, hs, he, hc, hn⟩ := h
  have hascii : scancodeToAscii scancode k.keyboard = .ok newline k.keyboard :=
    hn ▸ scancodeToAscii_charOf (press_lt scancode hs)
  have hkey : Kernel.keyPress cfg scancode k = Kernel.inputNewline cfg k := by
    unfold Kernel.keyPress Kernel.typeKey
    rw [if_neg hc, bind_of_ok (onKeyboard_of_ok hascii), if_neg (by decide), if_pos rfl]
    rfl
  unfold Kernel.keyboardHandler
  rw [if_neg hpre, if_pos hs, get_bind_apply, if_neg (not_not.mpr he)]
  exact bind_congr_at hkey

/-- **What a scancode does**: to memory what the line does that it submits, and to the
screens and the driver what the keyboard model does. -/
theorem handler_effect (scancode : BitVec 8) (hk : LinesOk k.shell.console) :
    Agree (Handled scancode k) SameMemory (Kernel.keyboardHandler cfg scancode k)
      (runLines cfg (k.submits scancode) k.st) := by
  unfold Kernel.submits
  by_cases hE : k.Enters scancode
  · rw [if_pos hE]
    obtain ⟨hpre, hs, he, hc, hn⟩ := id hE
    have hascii : scancodeToAscii scancode k.keyboard = .ok newline k.keyboard :=
      hn ▸ scancodeToAscii_charOf (press_lt scancode hs)
    -- both the kernel and the model go on with Enter
    have hrun := handler_enter cfg hE
    have hmodel : ∀ out, Kfs.keyboardHandler scancode out k.keyboard =
        (onScreen (Kfs.inputNewline out) >>= fun _ => picSendEoi irq1 >>= fun _ =>
          setExtended 0 : Kb Unit)
          k.keyboard := by
      intro out
      have hkey :
          Kfs.keyPress scancode out k.keyboard = onScreen (Kfs.inputNewline out) k.keyboard := by
        rw [keyPress_types hc]
        unfold Kfs.typeKey
        rw [bind_of_ok hascii, if_neg (by decide), if_pos rfl]
      unfold Kfs.keyboardHandler
      rw [if_neg hpre, if_pos hs, get_bind_apply,
        if_neg (show ¬ k.keyboard.extended ≠ 0 from not_not.mpr he)]
      exact bind_congr_at hkey
    rw [hrun]
    refine (newline_answered cfg (hk k.shell.console.current).2).bind fun _ k' s' h => ?_
    obtain ⟨out, hout⟩ := h.out
    refine .ok ⟨h.st, out, { k.keyboard with
      console := k'.shell.console
      extended := 0
      ports := (pic1Command, 0x20) :: (pic2Command, 0x20) :: k.ports }, ?_, h.keys, rfl, rfl⟩
    rw [hmodel, bind_of_ok (onScreen_of_ok hout)]
    rfl
  · obtain ⟨b, hb, -⟩ := keyboardHandler_flags (k := k.keyboard) hk scancode []
    rw [if_neg hE, handler_driver cfg hE]
    exact .of_ok (onKeyboard_of_ok hb) rfl ⟨rfl, [], b, hb, rfl, rfl, rfl⟩

end Handler

/-! ## Runs -/

section Run

variable {k : Kernel M} {t : Typist}

theorem ShowsLine.submitted {s : ScreenState} {e : Editor} (h : ShowsLine s e) :
    submittedLine s = e.text := by
  have hlen := h.represents.length
  unfold submittedLine
  by_cases hpos : s.inputLength > 0
  · have hmax := h.ok.length
    have hat : StringAt (storeByte s.buffer s.inputLength 0) 0 e.text := by
      refine ⟨fun i hi => ?_, ?_⟩
      · have hb := h.represents.byte (i := i) (by omega)
        rw [List.getElem?_eq_getElem hi, Option.some.injEq] at hb
        rw [Nat.zero_add, storeByte_other (by omega), hb]
      · rw [Nat.zero_add, ← hlen]
        exact storeByte_same _ _ _
    have hno : 0 ∉ e.text := fun h0 => absurd (h.printable 0 h0).1 (by decide)
    rw [if_pos hpos]
    exact cString_stringAt hat hno (by simp only [screenSize, screenWidth, screenHeight]; omega)
  · rw [if_neg hpos]
    exact (List.length_eq_zero_iff.mp (by omega)).symm

theorem TypedBy.linesOk {b : Keyboard} (h : TypedBy b t) : LinesOk b.console :=
  fun i => (h.lines i).lineOk

omit [Bus M] in
theorem submits_eq (h : TypedBy k.keyboard t) (scancode : BitVec 8) :
    k.submits scancode = (t.key scancode).2 := by
  have hkeys : k.keys = t.keys := h.keys
  have hext : k.extended = t.extended := h.extended
  unfold Kernel.submits Typist.key
  by_cases hpre : scancode = extendedPrefix
  · rw [if_neg fun hE : k.Enters scancode => hE.1 hpre, if_pos hpre]
  rw [if_neg hpre]
  by_cases hs : scancode &&& 0x80 = 0
  swap
  · rw [if_neg fun hE : k.Enters scancode => hs hE.2.1, if_neg hs]
  rw [if_pos hs, ← hext]
  by_cases he : k.extended = 0
  swap
  · rw [if_neg fun hE : k.Enters scancode => he hE.2.2.1, if_pos he]
  rw [if_neg (not_not.mpr he)]
  by_cases hc : scancode ∈ caseKeys
  · rw [if_neg fun hE : k.Enters scancode => hE.2.2.2.1 hc]
    exact (press_submits hc).symm
  rw [press_types hc, ← hkeys]
  by_cases hn : charOf k.keys scancode = newline
  · rw [if_pos (show k.Enters scancode from ⟨hpre, hs, he, hc, hn⟩),
      hn, if_neg (by decide), if_pos rfl]
    exact congrArg (fun l => [l]) h.line.submitted
  · rw [if_neg fun hE : k.Enters scancode => hn hE.2.2.2.2, if_neg hn]
    split <;> rfl

theorem runLines_append (l l' : List (List (BitVec 8))) :
    runLines cfg (l ++ l') =
      (runLines cfg l >>= fun _ => runLines cfg l' : EStateM Stop (State M) Unit) := by
  induction l with
  | nil => exact (pure_bind () fun _ => runLines cfg l').symm
  | cons line l ih =>
    rw [List.cons_append, runLines, runLines, ih, bind_assoc]

/-! ### From what lines keep to what the kernel keeps -/

/-- A scancode that the kernel handles and returns from. -/
def KernelStep (k : Kernel M) (scancode : BitVec 8) (k' : Kernel M) : Prop :=
  Kernel.keyboardHandler cfg scancode k = .ok () k'

def SubmitsOnly (C : List (BitVec 8) → Prop) (k : Kernel M) (scancode : BitVec 8) : Prop :=
  ∀ line ∈ k.submits scancode, C line

/-- What every line that meets a condition keeps of memory, a scancode keeps that submits only
such. -/
theorem KernelStep.inv {I : State M → Prop} {C : List (BitVec 8) → Prop}
    (hline : ∀ line s s', I s → C line → lineEffect cfg line s = .ok () s' → I s') {k k' : Kernel M}
    {scancode : BitVec 8} (hk : LinesOk k.shell.console ∧ I k.st) (hc : SubmitsOnly C k scancode)
    (h : KernelStep cfg k scancode k') : LinesOk k'.shell.console ∧ I k'.st := by
  obtain ⟨hl, hI⟩ := hk
  have hagree : Agree (Handled scancode k) SameMemory (Kernel.keyboardHandler cfg scancode k)
      (runLines cfg (k.submits scancode) k.st) := handler_effect cfg scancode hl
  obtain ⟨_, k₁, s, hk, hs, hd⟩ | ⟨e, k₁, s, hk, -, -⟩ := hagree.inv
  swap
  · rw [show Kernel.keyboardHandler cfg scancode k = .ok () k' from h] at hk
    cases hk
  rw [show Kernel.keyboardHandler cfg scancode k = .ok () k' from h] at hk
  cases hk
  obtain ⟨out, b, hb, -, -, hcon⟩ := hd.keyboard
  obtain ⟨b', hb', hlb, -⟩ := keyboardHandler_flags (k := k.keyboard) hl scancode out
  rw [hb] at hb'
  cases hb'
  refine ⟨hcon ▸ hlb, ?_⟩
  rw [hd.st]
  -- one line at most
  unfold SubmitsOnly Kernel.submits at hc
  unfold Kernel.submits at hs
  split at hc
  · next hE =>
    rw [if_pos hE] at hs
    rw [runLines] at hs
    obtain ⟨_, s₁, h₁, h₂⟩ := bind_eq_ok.mp hs
    cases h₂
    exact hline _ _ _ hI (hc _ List.mem_cons_self) h₁
  · next hE =>
    rw [if_neg hE] at hs
    cases hs
    exact hI

theorem kernel_inv {I : State M → Prop} {C : List (BitVec 8) → Prop}
    (hline : ∀ line s s', I s → C line → lineEffect cfg line s = .ok () s' → I s') {k : Kernel M}
    {tr : List (BitVec 8 × Kernel M)} (hk : LinesOk k.shell.console) (h0 : I k.st)
    (ht : Trace (KernelStep cfg) k tr) (hm : Meets (SubmitsOnly C) k tr) :
    LinesOk (lastOf k tr).shell.console ∧ I (lastOf k tr).st :=
  Trace.inv (I := fun k => LinesOk k.shell.console ∧ I k.st)
    (fun _ _ _ hI hc hs => KernelStep.inv cfg hline hI hc hs) ht hm ⟨hk, h0⟩

/-- The kernel shows what the typist typed, and its memory is `s`. -/
def Displays (t : Typist) (k : Kernel M) (s : State M) : Prop := TypedBy k.keyboard t ∧ k.st = s

omit [Bus M] in
theorem Handled.typed (h : TypedBy k.keyboard t) {scancode : BitVec 8}
    (hclean : t.Leaves scancode → t.line.text = [])
    {k' : Kernel M} {s : State M} (hk : Handled scancode k k' s) :
    TypedBy k'.keyboard (t.key scancode).1 := by
  obtain ⟨out, b, hb, hkeys, hext, hcon⟩ := hk.keyboard
  obtain ⟨b', hb', htyped⟩ := keyboardHandler_shows h scancode out hclean
  rw [hb] at hb'
  cases hb'
  refine ⟨hkeys.trans htyped.keys, hext.trans htyped.extended,
    (congrArg Console.current hcon).trans htyped.current,
    fun i => ?_⟩
  show ShowsLine (k'.shell.console.states i) _
  rw [hcon]
  exact htyped.lines i

/-- The kernel refines the typist, scancode after scancode. -/
theorem typeCodes_agree :
    ∀ (codes : List (BitVec 8)) {k : Kernel M} {t : Typist}, TypedBy k.keyboard t →
    t.Clean codes → Agree (Displays (t.types codes).1) SameMemory (Kernel.typeCodes cfg codes k)
      (runLines cfg (t.types codes).2 k.st)
  | [], k, t, h, _ => .ok ⟨h, rfl⟩
  | c :: codes, k, t, h, hclean => by
    have hstep : Agree (Handled c k) SameMemory (Kernel.keyboardHandler cfg c k)
        (runLines cfg (k.submits c) k.st) := handler_effect cfg c h.linesOk
    rw [submits_eq h] at hstep
    rw [Kernel.typeCodes, Typist.types, runLines_append]
    refine hstep.bind fun _ k₁ s₁ h₁ => ?_
    have hk₁ : TypedBy k₁.keyboard (t.key c).1 := h₁.typed h hclean.1
    have := typeCodes_agree codes hk₁ hclean.2
    rwa [h₁.st] at this

theorem typeCodes_trace {C : List (BitVec 8) → Prop} :
    ∀ {codes : List (BitVec 8)} {k k' : Kernel M} {t : Typist},
    TypedBy k.keyboard t → t.Clean codes → (∀ line ∈ (t.types codes).2, C line) →
    Kernel.typeCodes cfg codes k = .ok () k' →
    ∃ tr, tr.map Prod.fst = codes ∧ Trace (KernelStep cfg) k tr ∧
    Meets (SubmitsOnly C) k tr ∧ lastOf k tr = k'
  | [], _, _, _, _, _, _, hr => by
    cases hr
    exact ⟨[], rfl, trivial, trivial, rfl⟩
  | c :: codes, k, k', t, h, hclean, hC, hr => by
    obtain ⟨_, k₁, h₁, hr⟩ := bind_eq_ok.mp hr
    obtain ⟨_, -, hd⟩ := (handler_effect cfg c h.linesOk).ok_left h₁
    rw [Typist.types] at hC
    obtain ⟨tr, hcodes, ht, hm, hlast⟩ := typeCodes_trace (hd.typed h hclean.1) hclean.2
      (fun line hl => hC line (List.mem_append_right _ hl)) hr
    refine ⟨(c, k₁) :: tr, by rw [List.map_cons, hcodes], ⟨h₁, ht⟩, ⟨fun line hl => ?_, hm⟩, hlast⟩
    rw [submits_eq h] at hl
    exact hC line (List.mem_append_left _ hl)

/-- **What is typed is executed.** Let the scancodes be any that leave no screen while a line
is typed on it. Then the kernel's memory ends as it does when the submitted lines run one
after the other, with nothing but memory: the same lines run, and the kernel stops if and
only if one of them stops, for the same reason. The lines are those of the typist: they
do not depend on what is on the screens, nor on what the commands print. All this holds up
to the first command, if any, that follows a stray pointer into the kernel's own memory:
there both stop. -/
theorem typed_is_executed [Physical M] {k : Kernel (Guarded M)}
    (codes : List (BitVec 8)) (h : TypedBy k.keyboard t) (hclean : t.Clean codes) :
    Agree (Displays (t.types codes).1) SameMemory (Kernel.typeCodes cfg codes k)
      (runLines cfg (t.types codes).2 k.st) :=
  typeCodes_agree cfg codes h hclean

omit [Bus M] in
theorem Kernel.blank_typed (s : State M) : TypedBy (Kernel.blank s).keyboard Typist.fresh where
  keys := rfl
  extended := rfl
  current := rfl
  lines _ := LineAt.shows ⟨rfl, rfl⟩

/-- The keys of `kbrk`, and Enter. -/
theorem typed_is_executed_kbrk :
    (Typist.fresh.types [0x25, 0x30, 0x13, 0x25, 0x1C]).2 = [bytesOf "kbrk"] ∧
    Agree (Displays (Typist.fresh.types [0x25, 0x30, 0x13, 0x25, 0x1C]).1) SameMemory
      (Kernel.typeCodes Setup.readme [0x25, 0x30, 0x13, 0x25, 0x1C]
        (Kernel.blank (State.boot (Guarded.mk Mmu.blank))))
      (runLines Setup.readme (Typist.fresh.types [0x25, 0x30, 0x13, 0x25, 0x1C]).2
        (State.boot (Guarded.mk Mmu.blank))) :=
  ⟨by decide +kernel, typed_is_executed Setup.readme [0x25, 0x30, 0x13, 0x25, 0x1C]
    (Kernel.blank_typed _)
    (Typist.clean_of_no_screen (by decide) _)⟩

end Run

end Kfs
