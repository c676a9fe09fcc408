import Kfs.KernelBoot
import Kfs.ScreenSheet

/-!
# The transcript of a session

A `Session` is the machine as its user has it: the memory, the line that he types, and one
sheet with all that was typed and printed. Nothing on it ever scrolls away. The commands
run on it under an action of their own, `told`: a text goes to the sheet.

The kernel refines it (`machine_transcript`). Its screen is the end of the sheet: the last
25 lines of the transcript, panics included, as long as no line was longer than a row.
-/

namespace Kfs

open Kfs.Lib

structure Session (M : Type) where
  st : State M
  typist : Typist
  sheet : Sheet (BitVec 8)

abbrev Se (M α : Type) := EStateM Stop (Session M) α

variable {M : Type} [Bus M] (cfg : Setup)

namespace Session

section

omit [Bus M]

def print (text : List (BitVec 8)) : Se M Unit :=
  modify fun s => { s with sheet := s.sheet.puts (strokes text) }

def clear : Se M Unit := modify fun s => { s with sheet := s.sheet.put .clear }

end

/-- Code on memory; a panic is printed. -/
def inMemory {α : Type} (x : K M α) : Se M α := fun s =>
  match handled cfg x s.st with
  | .ok a st => .ok a { s with st := st }
  | .error e st => (do print e.message; throw (.trap e) : Se M α) { s with st := st }

end Session

def CmdOp.told : ∀ α, CmdOp M α → Se M α
  | _, .print text => Session.print text
  | _, .clear => Session.clear
  | _, .memory x => Session.inMemory cfg x
  | _, .outb _ _ => pure ()
  | _, .stop s => throw s

namespace Session

/-- The command that the words name. -/
def runWords : List (List (BitVec 8)) → Se M Unit
  | [] => pure ()
  | w :: ws =>
    match commandOf (w :: ws) with
    | some cmd => do
      print (bytesOf "Executing command: " ++ cmd.nameStr.bytes ++ [newline])
      (Cmd.function cfg.img cfg.build (w :: ws) cmd).run (CmdOp.told cfg)
    | none => do
      print (bytesOf "Unknown command: " ++ w ++ [newline])
      print (bytesOf "Type 'help' for available commands.\n")

def runLine (line : List (BitVec 8)) : Se M Unit :=
  if line.length = 0 then pure ()
  else if shellBufferSize - 1 ≤ line.length then print (bytesOf "Command too long!\n")
  else runWords cfg (lineWords line)

def prompt : Se M Unit := print (bytesOf "kfs> ")

/-- The line behind the prompt is ended, and run. -/
def enter (line : List (BitVec 8)) : Se M Unit := do
  modify fun s => { s with sheet := (s.sheet.write (s.sheet.line ++ line)).put .newline }
  runLine cfg line
  prompt

/-- What a scancode does. The row must hold the prompt, the line and the cell behind it. -/
def key (scancode : BitVec 8) : Se M Unit := do
  let s ← get
  let (t, lines) := s.typist.key scancode
  set { s with typist := t, sheet := s.sheet.widen (s.sheet.line.length + t.line.text.length + 1) }
  match lines with
  | [] => pure ()
  | line :: _ => enter cfg line

def keys : List (BitVec 8) → Se M Unit
  | [] => pure ()
  | c :: codes => do
    key cfg c
    keys codes

/-- The start-up, with all that it prints on the first screen. -/
def boot : Se M Unit := do
  clear
  print (bytesOf "Welcome to KrnL!\n")
  print (bytesOf "- Architecture: i386 (x86)\n")
  print (bytesOf "- Boot loader: GRUB\n")
  print (bytesOf "- KrnL successfully loaded!\n\n")
  prompt
  (Cmd.memoryInit cfg.img pmmMaxBytes).run (CmdOp.told cfg)
  print (bytesOf "KFS Debug Shell v1.0\n")
  print (bytesOf "Type 'help' for available commands.\n\n")
  prompt

end Session

/-! ## Commands -/

/-- The kernel's memory is that of the session, and while no line is longer than a row the
screen shows the end of its sheet. -/
structure Mirrors (k : Kernel M) (ses : Session M) : Prop where
  st : k.st = ses.st
  showing : ses.sheet.widest ≤ 80 → Showing ses.sheet k.shell.console

/-- The same, with the typist at rest. -/
def MirrorsAt (t : Typist) (k : Kernel M) (ses : Session M) : Prop := Mirrors k ses ∧ ses.typist = t

section Mirrors

variable {k : Kernel M} {ses : Session M} {t : Typist}

omit [Bus M] in
theorem Mirrors.shell (h : Mirrors k ses) (sh : ShellState) (hsh : sh.console = k.shell.console) :
    Mirrors { k with shell := sh } ses :=
  ⟨h.st, fun hfit => by
    show Showing ses.sheet sh.console
    rw [hsh]
    exact h.showing hfit⟩

omit [Bus M] in
theorem print_mirrors (text : List (BitVec 8)) : Sim (MirrorsAt t) (MirrorsAt t)
    (onDisplay (screenPutstring text) : Ke M Unit) (Session.print text) := by
  rintro k ses ⟨h, ht⟩
  obtain ⟨_, c, hr, -⟩ := screenPutstring_draws text k.shell.console
  refine .of_ok (onDisplay_of_ok hr) rfl ⟨⟨h.st, fun hfit => ?_⟩, ht⟩
  obtain ⟨c', hr', h'⟩ := (h.showing ((Sheet.widest_puts _ _).trans hfit)).prints text hfit
  rw [hr] at hr'
  cases hr'
  exact h'

omit [Bus M] in
theorem clear_mirrors :
    Sim (MirrorsAt t) (MirrorsAt t) (onDisplay screenClear : Ke M Unit) Session.clear := by
  rintro k ses ⟨h, ht⟩
  obtain ⟨c, hr, hc⟩ := screenClear_showing ses.sheet k.shell.console
  exact .of_ok (onDisplay_of_ok hr) rfl ⟨⟨h.st, fun _ => hc⟩, ht⟩

theorem memory_mirrors {α : Type} (x : K M α) :
    Sim (MirrorsAt t) (MirrorsAt t) (inMemory cfg x) (Session.inMemory cfg x) := by
  rintro k ses ⟨h, ht⟩
  unfold inMemory Session.inMemory
  rw [h.st]
  cases handled cfg x ses.st with
  | ok a s => exact .ok ⟨⟨rfl, h.showing⟩, ht⟩
  | error e s =>
    have hk : MirrorsAt t { k with st := s } { ses with st := s } := ⟨⟨rfl, h.showing⟩, ht⟩
    exact (print_mirrors e.message _ _ hk).bind fun _ _ _ h' => .error h'

/-- **Every operation** of a command does to the screen what it does to the sheet. -/
theorem act_told {α : Type} (e : CmdOp M α) :
    Sim (MirrorsAt t) (MirrorsAt t) (CmdOp.act cfg α e) (CmdOp.told cfg α e) := by
  cases e with
  | print text => exact print_mirrors text
  | clear => exact clear_mirrors
  | memory x => exact memory_mirrors cfg x
  | outb port val => exact fun k ses h => .ok ⟨⟨h.1.st, h.1.showing⟩, h.2⟩
  | stop s => exact fun k ses h => .error h

/-- **A command** does. -/
theorem command_told {α : Type} (x : Cmd M α) :
    Sim (MirrorsAt t) (MirrorsAt t) (x.run (CmdOp.act cfg)) (x.run (CmdOp.told cfg)) :=
  Program.sim (fun _ e => act_told cfg e) x

/-! ## Lines -/

theorem runWords_told (args : Args) (ws : List (List (BitVec 8))) :
    Sim (MirrorsAt t) (MirrorsAt t) (Kernel.runWords cfg args ws : Ke M Unit)
      (Session.runWords cfg ws) := by
  intro k ses h
  unfold Kernel.runWords Session.runWords
  cases ws with
  | nil => exact .ok h
  | cons w ws =>
    dsimp only
    cases commandOf (w :: ws) with
    | none => exact (print_mirrors _ k ses h).bind fun _ _ _ h' => print_mirrors _ _ _ h'
    | some cmd =>
      refine (print_mirrors _ k ses h).bind fun _ k' ses' h' => ?_
      exact command_told cfg _ _ ses' ⟨h'.1.shell _ rfl, h'.2⟩

theorem runLine_told (args : Args) (line : List (BitVec 8)) :
    Sim (MirrorsAt t) (MirrorsAt t) (Kernel.runLine cfg args line : Ke M Unit)
      (Session.runLine cfg line) := by
  intro k ses h
  unfold Kernel.runLine Session.runLine
  split
  · exact .ok h
  split
  · exact print_mirrors _ k ses h
  · exact runWords_told cfg args _ k ses h

/-- The kernel is at the prompt: behind it stands the line of `e`. -/
structure AtLine (e : Editor) (t : Typist) (k : Kernel M) (ses : Session M) : Prop where
  st : k.st = ses.st
  typist : ses.typist = t
  editing : ses.sheet.widest ≤ 80 → Editing ses.sheet e k.shell.console

omit [Bus M] in
theorem prompt_told (h : MirrorsAt t k ses) :
    Agree (AtLine Editor.empty t) (MirrorsAt t) (onDisplay shellPrintPrompt k)
      (Session.prompt ses) := by
  obtain ⟨c, hr, -⟩ := prompt_ok k.shell.console
  refine .of_ok (onDisplay_of_ok hr) rfl ⟨h.1.st, h.2, fun hfit => ?_⟩
  obtain ⟨c', hr', h'⟩ := (h.1.showing ((Sheet.widest_puts _ _).trans hfit)).prompt hfit
  rw [hr] at hr'
  cases hr'
  exact h'

theorem submit_told {c : Console}
    (h : MirrorsAt t { k with shell := { k.shell with console := c } } ses)
    {s : ScreenState} (hlen : (c.states c.current).inputLength = s.inputLength)
    (hbytes : cString (c.states c.current).buffer 0 screenSize = commandLine s) :
    Agree (AtLine Editor.empty t) (MirrorsAt t)
      ((if (c.states c.current).inputLength > 0 then Kernel.shellProcessInput cfg
        (lineStr (c.states c.current))
        else onDisplay shellPrintPrompt : Ke M Unit)
        { k with shell := { k.shell with console := c } })
      ((do Session.runLine cfg (submittedLine s); Session.prompt) ses) := by
  unfold submittedLine
  rw [← hlen]
  split
  · obtain ⟨args, sh, hsh, hrun⟩ := Kernel.shellProcessInput_eq cfg (lineStr (c.states c.current))
      (k := { k with shell := { k.shell with console := c } })
    have hline : (lineStr (c.states c.current)).bytes = commandLine s := hbytes
    rw [hrun, hline]
    exact (runLine_told cfg args _ _ _ ⟨h.1.shell _ hsh, h.2⟩).bind fun _ _ _ h' => prompt_told h'
  · exact prompt_told h

/-- **Enter**: the line is ended and run. -/
theorem enter_told {e : Editor} (h : AtLine e t k ses)
    (hline : ShowsLine (k.shell.console.states k.shell.console.current) e) :
    Agree (AtLine Editor.empty t) (MirrorsAt t) (Kernel.inputNewline cfg k)
      (Session.enter cfg e.text ses) := by
  obtain ⟨c₁, c₂, hr₁, hr₂, hlen, hbytes⟩ := endLine hline.lineOk.2
  have hset := bufSet_apply hline.lineOk.2 0 k.shell.console
  rw [hset] at hr₁
  cases hr₁
  -- the line feed
  have hfeed : MirrorsAt t { k with shell := { k.shell with console := c₂ } }
      { ses with sheet := (ses.sheet.write (ses.sheet.line ++ e.text)).put .newline } := by
    refine ⟨⟨h.st, fun hfit => ?_⟩, h.typist⟩
    obtain ⟨c', hr', h'⟩ := (h.editing ((Nat.le_max_left _ _).trans hfit)).enter
      (d := k.shell.console.setCur fun s => { s with buffer := storeByte s.buffer _ 0 }) (by
        rw [Console.setCur_current, Console.setCur_self]) rfl
    rw [hr₂] at hr'
    cases hr'
    exact h'
  have hsubmit := submit_told cfg hfeed hlen hbytes
  rw [hline.submitted] at hsubmit
  rw [Kernel.inputNewline_eq cfg hset hr₂]
  show Agree _ _ _ ((do Session.runLine cfg e.text; Session.prompt : Se M Unit) _)
  rw [← bind_pure (do Session.runLine cfg e.text; Session.prompt : Se M Unit)]
  refine hsubmit.bind fun _ k' ses' h' => ?_
  exact .of_ok (onDisplay_of_ok (setCur_apply _ _)) rfl
    ⟨h'.st, h'.typist, fun hfit => (h'.editing hfit).reset⟩

end Mirrors

/-! ## Keys -/

/-- `F1` to `F10`: they switch screens, or print where the cursor is. -/
def functionKeys : List (BitVec 8) := [keyF1, keyF2, keyF3] ++ printKeys

section Keys

variable {t : Typist} {scancode : BitVec 8}

theorem screenOf_plain (h : scancode ∉ functionKeys) : screenOf scancode = none := by
  simp only [functionKeys, List.cons_append, List.mem_cons, not_or] at h
  unfold screenOf
  simp only [h, ↓reduceIte]

/-- The driver edited the line that is shown as the typist did, or both left it alone. -/
def EditsAlike (b : Keyboard) (t : Typist) (b' : Keyboard) (t' : Typist) : Prop :=
  b'.console = b.console ∧ t'.line = t.line ∨
    ∃ op : EditOp, op.run b.console = .ok () b'.console ∧ t'.line = t.line.step op

section Driver

variable {b : Keyboard} (h : TypedBy b t)
include h

theorem onScreen_edits (op : EditOp) : ∃ b', onScreen op.run b = .ok () b' ∧
    EditsAlike b t b' (t.edit op) := by
  obtain ⟨c, hr, -⟩ := op.run_edit h.line.represents h.line.ok
  exact ⟨_, onScreen_of_ok hr, .inr ⟨op, hr, t.line_setLine _⟩⟩

theorem extendedPress_edits (scancode : BitVec 8) :
    ∃ b', extendedPress scancode b = .ok () b' ∧ EditsAlike b t b' (t.pressExtended scancode) := by
  unfold extendedPress Typist.pressExtended
  split
  · exact onScreen_edits h .left
  split
  · exact onScreen_edits h .right
  · exact ⟨b, rfl, .inl ⟨rfl, rfl⟩⟩

theorem keyPress_edits (hf : scancode ∉ functionKeys) (hs : scancode.toNat < 128)
    (hp : (t.press scancode).2 = []) :
    ∃ b', keyPress scancode [] b = .ok () b' ∧ EditsAlike b t b' (t.press scancode).1 := by
  by_cases hc : scancode ∈ caseKeys
  · have hmod : scancode ∈ [keyLeftShift, keyRightShift, keyLeftCtrl, keyCapsLock] := by
      rcases List.mem_append.mp hc with hc | hc
      · simp only [List.mem_cons, List.not_mem_nil, or_false] at hc ⊢
        rcases hc with hc | hc | hc | hc | hc | hc | hc
        · exact .inl hc
        · exact .inr (.inl hc)
        · exact .inr (.inr (.inl hc))
        · exact .inr (.inr (.inr hc))
        all_goals exact absurd (by rw [hc]; decide) hf
      · exact absurd (List.mem_append_right _ hc) hf
    simp only [List.mem_cons, List.not_mem_nil, or_false] at hmod
    rcases hmod with rfl | rfl | rfl | rfl <;> exact ⟨_, rfl, .inl ⟨rfl, rfl⟩⟩
  · rw [press_types hc] at hp ⊢
    rw [keyPress_types hc]
    unfold typeKey
    rw [bind_of_ok (scancodeToAscii_charOf hs), h.keys]
    by_cases hb : charOf t.keys scancode = backspace
    · rw [if_pos hb, if_pos hb]
      exact onScreen_edits h .delete
    rw [if_neg hb] at hp ⊢
    rw [if_neg hb]
    by_cases hn : charOf t.keys scancode = newline
    · rw [if_pos hn] at hp
      cases hp
    · rw [if_neg hn, if_neg hn]
      exact onScreen_edits h (.insert _)

/-- **A scancode that submits nothing** edits the line, or leaves the screen alone. -/
theorem keyboardHandler_edits (hf : scancode ∉ functionKeys) (hs : (t.key scancode).2 = []) :
    ∃ b', keyboardHandler scancode [] b = .ok () b' ∧ EditsAlike b t b' (t.key scancode).1 := by
  unfold keyboardHandler
  unfold Typist.key at hs ⊢
  by_cases hpre : scancode = extendedPrefix
  · rw [if_pos hpre, if_pos hpre]
    exact ⟨_, rfl, .inl ⟨rfl, rfl⟩⟩
  rw [if_neg hpre] at hs ⊢
  rw [if_neg hpre]
  by_cases hpress : scancode &&& 0x80 = 0
  · rw [if_pos hpress] at hs ⊢
    rw [if_pos hpress, get_bind_apply, h.extended]
    by_cases hext : t.extended = 0
    · rw [if_neg (not_not.mpr hext)] at hs ⊢
      obtain ⟨b', hr, he⟩ := keyPress_edits h hf (press_lt scancode hpress) hs
      rw [if_neg (not_not.mpr hext), bind_of_ok hr]
      exact ⟨_, rfl, he⟩
    · obtain ⟨b', hr, he⟩ := extendedPress_edits h scancode
      rw [if_pos hext, if_pos hext, bind_of_ok hr]
      exact ⟨_, rfl, he⟩
  · obtain ⟨b', hr, hcon, -⟩ := keyRelease_flags hpress b
    rw [if_neg hpress, if_neg hpress, bind_of_ok hr]
    refine ⟨_, rfl, .inl ⟨hcon, ?_⟩⟩
    show (t.release scancode).line = t.line
    unfold Typist.release
    dsimp only
    split
    · rfl
    split <;> rfl

end Driver

/-- The kernel is as the session says, and waits for the next key. -/
structure Attends (k : Kernel M) (ses : Session M) : Prop where
  st : k.st = ses.st
  typed : TypedBy k.keyboard ses.typist
  editing : ses.sheet.widest ≤ 80 → Editing ses.sheet ses.typist.line k.shell.console

variable {k : Kernel M} {ses : Session M}

omit [Bus M] in
theorem Editing.widen {s : Sheet (BitVec 8)} {e : Editor} {c : Console}
    (h : Editing s e c) (n : Nat) :
    Editing (s.widen n) e c := ⟨h.startX, h.startY, h.column, h.row, h.cells⟩

omit [Bus M] in
theorem Kernel.Enters.key (h : TypedBy k.keyboard t) (hE : k.Enters scancode) :
    (t.key scancode).1.line = Editor.empty ∧ (t.key scancode).2 = [t.line.text] := by
  have hkeys : k.keys = t.keys := h.keys
  have hext : k.extended = t.extended := h.extended
  obtain ⟨hpre, hs, he, hc, hn⟩ := hE
  unfold Typist.key
  rw [if_neg hpre, if_pos hs, ← hext, if_neg (not_not.mpr he),
    press_types hc, ← hkeys, hn, if_neg (by decide),
    if_pos rfl]
  exact ⟨t.line_setLine Editor.empty, rfl⟩

/-- **One scancode.** -/
theorem key_attends (h : Attends k ses) (hf : scancode ∉ functionKeys) :
    Agree Attends Mirrors (Kernel.keyboardHandler cfg scancode k)
      (Session.key cfg scancode ses) := by
  have hclean : ses.typist.Leaves scancode → ses.typist.line.text = [] := by
    rintro ⟨-, -, -, i, hi, -⟩
    rw [screenOf_plain hf] at hi
    cases hi
  have hsubmits : k.submits scancode = (ses.typist.key scancode).2 := submits_eq h.typed scancode
  have htyped : ∀ {k'}, Kernel.keyboardHandler cfg scancode k = .ok () k' →
      TypedBy k'.keyboard (ses.typist.key scancode).1 := by
    intro k' hr
    obtain ⟨_, -, hd⟩ := (handler_effect cfg scancode h.typed.linesOk).ok_left hr
    exact hd.typed h.typed hclean
  obtain ⟨t, ht⟩ : ∃ t, t = (ses.typist.key scancode).1 := ⟨_, rfl⟩
  rw [← ht] at htyped
  obtain ⟨s₁, hs₁⟩ : ∃ s₁, s₁ = ses.sheet.widen (ses.sheet.line.length + t.line.text.length + 1) :=
    ⟨_, rfl⟩
  by_cases hE : k.Enters scancode
  · obtain ⟨hline, hlines⟩ := hE.key h.typed
    rw [← ht] at hline
    have hkey : Session.key cfg scancode ses =
        Session.enter cfg ses.typist.line.text { ses with typist := t, sheet := s₁ } := by
      unfold Session.key
      rw [get_bind_apply]
      dsimp only
      rw [hlines, hs₁, ht]
      rfl
    have hat : AtLine ses.typist.line t k { ses with typist := t, sheet := s₁ } := by
      refine ⟨h.st, rfl, fun hfit => ?_⟩
      dsimp only at hfit ⊢
      rw [hs₁] at hfit ⊢
      exact (h.editing ((Nat.le_max_left _ _).trans hfit)).widen _
    have henter := enter_told cfg hat h.typed.line
    have hhandler := handler_enter cfg hE
    rw [hkey]
    obtain ⟨_, k', ses', hk, hses, h'⟩ | ⟨e, k', ses', hk, hses, h'⟩ := henter.inv
    · have hr : Kernel.keyboardHandler cfg scancode k = .ok () { k' with
          ports := (pic1Command, 0x20) :: (pic2Command, 0x20) :: k'.ports
          extended := 0 } := by
        rw [hhandler, bind_of_ok hk]
        rfl
      refine .of_ok hr hses ⟨h'.st, ?_, fun hfit => ?_⟩
      · rw [h'.typist]
        exact htyped hr
      · rw [h'.typist, hline]
        exact h'.editing hfit
    · exact .of_error (hhandler.trans (bind_of_error hk)) hses h'.1
  · have hnone : (ses.typist.key scancode).2 = [] := by
      rw [← hsubmits, Kernel.submits, if_neg hE]
    obtain ⟨b, hb, he⟩ := keyboardHandler_edits h.typed hf hnone
    have hr : Kernel.keyboardHandler cfg scancode k = .ok () (k.putKeyboard b) := by
      rw [handler_driver cfg hE]
      exact onKeyboard_of_ok hb
    have hkey : Session.key cfg scancode ses = .ok () { ses with typist := t, sheet := s₁ } := by
      unfold Session.key
      rw [get_bind_apply]
      dsimp only
      rw [hnone, hs₁, ht]
      rfl
    refine .of_ok hr hkey ⟨h.st, htyped hr, fun hfit => ?_⟩
    rw [hs₁] at hfit ⊢
    have hroom : ses.sheet.line.length + t.line.text.length < 80 :=
      (Nat.le_max_right _ _).trans hfit
    have hold := h.editing ((Nat.le_max_left _ _).trans hfit)
    rw [← ht] at he
    show Editing _ t.line b.console
    rcases he with ⟨hcon, hline⟩ | ⟨op, hop, hline⟩
    · rw [hcon, hline]
      exact hold.widen _
    · rw [hline] at hroom ⊢
      obtain ⟨c', hr', h'⟩ := hold.step h.typed.line.represents h.typed.line.ok op hroom
      have hop : op.run k.shell.console = .ok () b.console := hop
      rw [hop] at hr'
      cases hr'
      exact h'.widen _

/-- **A sequence of scancodes.** -/
theorem keys_attend : ∀ (codes : List (BitVec 8)) {k : Kernel M} {ses : Session M}, Attends k ses →
    (∀ c ∈ codes, c ∉ functionKeys) →
    Agree Attends Mirrors (Kernel.typeCodes cfg codes k) (Session.keys cfg codes ses)
  | [], _, _, h, _ => .ok h
  | c :: codes, _, _, h, hf => (key_attends cfg h (hf c List.mem_cons_self)).bind fun _ _ _ h' =>
    keys_attend codes h' fun d hd => hf d (List.mem_cons_of_mem c hd)

end Keys

/-! ## Start-up -/

section Boot

variable {s : Sheet (BitVec 8)} {c : Console}

omit [Bus M] in
theorem Showing.setColor (h : Showing s c) (fg bg : VgaColor) :
    ∃ c', screenSetColor fg bg c = .ok () c' ∧ Showing s c' := by
  obtain ⟨c', hr, hp⟩ :=
    updateHardwareCursor_paints (c.setCur fun s => { s with color := vgaColor fg bg })
  have hself : c'.states c'.current = { c.states c.current with color := vgaColor fg bg } := by
    rw [hp.cur, Console.setCur_current, Console.setCur_self]
  refine ⟨c', hr, by rw [hself]; exact h.column, by rw [hself]; exact h.row, fun r x hr hx => ?_⟩
  rw [Console.charAt_congr (hp.cells _)]
  exact h.cells r x hr hx

/-- The home screen, with the prompt. -/
def homeSheet : Sheet (BitVec 8) :=
  (((((Sheet.empty.put .clear).puts (strokes (bytesOf "Welcome to KrnL!\n"))).puts
    (strokes (bytesOf "- Architecture: i386 (x86)\n"))).puts
      (strokes (bytesOf "- Boot loader: GRUB\n"))).puts
      (strokes (bytesOf "- KrnL successfully loaded!\n\n"))).puts (strokes (bytesOf "kfs> "))

theorem homeSheet_fits : homeSheet.widest ≤ 80 := by decide +kernel

theorem home_shown (h : Showing (Sheet.empty.put .clear) c) :
    ∃ c', (do loadHomeScreen; shellPrintPrompt : C Unit) c = .ok () c' ∧
    Editing homeSheet Editor.empty c' := by
  obtain ⟨c₁, hr₁, h₁⟩ := h.prints (bytesOf "Welcome to KrnL!\n") (by decide +kernel)
  obtain ⟨c₂, hr₂, h₂⟩ := h₁.setColor .lightCyan .black
  obtain ⟨c₃, hr₃, h₃⟩ := h₂.setColor .brown .black
  obtain ⟨c₄, hr₄, h₄⟩ := h₃.setColor .white .black
  obtain ⟨c₅, hr₅, h₅⟩ := h₄.prints (bytesOf "- Architecture: i386 (x86)\n") (by decide +kernel)
  obtain ⟨c₆, hr₆, h₆⟩ := h₅.prints (bytesOf "- Boot loader: GRUB\n") (by decide +kernel)
  obtain ⟨c₇, hr₇, h₇⟩ := h₆.prints (bytesOf "- KrnL successfully loaded!\n\n") (by decide +kernel)
  obtain ⟨c₈, hr₈, h₈⟩ := h₇.setColor .lightCyan .black
  obtain ⟨c', hr, h'⟩ := h₈.prompt homeSheet_fits
  have hload : loadHomeScreen c = .ok () c₈ := by
    unfold loadHomeScreen kprintf
    rw [bind_of_ok hr₁, bind_of_ok hr₂, bind_of_ok hr₃, bind_of_ok hr₄,
      bind_of_ok hr₅, bind_of_ok hr₆,
      bind_of_ok hr₇, hr₈]
  exact ⟨c', (bind_of_ok hload).trans hr, h'⟩

theorem Vga.cell_char (v : Vga) (i : Nat) : (v.cell i).setWidth 8 = v.mem (2 * i) := by
  unfold Vga.cell
  exact BitVec.setWidth_append_eq_right

/-- Screen 0 as the first round of `screen_init` leaves it: its image is the home screen. -/
structure HomeSaved (s : ScreenState) : Prop where
  column : s.cursorX = homeSheet.line.length
  row : s.cursorY = homeSheet.row 25
  image : ∀ r x, r < 25 → x < 80 → s.buffer (2 * (80 * r + x)) = (homeSheet.shown 25 r).getD x space

theorem initScreen_home (c : Console) : ∃ c', initScreen 0 c = .ok () c' ∧
    HomeSaved (c'.states 0) := by
  obtain ⟨c₁, hc₁⟩ : ∃ c₁ : Console, c₁ = { c with
    states := Function.update c.states 0 ⟨fun j => if j < screenSize then 0
      else (c.states 0).buffer j,
      0, 0, 0, 0, 0, 0, initialColor 0⟩
    current := 0 } := ⟨_, rfl⟩
  obtain ⟨c₂, hr₂, h₂⟩ := screenClear_showing Sheet.empty c₁
  obtain ⟨c₃, hr₃, h₃⟩ := home_shown h₂
  -- the first screen stays current
  have hdraw : Total (Touches SameText) (do screenClear; loadHomeScreen : C Unit) :=
    .bind drawing screenClear_draws fun _ => loadHomeScreen_draws
  obtain ⟨_, d, hd, ht⟩ := hdraw c₁
  rw [bind_of_ok hr₂] at hd
  obtain ⟨e, he, hte⟩ := prompt_ok d
  rw [bind_of_ok hd, he] at hr₃
  cases hr₃
  have hcur : c₃.current = 0 := by
    rw [hte.current, ht.current, hc₁]
  obtain ⟨c₄, hc₄⟩ : ∃ c₄, c₄ = c₃.setCur fun s =>
    { s with buffer := fun i => if i < screenSize then c₃.vga.mem i else s.buffer i } := ⟨_, rfl⟩
  obtain ⟨c', hr, hp⟩ := updateHardwareCursor_paints c₄
  have hself : c'.states 0 = { c₃.states c₃.current with
      buffer := fun i => if i < screenSize then c₃.vga.mem i
        else (c₃.states c₃.current).buffer i } := by
    rw [hp.states, hc₄, ← hcur, Console.setCur_self]
  have hsave : saveScreen c₃ = .ok () c₄ := by
    rw [hc₄]
    rfl
  have hbuf : ∀ i, i < screenSize → (c'.states 0).buffer i = c₃.vga.mem i := by
    intro i hi
    rw [hself]
    exact if_pos hi
  refine ⟨c', ?_, ⟨?_, ?_, fun r x hr hx => ?_⟩⟩
  · unfold initScreen
    refine (bind_of_ok rfl).trans ((bind_of_ok (t := c₁) (by rw [hc₁]; rfl)).trans ?_)
    rw [bind_of_ok hr₂, if_pos rfl, bind_of_ok hd]
    dsimp only
    rw [bind_of_ok he, bind_of_ok hsave]
    exact hr
  · rw [hself]
    exact h₃.column
  · rw [hself]
    exact h₃.row
  · rw [hbuf _ (by simp only [screenSize, screenWidth, screenHeight]; omega), ← Vga.cell_char]
    exact h₃.showing.cells r x hr hx

/-- **`screen_init`** shows the home screen. -/
theorem screenInit_home (c : Console) : ∃ c', screenInit c = .ok () c' ∧ Showing homeSheet c' := by
  obtain ⟨c₁, hr₁, h₁⟩ := initScreen_home c
  obtain ⟨c₂, hr₂, -, ho₂⟩ := initScreen_ok 1 c₁
  obtain ⟨c₃, hr₃, -, ho₃⟩ := initScreen_ok 2 c₂
  have h0 : c₃.states 0 = c₁.states 0 := (ho₃ 0 (by decide)).trans (ho₂ 0 (by decide))
  rw [← h0] at h₁
  refine ⟨_, (bind_of_ok hr₁).trans ((bind_of_ok hr₂).trans ((bind_of_ok hr₃).trans rfl)),
    h₁.column, h₁.row,
    fun r x hr hx => ?_⟩
  unfold Console.charAt
  rw [Vga.cell_char, ← h₁.image r x hr hx]
  exact if_pos (by simp only [screenSize, screenWidth, screenHeight]; omega)

variable {k : Kernel M} {p : Pc M} {st : State M}

omit [Bus M] in
theorem Session.print_apply (text : List (BitVec 8)) (ses : Session M) :
    Session.print text ses = .ok () { ses with sheet := ses.sheet.puts (strokes text) } := rfl

theorem Session.boot_home (st : State M) : Session.boot cfg ⟨st, Typist.fresh, Sheet.empty⟩ = (do
    (Cmd.memoryInit cfg.img pmmMaxBytes).run (CmdOp.told cfg)
    Session.print (bytesOf "KFS Debug Shell v1.0\n")
    Session.print (bytesOf "Type 'help' for available commands.\n\n")
    Session.prompt : Se M Unit) ⟨st, Typist.fresh, homeSheet⟩ := by
  have hclear : Session.clear (M := M) ⟨st, Typist.fresh, Sheet.empty⟩ =
      .ok () ⟨st, Typist.fresh, Sheet.empty.put .clear⟩ := rfl
  unfold Session.boot Session.prompt homeSheet
  rw [bind_of_ok hclear, bind_of_ok (Session.print_apply _ _), bind_of_ok (Session.print_apply _ _),
    bind_of_ok (Session.print_apply _ _), bind_of_ok (Session.print_apply _ _),
    bind_of_ok (Session.print_apply _ _)]

/-- **`kernel_main`** prints what the session's start-up does. -/
theorem kernelMain_attends (hk : Loaded k)
    (hs : Kfs.memoryInit cfg.img pmmMaxBytes k.st = .ok () st) :
    Agree Attends Mirrors (Kernel.kernelMain cfg k)
      (Session.boot cfg ⟨k.st, Typist.fresh, Sheet.empty⟩) := by
  obtain ⟨k', hrun, hboot, -⟩ := kernelMain_boots cfg hk hs
  obtain ⟨c, hscreen, hc⟩ := screenInit_home k.shell.console
  obtain ⟨k₁, hk₁⟩ : ∃ k₁ : Kernel M, k₁ = { k with
    shell := { k.shell with console := c }
    ports := (0x64, 0xAE) :: k.ports } := ⟨_, rfl⟩
  obtain ⟨t, ports, hr₂, -⟩ := Kernel.interruptInit_ok cfg k₁
  obtain ⟨k₂, hk₂⟩ : ∃ k₂ : Kernel M, k₂ = { k₁ with intr := t, ports := ports ++ k₁.ports } :=
    ⟨_, rfl⟩
  rw [← hk₂] at hr₂
  have hstart : ∀ x : Ke M Unit, (onDisplay screenInit >>= fun _ => Kernel.keyboardInit >>= fun _ =>
      Kernel.interruptInit cfg >>= fun _ => x : Ke M Unit) k = x k₂ := by
    intro x
    have hinit :
        Kernel.keyboardInit { k with shell := { k.shell with console := c } } = .ok () k₁ := by
      rw [hk₁]
      rfl
    rw [bind_of_ok (onDisplay_of_ok hscreen), bind_of_ok hinit, bind_of_ok hr₂]
  have hat : MirrorsAt Typist.fresh k₂ ⟨k.st, Typist.fresh, homeSheet⟩ := by
    rw [hk₂, hk₁]
    exact ⟨⟨rfl, fun _ => hc⟩, rfl⟩
  have hafter : Agree (AtLine Editor.empty Typist.fresh) (MirrorsAt Typist.fresh)
      ((do Kernel.memoryInit cfg pmmMaxBytes; Kernel.shellInit : Ke M Unit) k₂)
      ((do
        (Cmd.memoryInit cfg.img pmmMaxBytes).run (CmdOp.told cfg)
        Session.print (bytesOf "KFS Debug Shell v1.0\n")
        Session.print (bytesOf "Type 'help' for available commands.\n\n")
        Session.prompt : Se M Unit) ⟨k.st, Typist.fresh, homeSheet⟩) := by
    refine (command_told cfg _ _ _ hat).bind fun _ k₃ ses h₃ => ?_
    refine (print_mirrors _ _ _ ⟨h₃.1.shell { k₃.shell with
      shellBuffer := fun j => if j < shellBufferSize then 0 else k₃.shell.shellBuffer j } rfl,
        h₃.2⟩).bind
        fun _ _ _ h₄ => ?_
    exact (print_mirrors _ _ _ h₄).bind fun _ _ _ h₅ => prompt_told h₅
  have hkernel :
      Kernel.kernelMain cfg k =
      (do Kernel.memoryInit cfg pmmMaxBytes; Kernel.shellInit : Ke M Unit) k₂ :=
    hstart _
  rw [hrun] at hkernel
  have hses : Session.boot cfg ⟨k.st, Typist.fresh, Sheet.empty⟩ = (do
      (Cmd.memoryInit cfg.img pmmMaxBytes).run (CmdOp.told cfg)
      Session.print (bytesOf "KFS Debug Shell v1.0\n")
      Session.print (bytesOf "Type 'help' for available commands.\n\n")
      Session.prompt : Se M Unit) ⟨k.st, Typist.fresh, homeSheet⟩ := Session.boot_home cfg k.st
  obtain ⟨_, k₄, ses, hk₄, hr₄, h⟩ | ⟨_, _, _, hk₄, -, -⟩ := hafter.inv
  · rw [← hkernel] at hk₄
    cases hk₄
    refine .of_ok hrun (hses.trans hr₄) ⟨h.st, ?_, fun hfit => ?_⟩
    · rw [h.typist]
      exact hboot.typed
    · rw [h.typist]
      exact h.editing hfit
  · rw [← hkernel] at hk₄
    cases hk₄

/-- **The transcript of a run.** Let the machine start on what the loader leaves, and let requests
come in then, at any lines, no function key among them. The machine stops if and only if the
session does, for the same reason. Its memory is the session's, and as long as no line was longer
than a row, its screen shows the end of the session's sheet: all that was printed from power-on,
by commands and panics too, and the line being typed behind the prompt. A command that follows a
stray pointer into the kernel's own memory, such as the screen's, stops both there. -/
theorem machine_transcript [Physical M] {st : State (Guarded M)}
    (p : Pc (Guarded M)) (rs : List Request) (hp : Loaded p.kernel)
    (hs : Kfs.memoryInit cfg.img pmmMaxBytes p.kernel.st = .ok () st)
    (hkeys : ∀ c ∈ scancodesOf rs, c ∉ functionKeys) :
    Agree (fun p ses => Attends p.kernel ses) (fun p ses => Mirrors p.kernel ses)
      ((Pc.boot cfg >>= fun _ => Pc.requests cfg rs : EStateM Stop (Pc (Guarded M)) Unit) p)
      ((Session.boot cfg >>= fun _ => Session.keys cfg (scancodesOf rs) : Se (Guarded M) Unit)
        ⟨p.kernel.st, Typist.fresh, Sheet.empty⟩) := by
  obtain ⟨p', hr, hready, -⟩ := Pc.boot_ok cfg hp hs
  obtain ⟨k, hk, -⟩ := kernelMain_boots cfg hp hs
  obtain ⟨ses, hses, hattends⟩ := (kernelMain_attends cfg hp hs).ok_left hk
  have hkernel : p'.kernel = k := by
    rw [Pc.boot, Pc.onKernel_of_ok hk] at hr
    cases hr
    rfl
  rw [← hkernel] at hattends
  rw [bind_of_ok hr, bind_of_ok hses]
  refine ((requests_typed cfg p' rs hready).trans
    (keys_attend cfg (scancodesOf rs) hattends hkeys)).mono ?_ ?_
  · rintro q ses' ⟨_, ⟨-, rfl⟩, h⟩
    exact h
  · rintro q ses' ⟨_, rfl, h⟩
    exact h

end Boot

/-- A timer's request, a key, and Enter. -/
theorem machine_transcript_key :
    Agree (fun p ses => Attends p.kernel ses) (fun p ses => Mirrors p.kernel ses)
      ((Pc.boot Setup.readme >>= fun _ => Pc.requests Setup.readme [⟨0, 0⟩, ⟨1, 0x19⟩, ⟨1, 0x1C⟩] :
        EStateM Stop (Pc (Guarded Mmu)) Unit)
          ⟨Kernel.blank (State.boot (Guarded.mk Mmu.blank)), picsReady, 0⟩)
      ((Session.boot Setup.readme >>= fun _ =>
        Session.keys Setup.readme (scancodesOf [⟨0, 0⟩, ⟨1, 0x19⟩, ⟨1, 0x1C⟩]) :
          Se (Guarded Mmu) Unit)
          ⟨State.boot (Guarded.mk Mmu.blank), Typist.fresh, Sheet.empty⟩) := by
  obtain ⟨s, hr⟩ := memoryInit_guarded Setup.readme.img (m := Mmu.blank) (by decide)
  exact machine_transcript Setup.readme
    ⟨Kernel.blank (State.boot (Guarded.mk Mmu.blank)), picsReady, 0⟩ _ ⟨rfl, rfl⟩ hr
    (by decide)

end Kfs
