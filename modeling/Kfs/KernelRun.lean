import Kfs.Kernel

/-!
# What a command does to memory

A command's `effect` is the command with the printing taken out: a program on memory
alone, run under another action. The kernel with all its screens ends as the effect
does, with the same memory (`command_effect`), and whatever it did to the display is
some output (`Worked`). So does a whole line (`processInput_effect`): its effect is that
of the command that its first word names.
-/

namespace Kfs

open Kfs.Lib

variable {M : Type} [Bus M] (cfg : Setup)

/-! ## Effects -/

/-- Code on memory: its faults go to the handler, and its panics stop the machine. -/
def onState {α : Type} (x : K M α) : EStateM Stop (State M) α := fun s =>
  match handled cfg x s with
  | .ok a s => .ok a s
  | .error e s => .error (.trap e) s

def CmdOp.effect : ∀ α, CmdOp M α → EStateM Stop (State M) α
  | _, .print _ => pure ()
  | _, .clear => pure ()
  | _, .memory x => onState cfg x
  | _, .outb _ _ => pure ()
  | _, .stop s => throw s

/-- What the command that the words name does to memory. -/
def wordsEffect (ws : List (List (BitVec 8))) : EStateM Stop (State M) Unit :=
  match commandOf ws with
  | some cmd => (Cmd.function cfg.img cfg.build ws cmd).run (CmdOp.effect cfg)
  | none => pure ()

def lineWords (line : List (BitVec 8)) : List (List (BitVec 8)) :=
  (splitWords isBlank line).take (shellMaxArgs - 1)

/-- What a line does to memory. -/
def lineEffect (line : List (BitVec 8)) : EStateM Stop (State M) Unit :=
  if line.length = 0 ∨ shellBufferSize - 1 ≤ line.length then pure ()
  else wordsEffect cfg (lineWords line)

/-! ## The kernel at work -/

/-- From `k₀` to `k` the kernel has printed something, and its memory is `s`. -/
structure Worked (k₀ k : Kernel M) (s : State M) : Prop where
  st : k.st = s
  keys : k.keys = k₀.keys
  extended : k.extended = k₀.extended
  out : ∃ out, runOut out k₀.shell.console = .ok () k.shell.console

section Worked

variable {k₀ k : Kernel M} {s : State M} {α : Type}

omit [Bus M] in
theorem Worked.refl (k : Kernel M) : Worked k k k.st := ⟨rfl, rfl, rfl, [], rfl⟩

omit [Bus M] in
theorem Worked.trans {k₁ : Kernel M} {s₁ : State M} (h : Worked k₀ k₁ s₁) (h' : Worked k₁ k s) :
    Worked k₀ k s := by
  obtain ⟨o, ho⟩ := h.out
  obtain ⟨o', ho'⟩ := h'.out
  exact ⟨h'.st, h'.keys.trans h.keys, h'.extended.trans h.extended, o ++ o', by
    rw [runOut_append, bind_of_ok ho, ho']⟩

omit [Bus M] in
theorem Worked.shell (h : Worked k₀ k s) {t : ShellState} (ht : t.console = k.shell.console) :
    Worked k₀ { k with shell := t } s :=
  ⟨h.st, h.keys, h.extended, by rw [ht]; exact h.out⟩

omit [Bus M] in
theorem onShell_of_ok {x : Sh α} {a : α} {t : ShellState} (h : x k.shell = .ok a t) :
    onShell x k = .ok a { k with shell := t } := by
  unfold onShell
  rw [h]

omit [Bus M] in
/-- **Output** is some output more. -/
theorem Worked.display (h : Worked k₀ k s) {x : C Unit} {out : List Out} (hx : x = runOut out) :
    ∃ k', onDisplay x k = .ok () k' ∧ Worked k₀ k' s := by
  obtain ⟨_, c, hr, -⟩ := runOut_draws out k.shell.console
  subst hx
  exact ⟨{ k with shell := { k.shell with console := c } }, onShell_of_ok (onConsole_of_ok hr),
    h.trans ⟨h.st, rfl, rfl, out, hr⟩⟩

theorem runOut_clear : runOut [.clear] = screenClear := by
  show (screenClear >>= fun _ => pure ()) = screenClear
  exact bind_pure screenClear

omit [Bus M] in
theorem Worked.print (h : Worked k₀ k s) (text : List (BitVec 8)) :
    ∃ k', onDisplay (screenPutstring text) k = .ok () k' ∧ Worked k₀ k' s :=
  h.display (runOut_chars text).symm

omit [Bus M] in
theorem Worked.halt (h : Worked k₀ k s) (e : Trap) :
    ∃ k', (Kfs.halt e : Ke M α) k = .error (.trap e) k' ∧ Worked k₀ k' s := by
  obtain ⟨k', hr, hw⟩ := h.print e.message
  exact ⟨k', (bind_of_ok hr).trans rfl, hw⟩

/-- **Code on memory** ends as it does on memory alone. -/
theorem Worked.memory (h : Worked k₀ k s) (x : K M α) :
    Agree (Worked k₀) (Worked k₀) (inMemory cfg x k) (onState cfg x s) := by
  obtain rfl := h.st
  unfold inMemory onState
  cases handled cfg x k.st with
  | ok a t => exact .ok ⟨rfl, h.keys, h.extended, h.out⟩
  | error e t =>
    obtain ⟨k', hr, hw⟩ := (show Worked k₀ { k with st := t } t from
      ⟨rfl, h.keys, h.extended, h.out⟩).halt (α := α) e
    exact .of_error hr rfl hw

end Worked

/-! ## Commands -/

omit [Bus M] in
theorem display_sim (k₀ : Kernel M) {x : C Unit} {out : List Out} (hx : x = runOut out) :
    Sim (Worked k₀) (Worked k₀) (onDisplay x) (pure () : EStateM Stop (State M) Unit) := by
  intro k s h
  obtain ⟨k', hr, hw⟩ := h.display hx
  exact .of_ok hr rfl hw

theorem act_effect (k₀ : Kernel M) (α : Type) (e : CmdOp M α) :
    Sim (Worked k₀) (Worked k₀) (CmdOp.act cfg α e) (CmdOp.effect cfg α e) := by
  cases e with
  | print text => exact display_sim k₀ (runOut_chars text).symm
  | clear => exact display_sim k₀ runOut_clear.symm
  | memory x => exact fun k s h => h.memory cfg x
  | outb port val => exact fun k s h => .ok ⟨h.st, h.keys, h.extended, h.out⟩
  | stop t => exact fun k s h => .error h

/-- **A command** ends as its effect, whatever it prints in between. -/
theorem command_effect {α : Type} (k₀ : Kernel M) (x : Cmd M α) :
    Sim (Worked k₀) (Worked k₀) (x.run (CmdOp.act cfg)) (x.run (CmdOp.effect cfg)) :=
  Program.sim (act_effect cfg k₀) x

section Memory

variable {α β : Type} {x : K M α} {s s' : State M} {a : α}

theorem onState_of_ok (h : x s = .ok a s') : onState cfg x s = .ok a s' := by
  unfold onState handled
  rw [h]

theorem memory_run_of_ok (h : x s = .ok a s') :
    (Cmd.memory x).run (CmdOp.effect cfg) s = .ok a s' :=
  (congrFun (Program.run_single _ _) s).trans (onState_of_ok cfg h)

theorem memory_bind_run {f : α → Cmd M β} (h : x s = .ok a s') :
    (Cmd.memory x >>= f).run (CmdOp.effect cfg) s = (f a).run (CmdOp.effect cfg) s' := by
  rw [Program.run_bind]
  exact bind_of_ok (memory_run_of_ok cfg h)

end Memory

/-! ## Lines -/

theorem cString_stringAt {m : Mem} : ∀ {n a : Nat} {w : List (BitVec 8)}, StringAt m a w → 0 ∉ w →
    w.length ≤ n → cString m a n = w
  | 0, _, w, _, _, hn => (List.length_eq_zero_iff.mp (Nat.le_zero.mp hn)).symm
  | n + 1, a, [], h, _, _ => by
    have h0 : m a = 0 := h.nul
    unfold cString
    rw [if_pos h0]
  | n + 1, a, b :: w, h, h0, hn => by
    rw [List.mem_cons, not_or] at h0
    have hb : m a = b := h.head
    unfold cString
    rw [hb, if_neg (Ne.symm h0.1), cString_stringAt h.tail h0.2 (Nat.le_of_succ_le_succ hn)]

theorem Args.Are.words {args : Args} {ws : List (List (BitVec 8))} (h : args.Are ws)
    (h0 : ∀ w ∈ ws, (0 : BitVec 8) ∉ w) : args.words = ws := by
  apply List.ext_getElem?
  intro k
  unfold Args.words
  rw [List.getElem?_map, h.argc]
  by_cases hk : k < ws.length
  · have hw : ws[k]? = some ws[k] := List.getElem?_eq_getElem hk
    obtain ⟨a, ha, hlt, hat⟩ := h.argv k _ hw
    rw [List.getElem?_range hk, Option.map_some, ha, hw, Option.getD_some,
      cString_stringAt hat (h0 _ (List.getElem_mem hk)) (by omega)]
  · rw [List.getElem?_eq_none (by rw [List.length_range]; omega), List.getElem?_eq_none (by omega)]
    rfl

section Line

variable {k₀ k : Kernel M} {s : State M}

theorem Args.first_word {args : Args} {w : List (BitVec 8)} {ws : List (List (BitVec 8))}
    (h : args.words = w :: ws) :
    cString args.buffer ((args.argv 0).getD 0) shellBufferSize = w := by
  have hlen : args.argc = ws.length + 1 := by
    have := congrArg List.length h
    unfold Args.words at this
    rwa [List.length_map, List.length_range, List.length_cons] at this
  have hhead : args.words[0]? = some w := by rw [h, List.getElem?_cons_zero]
  unfold Args.words at hhead
  rw [List.getElem?_map, List.getElem?_range (by omega)] at hhead
  exact Option.some.inj hhead

/-- The command that the words name, with `args` as its arguments. -/
def Kernel.runWords (args : Args) : List (List (BitVec 8)) → Ke M Unit
  | [] => pure ()
  | w :: ws =>
    match commandOf (w :: ws) with
    | some cmd => do
      onDisplay (screenPutstring (bytesOf "Executing command: " ++ cmd.nameStr.bytes ++ [newline]))
      onShell (modify fun s => { s with calls := (cmd, args) :: s.calls })
      (Cmd.function cfg.img cfg.build (w :: ws) cmd).run (CmdOp.act cfg)
    | none => do
      onDisplay (screenPutstring (bytesOf "Unknown command: " ++ w ++ [newline]))
      onDisplay (screenPutstring (bytesOf "Type 'help' for available commands.\n"))

/-- `shell_execute_command` on a line in the shell's buffer: the words decide. -/
theorem Kernel.shellExecuteCommand_eq {str : CStr} (hL : str.length < shellBufferSize)
    (hs : StringAt k.shell.shellBuffer 0 str.bytes) :
    ∃ args, Kernel.shellExecuteCommand cfg loadShell k =
      Kernel.runWords cfg args (lineWords str.bytes)
        { k with shell := { k.shell with args := args } } := by
  obtain ⟨args, hparse, hare, hno⟩ := shellParseArgs_ok hL hs
  have hwords := hare.words hno
  obtain ⟨k₁, hk₁⟩ : ∃ k₁ : Kernel M, k₁ = { k with shell := { k.shell with args := args } } :=
    ⟨_, rfl⟩
  have hargs : k₁.shell.args = args := by rw [hk₁]
  refine ⟨args, ?_⟩
  show _ = Kernel.runWords cfg args (argWords str) _
  unfold Kernel.shellExecuteCommand
  rw [bind_of_ok (onShell_of_ok hparse), get_bind_apply, ← hk₁, hargs]
  cases hws : argWords str with
  | nil =>
    have h0 : args.argc = 0 := by
      rw [hare.argc, hws]
      rfl
    rw [if_neg (not_not.mpr h0)]
    rfl
  | cons w ws =>
    rw [hws] at hare hno hwords
    obtain ⟨word, rfl, hlen, hread⟩ := hare.first (hno w List.mem_cons_self) hargs
    have hne : args.argc ≠ 0 := by
      rw [hare.argc]
      exact Nat.succ_ne_zero _
    have hfind := findCommand_apply hread hlen ShellCommand.table
    rw [if_pos hne, bind_of_ok (onShell_of_ok hfind), hwords, Args.first_word hwords]
    show ((match commandOf (word.bytes :: ws) with | some cmd => _ | none => _ : Ke M Unit) k₁) = _
    unfold Kernel.runWords
    dsimp only
    cases commandOf (word.bytes :: ws) <;> rfl

/-- What `shell_process_input` does before the prompt. -/
def Kernel.runLine (args : Args) (line : List (BitVec 8)) : Ke M Unit :=
  if line.length = 0 then pure ()
  else if shellBufferSize - 1 ≤ line.length then onDisplay
    (screenPutstring (bytesOf "Command too long!\n"))
  else Kernel.runWords cfg args (lineWords line)

theorem Kernel.shellProcessInput_eq (input : CStr) : ∃ args sh, sh.console = k.shell.console ∧
    Kernel.shellProcessInput cfg input k =
      (Kernel.runLine cfg args input.bytes >>= fun _ => onDisplay shellPrintPrompt : Ke M Unit)
        { k with shell := sh } := by
  have hlen : onShell (strlen .outOfFuel (loadChar input) addressSpace) k = .ok input.length k :=
    onShell_of_ok (strlenLine_ok input k.shell)
  have hbytes : input.bytes.length = input.length := rfl
  unfold Kernel.shellProcessInput
  rw [bind_of_ok hlen]
  by_cases h0 : input.length = 0
  · refine ⟨k.shell.args, k.shell, rfl, ?_⟩
    rw [Kernel.runLine, hbytes, if_pos h0, if_pos h0]
    rfl
  rw [if_neg h0]
  by_cases hL : input.length < shellBufferSize - 1
  · obtain ⟨m, hcopy, hm⟩ := copyLine_ok input
      (by simp only [shellBufferSize] at hL ⊢; omega) k.shell
    obtain ⟨args, hexec⟩ := Kernel.shellExecuteCommand_eq cfg
      (k := { k with shell := { k.shell with shellBuffer := m } })
      (show input.length < shellBufferSize by simp only [shellBufferSize] at hL ⊢; omega) hm
    have hcopied : onShell (strcpy .outOfFuel storeShell (loadChar input) addressSpace) k =
        .ok () { k with shell := { k.shell with shellBuffer := m } } := onShell_of_ok hcopy
    refine ⟨args, { k.shell with shellBuffer := m, args := args }, rfl, ?_⟩
    rw [Kernel.runLine, hbytes, if_neg h0, if_pos hL, if_neg (Nat.not_le.mpr hL)]
    exact (bind_of_ok hcopied).trans (bind_congr_at hexec)
  · refine ⟨k.shell.args, k.shell, rfl, ?_⟩
    rw [Kernel.runLine, hbytes, if_neg h0, if_neg hL, if_pos (Nat.not_lt.mp hL)]
    rfl

/-- **The words** decide the command, and it ends as its effect. -/
theorem runWords_effect (h : Worked k₀ k s) (args : Args) (ws : List (List (BitVec 8))) :
    Agree (Worked k₀) (Worked k₀) (Kernel.runWords cfg args ws k) (wordsEffect cfg ws s) := by
  unfold wordsEffect Kernel.runWords
  cases ws with
  | nil => exact .ok h
  | cons w ws =>
    dsimp only
    cases commandOf (w :: ws) with
    | none =>
      obtain ⟨k₂, hr₂, h₂⟩ := h.print (bytesOf "Unknown command: " ++ w ++ [newline])
      obtain ⟨k₃, hr₃, h₃⟩ := h₂.print (bytesOf "Type 'help' for available commands.\n")
      exact .of_ok ((bind_of_ok hr₂).trans hr₃) rfl h₃
    | some cmd =>
      obtain ⟨k₂, hr₂, h₂⟩ :=
        h.print (bytesOf "Executing command: " ++ cmd.nameStr.bytes ++ [newline])
      dsimp only
      rw [bind_of_ok hr₂]
      exact command_effect cfg k₀ _ _ s (h₂.shell rfl)

omit [Bus M] in
theorem onDisplay_prompt (k : Kernel M) : ∃ k', onDisplay shellPrintPrompt k = .ok () k' := by
  obtain ⟨c, hr⟩ := onConsole_prompt k.shell
  exact ⟨_, onShell_of_ok hr⟩

/-- The kernel has printed its prompt. -/
def Prompted (k₀ k : Kernel M) (s : State M) : Prop :=
  ∃ k₁, Worked k₀ k₁ s ∧ onDisplay shellPrintPrompt k₁ = .ok () k

omit [Bus M] in
theorem Worked.prompt (h : Worked k₀ k s) :
    ∃ k', onDisplay shellPrintPrompt k = .ok () k' ∧ Prompted k₀ k' s := by
  obtain ⟨k', hp⟩ := onDisplay_prompt k
  exact ⟨k', hp, k, h, hp⟩

omit [Bus M] in
theorem prompt_agree {x : Ke M Unit} {y : EStateM Stop (State M) Unit}
    (h : Agree (Worked k₀) (Worked k₀) (x k) (y s)) :
    Agree (Prompted k₀) (Worked k₀) ((x >>= fun _ => onDisplay shellPrintPrompt) k) (y s) := by
  rw [← bind_pure y]
  refine h.bind fun _ k₁ s₁ h₁ => ?_
  obtain ⟨k₂, hp, hk₂⟩ := h₁.prompt
  exact .of_ok hp rfl hk₂

/-- **Processing a line** ends as its effect. -/
theorem processInput_effect (input : CStr) (h : Worked k₀ k s) :
    Agree (Prompted k₀) (Worked k₀) (Kernel.shellProcessInput cfg input k)
      (lineEffect cfg input.bytes s) := by
  obtain ⟨args, sh, hcon, hrun⟩ := Kernel.shellProcessInput_eq cfg input (k := k)
  have h₁ : Worked k₀ { k with shell := sh } s := h.shell hcon
  rw [hrun]
  apply prompt_agree
  unfold Kernel.runLine lineEffect
  by_cases h0 : input.bytes.length = 0
  · rw [if_pos h0, if_pos (.inl h0)]
    exact .ok h₁
  rw [if_neg h0]
  by_cases hL : shellBufferSize - 1 ≤ input.bytes.length
  · obtain ⟨k₁, hr, hw⟩ := h₁.print (bytesOf "Command too long!\n")
    rw [if_pos hL, if_pos (.inr hL)]
    exact .of_ok hr rfl hw
  · rw [if_neg hL, if_neg (not_or.mpr ⟨h0, hL⟩)]
    exact runWords_effect cfg h₁ args _

end Line

end Kfs
