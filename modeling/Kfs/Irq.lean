import Kfs.KernelKeys

/-!
# The kernel under its interrupts

`Pc` is the kernel with the interrupt controllers. A request goes through them and
through the descriptor table to a handler; the ports that the handler writes to come
back to the controllers. Once `interrupt_init` has run, every scancode gets to
`keyboard_handler` exactly once, no other request gets anywhere, and after each the
controllers are ready for the next one, whatever command the scancode started
(`requests_typed`). For that no command may write to a controller (`function_offPics`).

A handler runs with interrupts off, so requests come one after the other here: one that
comes in early waits in its controller.
-/

namespace Kfs

open Kfs.Lib

variable {M : Type} [Bus M] (cfg : Setup)

/-! ## Commands and ports -/

/-- The port is none of the interrupt controllers'. -/
def OffPic (port : Nat) : Prop :=
  port ≠ pic1Command ∧ port ≠ pic1Data ∧ port ≠ pic2Command ∧ port ≠ pic2Data

instance (port : Nat) : Decidable (OffPic port) := inferInstanceAs (Decidable (_ ∧ _))

/-- The operation leaves the interrupt controllers alone. -/
def CmdOp.OffPics : ∀ α, CmdOp M α → Prop
  | _, .outb port _ => OffPic port
  | _, _ => True

namespace Cmd

abbrev OffPics {α : Type} (x : Cmd M α) : Prop := x.All CmdOp.OffPics

section

omit [Bus M]

variable {α β : Type}

@[simp] theorem kprintf_offPics (fmt : String) (args : List PrintArg) :
    OffPics (kprintf fmt args : Cmd M Unit) :=
  ⟨trivial, fun _ => trivial⟩

@[simp] theorem kprintf_then_offPics (fmt : String) (args : List PrintArg) (f : Unit → Cmd M α) :
    OffPics (kprintf fmt args >>= f) ↔ OffPics (f ()) :=
  ⟨fun h => h.2 (), fun h => ⟨trivial, fun _ => h⟩⟩

@[simp] theorem kprints_offPics : ∀ texts : List String, OffPics (kprints texts : Cmd M Unit)
  | [] => trivial
  | _ :: texts => ⟨trivial, fun _ => kprints_offPics texts⟩

@[simp] theorem kprints_then_offPics (f : Unit → Cmd M α) : ∀ texts : List String,
    OffPics (kprints texts >>= f) ↔ OffPics (f ())
  | [] => Iff.rfl
  | _ :: texts => ⟨fun h => (kprints_then_offPics f texts).mp (h.2 ()),
      fun h => ⟨trivial, fun _ => (kprints_then_offPics f texts).mpr h⟩⟩

@[simp] theorem outb_then_offPics (port : Nat) (val : BitVec 8) (f : Unit → Cmd M α) :
    OffPics (outb port val >>= f) ↔ OffPic port ∧ OffPics (f ()) :=
  ⟨fun h => ⟨h.1, h.2 ()⟩, fun h => ⟨h.1, fun _ => h.2⟩⟩

@[simp] theorem stop_offPics (e : Stop) : OffPics (stop e : Cmd M Unit) :=
  ⟨trivial, fun _ => trivial⟩

theorem discard_offPics (x : K M α) : OffPics (discard (memory x)) := ⟨trivial, fun _ => trivial⟩

theorem discard_then_offPics {x : K M α} {f : Unit → Cmd M β} (hf : OffPics (f ())) :
    OffPics (discard (memory x) >>= f) := ⟨trivial, fun _ => hf⟩

@[simp] theorem memory_offPics (x : K M α) : OffPics (memory x) := ⟨trivial, fun _ => trivial⟩

@[simp] theorem memory_then_offPics (x : K M α) (f : α → Cmd M β) :
    OffPics (memory x >>= f) ↔ ∀ a, OffPics (f a) := ⟨fun h => h.2, fun h => ⟨trivial, h⟩⟩

theorem echoWords_offPics : ∀ ws : List (List (BitVec 8)), OffPics (echoWords ws : Cmd M Unit)
  | [] => trivial
  | w :: ws => by
    have hws : OffPics (echoWords ws : Cmd M Unit) := echoWords_offPics ws
    unfold echoWords
    simp [hws]

@[simp] theorem cmdPmminfo_offPics : OffPics (cmdPmminfo : Cmd M Unit) := by
  unfold cmdPmminfo
  simp

end

@[simp] theorem ksize_offPics (p : Nat) : OffPics (ksize p : Cmd M Nat) := by
  unfold ksize
  simp

@[simp] theorem vsize_offPics (p : Nat) : OffPics (vsize p : Cmd M Nat) := by
  unfold vsize
  simp

theorem allocSize_offPics (a : Nat) : OffPics (allocSize a : Cmd M (AllocType × Nat)) := by
  unfold allocSize
  simp only [Program.all_ite]
  exact ⟨fun _ => (ksize_offPics a).bind fun _ => trivial, fun _ =>
    ⟨fun _ => (vsize_offPics a).bind fun _ => trivial, fun _ =>
      ⟨fun _ => (vsize_offPics a).bind fun _ => trivial, fun _ => trivial⟩⟩⟩

omit [Bus M] in
theorem sizeTest_offPics {name sizeName : String} {alloc size : Nat → Cmd M Nat}
    {free : Nat → Cmd M Unit} {n : Nat}
    (ha : OffPics (alloc n)) (hs : ∀ p, OffPics (size p)) (hf : ∀ p, OffPics (free p)) :
    OffPics (sizeTest name sizeName alloc size free n) := by
  refine ha.bind fun p => (kprintf_then_offPics _ _ _).mpr ((hs p).bind fun s => ?_)
  exact (kprintf_then_offPics _ _ _).mpr (cmdPmminfo_offPics.bind fun _ => hf p)

theorem allocTest_offPics {test alloc size free : String} {allocFn sizeFn : Nat → Cmd M Nat}
    {freeFn : Nat → Cmd M Unit} {argv : List (List (BitVec 8))} (ha : ∀ n, OffPics (allocFn n))
    (hs : ∀ p, OffPics (sizeFn p)) (hf : ∀ p, OffPics (freeFn p)) :
    OffPics (allocTest test alloc size free allocFn sizeFn freeFn argv) := by
  refine Program.all_ite.mpr ⟨fun _ => by simp, fun _ => (ha _).bind fun p => Program.all_ite.mpr
    ⟨fun _ => by simp, fun _ => ?_⟩⟩
  simp only [kprintf_then_offPics, memory_then_offPics]
  exact fun _ _ => (hs p).bind fun _ => by
    simp only [kprintf_then_offPics]
    exact (hf p).bind fun _ => kprintf_offPics _ _

/-- **No command** writes to an interrupt controller. -/
theorem function_offPics (img : Image) (build : Build) (argv : List (List (BitVec 8)))
    (cmd : ShellCommand) :
    OffPics (function img build argv cmd : Cmd M Unit) := by
  cases cmd with
  | help => unfold function cmdHelp; simp
  | clear => exact ⟨trivial, fun _ => trivial⟩
  | echo => exact (echoWords_offPics _).bind fun _ => kprintf_offPics _ _
  | reboot => unfold function cmdReboot; simp; decide
  | halt => unfold function cmdHalt; simp
  | gdt => unfold function cmdGdtInfo; simp
  | version => unfold function cmdVersion; simp
  | shutdown =>
    have hports : OffPics (outw 0x604 0x2000 : Cmd M Unit) :=
      ⟨show OffPic 0x604 by decide, fun _ => ⟨show OffPic 0x605 by decide, fun _ => trivial⟩⟩
    unfold function cmdShutdown
    simp only [kprints_then_offPics]
    exact hports.bind fun _ => by simp
  | meminfo => exact (kprintf_then_offPics _ _ _).mpr (cmdPmminfo_offPics.bind fun _ => by simp)
  | kmalloc => unfold function cmdKmalloc; simp
  | kfree => unfold function cmdKfree; simp
  | ksize =>
    exact Program.all_ite.mpr ⟨fun _ => by simp, fun _ => (ksize_offPics _).bind fun _ => by simp⟩
  | kbrk => unfold function cmdKbrk; simp
  | vmalloc => unfold function cmdVmalloc; simp
  | vfree => unfold function cmdVfree; simp
  | vsize =>
    exact Program.all_ite.mpr ⟨fun _ => by simp, fun _ => (vsize_offPics _).bind fun _ => by simp⟩
  | vbrk => unfold function cmdVbrk; simp
  | vget => unfold function cmdVget; simp
  | present => unfold function cmdPresent; simp [discard_offPics]
  | pageops => unfold function cmdPageOps; simp
  | kmalloctest =>
    refine cmdPmminfo_offPics.bind fun _ => Program.All.bind
      (sizeTest_offPics ?_ ksize_offPics ?_) fun _ =>
      sizeTest_offPics ?_ ksize_offPics ?_
    all_goals simp
  | vmalloctest =>
    refine cmdPmminfo_offPics.bind fun _ => Program.All.bind
      (sizeTest_offPics ?_ vsize_offPics ?_) fun _ =>
      sizeTest_offPics ?_ vsize_offPics ?_
    all_goals simp
  | ktest =>
    unfold function cmdKtest
    exact allocTest_offPics (fun _ => memory_offPics _) ksize_offPics fun _ => memory_offPics _
  | vtest =>
    unfold function cmdVtest
    exact allocTest_offPics (fun _ => memory_offPics _) vsize_offPics fun _ => memory_offPics _
  | write =>
    refine Program.all_ite.mpr
      ⟨fun _ => by simp, fun _ => Program.all_ite.mpr ⟨fun _ => by simp, fun _ =>
      Program.all_ite.mpr ⟨fun _ => (memory_then_offPics _ _).mpr fun _ => ?_, fun _ => ?_⟩⟩⟩
    all_goals exact (allocSize_offPics _).bind fun ⟨type, size⟩ => by simp
  | read =>
    refine Program.all_ite.mpr ⟨fun _ => by simp, fun _ => ?_⟩
    exact (allocSize_offPics _).bind fun ⟨type, size⟩ => by simp
  | rotest => unfold function cmdRotest; simp
  | pftest => exact (kprints_then_offPics _ _).mpr (discard_then_offPics (kprintf_offPics _ _))
  | pftest2 => exact (kprints_then_offPics _ _).mpr (discard_then_offPics (kprints_offPics _))
  | panictest => unfold function cmdPanicTest; simp [discard_offPics]

end Cmd

/-! ## The kernel and the controllers -/

/-- The kernel has left the interrupt controllers and the descriptor table alone. -/
structure PicsAlone (k k' : Kernel M) : Prop where
  intr : k'.intr = k.intr
  ports : ∃ new, k'.ports = new ++ k.ports ∧ ∀ w ∈ new, OffPic w.1

omit [Bus M] in
theorem picsAlone_frame : Frame (PicsAlone (M := M)) where
  refl k := ⟨rfl, [], rfl, fun w hw => absurd hw List.not_mem_nil⟩
  trans := by
    rintro k₁ k₂ k₃ ⟨hi, new, hp, hn⟩ ⟨hi', new', hp', hn'⟩
    refine ⟨hi'.trans hi, new' ++ new, by rw [hp', hp, List.append_assoc], fun w hw => ?_⟩
    rcases List.mem_append.mp hw with hw | hw
    · exact hn' w hw
    · exact hn w hw

/-- Code that writes to no port at all. -/
def SamePorts (b b' : Keyboard) : Prop := b'.ports = b.ports

theorem samePorts_frame : Frame SamePorts where
  refl _ := rfl
  trans h h' := Eq.trans h' h

section Driver

variable {α : Type}

theorem onScreen_samePorts (x : C α) : Keeps SamePorts (onScreen x) := by
  intro b a b' h
  unfold onScreen at h
  split at h
  · cases h
    rfl
  · cases h

theorem scancodeToAscii_samePorts (scancode : BitVec 8) :
    Keeps SamePorts (scancodeToAscii scancode) := by
  refine .bind samePorts_frame (.get samePorts_frame) fun b => ?_
  dsimp only
  split
  · exact .ite (.pure samePorts_frame _) (.ite (.pure samePorts_frame _) (.pure samePorts_frame _))
  · exact .throw _

theorem setKeys_samePorts (f : KeyboardState → KeyboardState) : Keeps SamePorts (setKeys f) :=
  .modify fun _ => rfl

theorem functionKey_samePorts (withCtrl : String) (alone : C Unit) :
    Keeps SamePorts (functionKey withCtrl alone) :=
  .bind samePorts_frame (.get samePorts_frame) fun _ =>
    .ite (onScreen_samePorts _) (onScreen_samePorts _)

theorem typeKey_samePorts (scancode : BitVec 8) (out : List Out) :
    Keeps SamePorts (typeKey scancode out) :=
  .bind samePorts_frame (scancodeToAscii_samePorts scancode) fun _ =>
    .ite (onScreen_samePorts _) (.ite (onScreen_samePorts _) (onScreen_samePorts _))

theorem keyPress_samePorts (scancode : BitVec 8) (out : List Out) :
    Keeps SamePorts (keyPress scancode out) := by
  unfold keyPress
  iterate 3 refine .ite (setKeys_samePorts _) ?_
  iterate 10 refine .ite (functionKey_samePorts _ _) ?_
  exact typeKey_samePorts scancode out

theorem extendedPress_samePorts (scancode : BitVec 8) : Keeps SamePorts (extendedPress scancode) :=
  .ite (onScreen_samePorts _) (.ite (onScreen_samePorts _) (.pure samePorts_frame _))

theorem keyRelease_samePorts (scancode : BitVec 8) : Keeps SamePorts (keyRelease scancode) :=
  .ite (setKeys_samePorts _) (.ite (setKeys_samePorts _) (.pure samePorts_frame _))

omit [Bus M] in
theorem onKeyboard_picsAlone {x : Kb α} (hx : Keeps SamePorts x) :
    Keeps PicsAlone (onKeyboard x : Ke M α) := by
  intro k a k' h
  unfold onKeyboard at h
  split at h
  · next b hb =>
    cases h
    exact ⟨rfl, [], hx _ _ _ hb, fun w hw => absurd hw List.not_mem_nil⟩
  · cases h

omit [Bus M] in
theorem onShell_picsAlone (x : Sh α) : Keeps PicsAlone (onShell x : Ke M α) := by
  intro k a k' h
  unfold onShell at h
  split at h
  · cases h
    exact ⟨rfl, [], rfl, fun w hw => absurd hw List.not_mem_nil⟩
  · cases h

omit [Bus M] in
theorem onDisplay_picsAlone (x : C α) : Keeps PicsAlone (onDisplay x : Ke M α) :=
  onShell_picsAlone _

theorem inMemory_picsAlone (x : K M α) : Keeps PicsAlone (inMemory cfg x) := by
  intro k a k' h
  unfold inMemory at h
  split at h
  · cases h
    exact ⟨rfl, [], rfl, fun w hw => absurd hw List.not_mem_nil⟩
  · obtain ⟨_, t, -, h⟩ := bind_eq_ok.mp h
    cases h

end Driver

theorem act_picsAlone (α : Type) (e : CmdOp M α) (he : e.OffPics) :
    Keeps PicsAlone (CmdOp.act cfg α e) := by
  cases e with
  | print text => exact onDisplay_picsAlone _
  | clear => exact onDisplay_picsAlone _
  | memory x => exact inMemory_picsAlone cfg x
  | outb port val =>
    refine .modify fun k => ⟨rfl, [(port, val)], rfl, fun w hw => ?_⟩
    rw [List.mem_singleton.mp hw]
    exact he
  | stop s => exact .throw s

namespace Kernel

theorem shellExecuteCommand_picsAlone (commandLine : Nat → Sh (BitVec 8)) :
    Keeps PicsAlone (shellExecuteCommand (M := M) cfg commandLine) := by
  have hF : Frame (PicsAlone (M := M)) := picsAlone_frame
  refine .bind hF (onShell_picsAlone _) fun _ => .bind hF (.get hF) fun k => .ite ?_ (.pure hF ())
  refine .bind hF (onShell_picsAlone _) fun found => ?_
  cases found with
  | none => exact .bind hF (onDisplay_picsAlone _) fun _ => onDisplay_picsAlone _
  | some cmd =>
    exact .bind hF (onDisplay_picsAlone _) fun _ => .bind hF (onShell_picsAlone _) fun _ =>
      Program.keeps hF (act_picsAlone cfg) (Cmd.function_offPics _ _ _ cmd)

theorem shellProcessInput_picsAlone (input : CStr) :
    Keeps PicsAlone (shellProcessInput (M := M) cfg input) := by
  have hF : Frame (PicsAlone (M := M)) := picsAlone_frame
  refine .bind hF (onShell_picsAlone _) fun len => .ite (onDisplay_picsAlone _) (.ite ?_ ?_)
  · exact .bind hF (onShell_picsAlone _) fun _ =>
      .bind hF (shellExecuteCommand_picsAlone cfg _) fun _ => onDisplay_picsAlone _
  · exact .bind hF (onDisplay_picsAlone _) fun _ => onDisplay_picsAlone _

theorem inputNewline_picsAlone : Keeps PicsAlone (inputNewline (M := M) cfg) := by
  have hF : Frame (PicsAlone (M := M)) := picsAlone_frame
  refine .bind hF (onDisplay_picsAlone _) fun _ => .bind hF (onDisplay_picsAlone _) fun _ =>
    .bind hF (onDisplay_picsAlone _) fun s => .ite ?_ ?_
  · exact .bind hF (shellProcessInput_picsAlone cfg _) fun _ => onDisplay_picsAlone _
  · exact .bind hF (onDisplay_picsAlone _) fun _ => onDisplay_picsAlone _

theorem keyPress_picsAlone (scancode : BitVec 8) :
    Keeps PicsAlone (keyPress (M := M) cfg scancode) := by
  have hF : Frame (PicsAlone (M := M)) := picsAlone_frame
  refine .ite (onKeyboard_picsAlone (keyPress_samePorts _ _)) ?_
  exact .bind hF (onKeyboard_picsAlone (scancodeToAscii_samePorts _)) fun c =>
    .ite (onDisplay_picsAlone _) (.ite (inputNewline_picsAlone cfg) (onDisplay_picsAlone _))

end Kernel

/-! ### The handler -/

/-- **What the handler writes to the controllers**: that the request has ended, once. -/
structure Ended (k k' : Kernel M) : Prop where
  intr : k'.intr = k.intr
  ports : ∃ new, k'.ports = (pic1Command, 0x20) :: (pic2Command, 0x20) :: new ++ k.ports ∧
    ∀ w ∈ new, OffPic w.1

omit [Bus M] in
theorem PicsAlone.eoi {k k' : Kernel M} (h : PicsAlone k k') (v : BitVec 8) :
    Ended k { k' with
      ports := (pic1Command, 0x20) :: (pic2Command, 0x20) :: k'.ports, extended := v } := by
  obtain ⟨hi, new, hp, hn⟩ := h
  exact ⟨hi, new, by rw [hp]; rfl, hn⟩

/-- Whichever way the handler takes, it says once that the request has ended. -/
theorem Kernel.keyboardHandler_ended {k k' : Kernel M} {scancode : BitVec 8}
    (h : Kernel.keyboardHandler cfg scancode k = .ok () k') : Ended k k' := by
  have hF : Frame (PicsAlone (M := M)) := picsAlone_frame
  -- a part, the end of the request, and the flag
  have hpart : ∀ {x : Ke M Unit}, Keeps PicsAlone x →
      (x >>= fun _ => onKeyboard (picSendEoi irq1) >>= fun _ =>
        onKeyboard (setExtended 0) : Ke M Unit) k = .ok () k' →
      Ended k k' := by
    intro x hx hr
    obtain ⟨_, k₁, h₁, h₂⟩ := bind_eq_ok.mp hr
    cases h₂
    exact (hx _ _ _ h₁).eoi 0
  unfold Kernel.keyboardHandler at h
  by_cases hpre : scancode = extendedPrefix
  · rw [if_pos hpre] at h
    cases h
    exact (hF.refl k).eoi 1
  rw [if_neg hpre] at h
  by_cases hs : scancode &&& 0x80 = 0
  · rw [if_pos hs, get_bind_apply] at h
    by_cases he : k.extended ≠ 0
    · rw [if_pos he] at h
      obtain ⟨_, k₁, h₁, h₂⟩ := bind_eq_ok.mp h
      cases h₂
      exact (onKeyboard_picsAlone (extendedPress_samePorts scancode) _ _ _ h₁).eoi 0
    · rw [if_neg he] at h
      exact hpart (Kernel.keyPress_picsAlone cfg scancode) h
  · rw [if_neg hs] at h
    exact hpart (onKeyboard_picsAlone (keyRelease_samePorts scancode)) h

/-! ## The machine -/

/-- The kernel with the interrupt controllers, and the address of the last page fault. -/
structure Pc (M : Type) where
  kernel : Kernel M
  pics : Pics
  cr2 : Nat

/-- A request at one of the sixteen lines; `scancode` is what port `0x60` holds. -/
structure Request where
  line : Fin 16
  scancode : BitVec 8
  deriving DecidableEq

def keyboardLine : Fin 16 := 1

/-- What runs at the address that a gate holds. Without a gate the processor resets. -/
def Pc.handler (p : Pc M) (scancode : BitVec 8) (addr : Option (BitVec 32)) : Ke M Unit :=
  if addr = some cfg.link.keyboardHandlerAsm then Kernel.keyboardHandler cfg scancode
  else if addr = some cfg.link.pageFaultHandlerAsm
    then inMemory cfg (pageFaultHandler cfg p.cr2 cfg.errorCode)
  else throw .reset

/-- The writes to ports between two states, the latest first. -/
def Kernel.written (k k' : Kernel M) : List (Nat × BitVec 8) :=
  k'.ports.take (k'.ports.length - k.ports.length)

/-- The kernel runs, and what it writes to the controllers' ports reaches them. -/
def Pc.onKernel (x : Ke M Unit) : EStateM Stop (Pc M) Unit := fun p =>
  match x p.kernel with
  | .ok () k => .ok () { p with kernel := k, pics := p.pics.outs (p.kernel.written k) }
  | .error e k => .error e { p with kernel := k, pics := p.pics.outs (p.kernel.written k) }

def Pc.request (r : Request) : EStateM Stop (Pc M) Unit := do
  let p ← get
  match if p.kernel.intr.enabled then p.pics.raise r.line else none with
  | none => pure ()
  | some (n, pics) =>
    set { p with pics := pics }
    Pc.onKernel (p.handler cfg r.scancode (p.kernel.intr.vector cfg.link n.toFin))

/-- Requests, each served before the next. -/
def Pc.requests : List Request → EStateM Stop (Pc M) Unit
  | [] => pure ()
  | r :: rs => do
    Pc.request cfg r
    Pc.requests rs

/-- The scancodes of the keyboard's requests. -/
def scancodesOf (rs : List Request) : List (BitVec 8) :=
  (rs.filter fun r => r.line = keyboardLine).map Request.scancode

theorem scancodesOf_keyboard {r : Request} (h : r.line = keyboardLine) (rs : List Request) :
    scancodesOf (r :: rs) = r.scancode :: scancodesOf rs := by
  simp [scancodesOf, h]

theorem scancodesOf_other {r : Request} (h : r.line ≠ keyboardLine) (rs : List Request) :
    scancodesOf (r :: rs) = scancodesOf rs := by
  simp [scancodesOf, h]

/-- **The machine waits for the keyboard**: as `interrupt_init` leaves it. -/
structure Pc.Ready (p : Pc M) : Prop where
  idt : IdtReady cfg.link p.kernel.intr
  enabled : p.kernel.intr.enabled = true
  pics : p.pics = picsReady

section Machine

variable {p : Pc M} {r : Request}

theorem Pics.outs_offPic (p : Pics) : ∀ ports : List (Nat × BitVec 8), (∀ w ∈ ports, OffPic w.1) →
    p.outs ports = p
  | [], _ => rfl
  | w :: ports, h => by
    obtain ⟨h₁, h₂, h₃, h₄⟩ := h w List.mem_cons_self
    show (p.outs ports).outb w = p
    rw [Pics.outs_offPic p ports fun w hw => h w (List.mem_cons_of_mem _ hw)]
    unfold Pics.outb
    rw [if_neg h₁, if_neg h₂, if_neg h₃, if_neg h₄]

theorem served_ended : ({ picsReady with master := picsReady.master.serve 1 } : Pics).outs
    [(pic1Command, 0x20), (pic2Command, 0x20)] = picsReady := by
  decide

omit [Bus M] in
theorem Ended.pics {k k' : Kernel M} (h : Ended k k') :
    ({ picsReady with master := picsReady.master.serve 1 } : Pics).outs (k.written k') =
      picsReady := by
  obtain ⟨-, new, hp, hn⟩ := h
  have hwritten : k.written k' = [(pic1Command, 0x20), (pic2Command, 0x20)] ++ new := by
    unfold Kernel.written
    rw [hp, List.length_append, Nat.add_sub_cancel]
    exact List.take_left
  rw [hwritten, Pics.outs_append, Pics.outs_offPic _ _ hn]
  exact served_ended

theorem Pc.Ready.other (h : p.Ready cfg) (hr : r.line ≠ keyboardLine) :
    p.request cfg r = .ok () p := by
  unfold Pc.request
  rw [get_bind_apply, h.enabled, if_pos rfl, h.pics, raise_ready,
    if_neg (show ¬ r.line = 1 from hr)]
  rfl

/-- The machine has become this kernel, and waits for the keyboard. -/
def ServedAs (p : Pc M) (k : Kernel M) : Prop := p.Ready cfg ∧ p.kernel = k

/-- The machine stopped in this kernel. -/
def StoppedIn (p : Pc M) (k : Kernel M) : Prop := p.kernel = k

/-- **The keyboard's request** is the handler, and then the machine waits again. -/
theorem Pc.Ready.keyboard (h : p.Ready cfg) (hr : r.line = keyboardLine) :
    Agree (ServedAs cfg) StoppedIn (Pc.request cfg r p)
      (Kernel.keyboardHandler cfg r.scancode p.kernel) := by
  have hvector : p.kernel.intr.vector cfg.link (BitVec.ofNat 8 irq1).toFin =
    some cfg.link.keyboardHandlerAsm := by
    rw [h.idt.vector]
    rfl
  have hhandler : p.handler cfg r.scancode (some cfg.link.keyboardHandlerAsm) =
      Kernel.keyboardHandler cfg r.scancode := if_pos rfl
  have hrun : Pc.request cfg r p = Pc.onKernel (Kernel.keyboardHandler cfg r.scancode)
      { p with pics := { picsReady with master := picsReady.master.serve 1 } } := by
    unfold Pc.request
    rw [get_bind_apply, h.enabled, if_pos rfl, h.pics, raise_ready,
      if_pos (show r.line = 1 from hr)]
    dsimp only
    rw [hvector, hhandler]
    rfl
  rw [hrun]
  unfold Pc.onKernel
  dsimp only
  cases hk : Kernel.keyboardHandler cfg r.scancode p.kernel with
  | ok _ k =>
    have hended : Ended p.kernel k := Kernel.keyboardHandler_ended cfg hk
    refine .ok ⟨⟨?_, ?_, hended.pics⟩, rfl⟩
    · show IdtReady cfg.link k.intr
      rw [hended.intr]
      exact h.idt
    · show k.intr.enabled = true
      rw [hended.intr]
      exact h.enabled
  | error e k => exact .error rfl

/-- **Requests type.** Let requests come in at any of the sixteen lines, in any order, at a machine
that `interrupt_init` left. Then the kernel is as if the scancodes of the keyboard's requests had
been typed, each once and in their order: whatever commands they start, the controllers never
stay blocked, none is lost or served twice, and no other request gets anywhere. -/
theorem requests_typed (p : Pc M) (rs : List Request) (h : p.Ready cfg) :
    Agree (ServedAs cfg) StoppedIn (Pc.requests cfg rs p)
      (Kernel.typeCodes cfg (scancodesOf rs) p.kernel) := by
  induction rs generalizing p with
  | nil => exact .ok ⟨h, rfl⟩
  | cons r rs ih =>
    rw [Pc.requests]
    by_cases hr : r.line = keyboardLine
    · rw [scancodesOf_keyboard hr, Kernel.typeCodes]
      refine (h.keyboard cfg hr).bind fun _ p' k' h' => ?_
      obtain ⟨hready, rfl⟩ := h'
      exact ih p' hready
    · rw [scancodesOf_other hr, bind_of_ok (h.other cfg hr)]
      exact ih p h

end Machine

end Kfs
