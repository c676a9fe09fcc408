import Kfs.FrameRun
import Kfs.Irq
import Kfs.Keystrokes
import Kfs.MmuRun

/-!
# From power-on to the prompt (`kernel_main.c`, `memory.c`, `shell.c`)

`kernel_main` sets up the screens, the keyboard, the interrupts and the memory, prints
what it did, and waits at the shell's prompt. From then on all is done by interrupts.

`kernelMain_boots` says where it ends: the screens show empty lines, the driver's variables
are those of a typist who has pressed nothing, memory is as `memory_init` leaves it, and
the machine waits for the keyboard. `machine_runs` puts everything together: whatever
requests come in after that, memory ends as the typed lines leave it.
-/

namespace Kfs

open Kfs.Lib

variable {M : Type} [Bus M] (cfg : Setup)

/-! ## Start-up, with what it prints -/

namespace Cmd

section

omit [Bus M]

/-- `pmm_init` with its messages. -/
def pmmInit (memSizeBytes : Nat) : Cmd M Unit := do
  if memSizeBytes > pmmMaxBytes then
    kprintf "PMM: Memory size %d MB exceeds maximum %d MB, capping\n"
      [.num (memSizeBytes / (1024 * 1024)), .num (pmmMaxBytes / (1024 * 1024))]
  memory (Kfs.pmmInit memSizeBytes)
  let total ← memory pmmTotalPages
  let free ← memory pmmFreePages
  kprintf "PMM: total=%d pages (%d MB), free=%d pages (%d MB)\n"
    [.num total, .num (pagesMb total), .num free, .num (pagesMb free)]

end

def pagingInit (img : Image) : Cmd M Unit := do
  memory (Kfs.pagingInit img)
  kprintf "Paging structures initialized.\n" []

def pagingEnable : Cmd M Unit := do
  memory Kfs.pagingEnable
  kprintf "Paging enabled.\n" []

def kheapInit (img : Image) : Cmd M Unit := do
  memory (Kfs.kheapInit img)
  kprintf "Kernel heap initialized: %x-%x (%d MB)\n"
    [.num kheapStart, .num kheapEnd, .num (kheapSize / (1024 * 1024))]

def memoryInit (img : Image) (memBytes : Nat) : Cmd M Unit := do
  pmmInit memBytes
  pagingInit img
  pagingEnable
  kheapInit img
  kprintf "Memory subsystem initialized with vmalloc for user space.\n" []

end Cmd

/-! ## `kernel_main` -/

namespace Kernel

def onInterrupts {α : Type} (x : Setting α) : Ke M α := fun k =>
  match x k.intr with
  | .ok a t => .ok a { k with intr := t }
  | .error e t => .error (.trap e) { k with intr := t }

/-- `keyboard_init`; the loops that read the status port leave nothing behind. -/
def keyboardInit : Ke M Unit := onKeyboard (outb 0x64 0xAE)

def interruptInit : Ke M Unit := do
  onInterrupts (idtInit cfg.link)
  onKeyboard picInit
  modify fun k => { k with intr := { k.intr with enabled := true } }

def memoryInit (memBytes : Nat) : Ke M Unit := (Cmd.memoryInit cfg.img memBytes).run (CmdOp.act cfg)

def shellInit : Ke M Unit := do
  onShell (modify fun s => { s with
    shellBuffer := fun j => if j < shellBufferSize then 0 else s.shellBuffer j })
  onDisplay (kprintf "KFS Debug Shell v1.0\n")
  onDisplay (kprintf "Type 'help' for available commands.\n\n")
  onDisplay shellPrintPrompt

/-- `kernel_main`, up to where it waits for interrupts. -/
def kernelMain : Ke M Unit := do
  onDisplay screenInit
  keyboardInit
  interruptInit cfg
  memoryInit cfg pmmMaxBytes
  shellInit

end Kernel

def Pc.boot : EStateM Stop (Pc M) Unit := Pc.onKernel (Kernel.kernelMain cfg)

/-- What the loader leaves: no key is down. Screens, descriptor table and controllers may hold
anything. -/
structure Loaded (k : Kernel M) : Prop where
  keys : k.keys = ⟨0, 0, 0⟩
  extended : k.extended = 0

/-! ## The screens -/

/-- The first screen is shown, and no line has been typed on any. -/
def Console.Fresh (c : Console) : Prop := c.current = 0 ∧ ∀ a, LineAt 0 0 (c.states a)

section Fresh

variable {c c' : Console}

theorem Console.Fresh.touches {keep : ScreenState → ScreenState → Prop}
    (h : c.Fresh) (ht : Touches keep c c')
    (hk : ∀ s s', LineAt 0 0 s → keep s s' → LineAt 0 0 s') : c'.Fresh := by
  obtain ⟨hc, hl⟩ := h
  refine ⟨ht.current.trans hc, fun a => ?_⟩
  by_cases ha : a = c.current
  · rw [ha]
    exact hk _ _ (hl _) ht.keep
  · rw [ht.others a ha]
    exact hl a

theorem Console.Fresh.draws (h : c.Fresh) (ht : Touches SameText c c') : c'.Fresh :=
  h.touches ht fun _ _ hs hss => ⟨hss.2.1.trans hs.1, hss.2.2.trans hs.2⟩

theorem Console.Fresh.prompt (h : c.Fresh) (ht : Touches (fun _ s => LineAt 0 0 s) c c') :
    c'.Fresh :=
  h.touches ht fun _ _ _ hs => hs

end Fresh

/-! ## Memory -/

section Memory

variable {k : Kernel M} {s : State M}

/-- With its messages `memory_init` does to memory what it does without. -/
theorem memoryInit_effect (h : Kfs.memoryInit cfg.img pmmMaxBytes k.st = .ok () s) :
    (Cmd.memoryInit cfg.img pmmMaxBytes).run (CmdOp.effect cfg) k.st = .ok () s := by
  unfold Kfs.memoryInit at h
  obtain ⟨_, s₁, h₁, h⟩ := bind_eq_ok.mp h
  obtain ⟨_, s₂, h₂, h⟩ := bind_eq_ok.mp h
  obtain ⟨_, s₃, h₃, h₄⟩ := bind_eq_ok.mp h
  have hpmm : (Cmd.pmmInit pmmMaxBytes).run (CmdOp.effect cfg) k.st = .ok () s₁ := by
    unfold Cmd.pmmInit
    rw [if_neg (Nat.lt_irrefl _)]
    exact memory_bind_run cfg h₁
  have hpaging : (Cmd.pagingInit cfg.img).run (CmdOp.effect cfg) s₁ = .ok () s₂ :=
    memory_bind_run cfg h₂
  have henable : Cmd.pagingEnable.run (CmdOp.effect cfg) s₂ = .ok () s₃ := memory_bind_run cfg h₃
  have hheap : (Cmd.kheapInit cfg.img).run (CmdOp.effect cfg) s₃ = .ok () s :=
    memory_bind_run cfg h₄
  unfold Cmd.memoryInit
  rw [Program.run_bind, bind_of_ok hpmm, Program.run_bind, bind_of_ok hpaging, Program.run_bind,
    bind_of_ok henable, Program.run_bind, bind_of_ok hheap]
  rfl

theorem Kernel.memoryInit_ok (h : Kfs.memoryInit cfg.img pmmMaxBytes k.st = .ok () s) :
    ∃ k', Kernel.memoryInit cfg pmmMaxBytes k = .ok () k' ∧ Worked k k' s := by
  have hagree := command_effect cfg k (Cmd.memoryInit cfg.img pmmMaxBytes) k k.st (Worked.refl k)
  rw [memoryInit_effect cfg h] at hagree
  obtain ⟨_, k', t, hr, ht, hw⟩ | ⟨e, k', t, -, ht, -⟩ := hagree.inv
  · cases ht
    exact ⟨k', hr, hw⟩
  · cases ht

theorem Kernel.memoryInit_picsAlone :
    Keeps PicsAlone (Kernel.memoryInit (M := M) cfg pmmMaxBytes) := by
  refine Program.keeps picsAlone_frame (act_picsAlone cfg) ?_
  have hpmm : Cmd.OffPics (Cmd.pmmInit pmmMaxBytes : Cmd M Unit) := by
    unfold Cmd.pmmInit
    simp
  have hpaging : Cmd.OffPics (Cmd.pagingInit cfg.img : Cmd M Unit) := by
    unfold Cmd.pagingInit
    simp
  have henable : Cmd.OffPics (Cmd.pagingEnable : Cmd M Unit) := by
    unfold Cmd.pagingEnable
    simp
  have hheap : Cmd.OffPics (Cmd.kheapInit cfg.img : Cmd M Unit) := by
    unfold Cmd.kheapInit
    simp
  exact hpmm.bind fun _ => hpaging.bind fun _ => henable.bind fun _ => hheap.bind fun _ =>
    Cmd.kprintf_offPics _ _

end Memory

/-! ## `kernel_main` boots -/

/-- **Where `kernel_main` ends**: at the prompt, with memory `s`. -/
structure BootedTo (k : Kernel M) (s : State M) : Prop where
  st : k.st = s
  typed : TypedBy k.keyboard Typist.fresh
  idt : IdtReady cfg.link k.intr
  enabled : k.intr.enabled = true

section Boot

variable {k : Kernel M} {s : State M}

omit [Bus M] in
theorem Kernel.interruptInit_ok (k : Kernel M) : ∃ t ports, Kernel.interruptInit cfg k =
    .ok () { k with intr := t, ports := ports ++ k.ports } ∧ IdtReady cfg.link t ∧
    t.enabled = true ∧
      ∀ p : Pics, p.outs ports = picsReady := by
  obtain ⟨t, ht, hidt⟩ := idtInit_ok cfg.link k.intr
  have hr : onInterrupts (idtInit cfg.link) k = .ok () { k with intr := t } := by
    unfold onInterrupts
    rw [ht]
  obtain ⟨ports, hp, hready⟩ := picInit_ok ({ k with intr := t } : Kernel M).keyboard
  refine ⟨{ t with enabled := true }, ports, ?_, ⟨hidt.idtr, hidt.gate⟩, rfl, hready⟩
  unfold Kernel.interruptInit
  rw [bind_of_ok hr, bind_of_ok (onKeyboard_of_ok hp)]
  rfl

omit [Bus M] in
theorem onDisplay_of_ok {x : C Unit} {c : Console} (h : x k.shell.console = .ok () c) :
    onDisplay x k = .ok () { k with shell := { k.shell with console := c } } :=
  onShell_of_ok (onConsole_of_ok h)

omit [Bus M] in
theorem Kernel.shellInit_ok (hc : k.shell.console.Fresh) :
    ∃ sh, Kernel.shellInit k = .ok () { k with shell := sh } ∧ sh.console.Fresh := by
  obtain ⟨sh, hsh⟩ : ∃ sh : ShellState, sh = { k.shell with
    shellBuffer := fun j => if j < shellBufferSize then 0 else k.shell.shellBuffer j } := ⟨_, rfl⟩
  have hbuf : onShell (modify fun s : ShellState => { s with
      shellBuffer := fun j => if j < shellBufferSize then 0 else s.shellBuffer j }) k =
      .ok () { k with shell := sh } := by
    rw [hsh]
    rfl
  have hfresh : sh.console.Fresh := by
    rw [hsh]
    exact hc
  obtain ⟨_, c₁, hr₁, ht₁⟩ := screenPutstring_draws (bytesOf "KFS Debug Shell v1.0\n") sh.console
  obtain ⟨_, c₂, hr₂, ht₂⟩ :=
    screenPutstring_draws (bytesOf "Type 'help' for available commands.\n\n") c₁
  obtain ⟨c₃, hr₃, ht₃⟩ := prompt_ok c₂
  refine ⟨{ sh with console := c₃ }, ?_, ((hfresh.draws ht₁).draws ht₂).prompt ht₃⟩
  have h₁ : onDisplay (kprintf "KFS Debug Shell v1.0\n") { k with shell := sh } =
      .ok () { k with shell := { sh with console := c₁ } } := onDisplay_of_ok hr₁
  have h₂ : onDisplay (kprintf "Type 'help' for available commands.\n\n")
      { k with shell := { sh with console := c₁ } } =
        .ok () { k with shell := { sh with console := c₂ } } :=
    onDisplay_of_ok hr₂
  unfold Kernel.shellInit
  rw [bind_of_ok hbuf, bind_of_ok h₁, bind_of_ok h₂]
  exact onDisplay_of_ok hr₃

/-- **`kernel_main` boots**: from what the loader leaves it gets to the prompt, and the controllers
wait for the keyboard, whatever they did before. -/
theorem kernelMain_boots (hk : Loaded k) (hs : Kfs.memoryInit cfg.img pmmMaxBytes k.st = .ok () s) :
    ∃ k', Kernel.kernelMain cfg k = .ok () k' ∧ BootedTo cfg k' s ∧
      ∀ p : Pics, p.outs (k.written k') = picsReady := by
  obtain ⟨c, hscreen, hfresh⟩ := screenInit_empty k.shell.console
  -- the screens and the keyboard controller
  obtain ⟨k₁, hk₁⟩ : ∃ k₁ : Kernel M, k₁ = { k with
    shell := { k.shell with console := c }
    ports := (0x64, 0xAE) :: k.ports } := ⟨_, rfl⟩
  have hstart :
      ∀ x : Ke M Unit, (onDisplay screenInit >>= fun _ => Kernel.keyboardInit >>= fun _ =>
      x : Ke M Unit) k =
      x k₁ := by
    intro x
    rw [bind_of_ok (onDisplay_of_ok hscreen), hk₁]
    rfl
  -- the interrupts
  obtain ⟨t, ports, hr₂, hidt, hon, hready⟩ := Kernel.interruptInit_ok cfg k₁
  obtain ⟨k₂, hk₂⟩ : ∃ k₂ : Kernel M, k₂ = { k₁ with intr := t, ports := ports ++ k₁.ports } :=
    ⟨_, rfl⟩
  rw [← hk₂] at hr₂
  -- the memory
  have hst : k₂.st = k.st := by rw [hk₂, hk₁]
  rw [← hst] at hs
  obtain ⟨k₃, hr₃, hw⟩ := Kernel.memoryInit_ok cfg hs
  obtain ⟨hintr, new, hnew, hoff⟩ := Kernel.memoryInit_picsAlone cfg _ _ _ hr₃
  obtain ⟨out, hout⟩ := hw.out
  obtain ⟨_, c₃, hdraw, ht₃⟩ := runOut_draws out k₂.shell.console
  rw [hout] at hdraw
  cases hdraw
  have hfresh₂ : k₂.shell.console.Fresh := by
    rw [hk₂, hk₁]
    exact hfresh
  -- the shell
  obtain ⟨sh, hr₄, hsh⟩ := Kernel.shellInit_ok (k := k₃) (hfresh₂.draws ht₃)
  refine ⟨{ k₃ with shell := sh }, ?_, ⟨hw.st, ⟨?_, ?_, hsh.1, fun i => (hsh.2 i).shows⟩, ?_, ?_⟩,
    fun p => ?_⟩
  · unfold Kernel.kernelMain
    rw [hstart, bind_of_ok hr₂, bind_of_ok hr₃, hr₄]
  · show k₃.keys = _
    rw [hw.keys, hk₂, hk₁]
    exact hk.keys
  · show k₃.extended = _
    rw [hw.extended, hk₂, hk₁]
    exact hk.extended
  · show IdtReady cfg.link k₃.intr
    rw [hintr, hk₂]
    exact hidt
  · show k₃.intr.enabled = true
    rw [hintr, hk₂]
    exact hon
  · have hports : k₃.ports = (new ++ (ports ++ [(0x64, 0xAE)])) ++ k.ports := by
      rw [hnew, hk₂, hk₁, List.append_assoc, List.append_assoc]
      rfl
    have hwritten : k.written { k₃ with shell := sh } = new ++ (ports ++ [(0x64, 0xAE)]) := by
      unfold Kernel.written
      show k₃.ports.take (k₃.ports.length - k.ports.length) = _
      rw [hports, List.length_append, Nat.add_sub_cancel]
      exact List.take_left
    rw [hwritten, Pics.outs_append, Pics.outs_append, hready, Pics.outs_offPic _ _ hoff]

omit [Bus M] in
theorem Pc.onKernel_of_ok {p : Pc M} {x : Ke M Unit} (h : x p.kernel = .ok () k) : Pc.onKernel x p =
    .ok () { p with kernel := k, pics := p.pics.outs (p.kernel.written k) } := by
  unfold Pc.onKernel
  rw [h]

theorem Pc.boot_ok {p : Pc M} (hk : Loaded p.kernel)
    (hs : Kfs.memoryInit cfg.img pmmMaxBytes p.kernel.st = .ok () s) :
    ∃ p', Pc.boot cfg p = .ok () p' ∧ p'.Ready cfg ∧ BootedTo cfg p'.kernel s := by
  obtain ⟨k, hr, hat, hpics⟩ := kernelMain_boots cfg hk hs
  obtain ⟨p', hp'⟩ :
      ∃ p' : Pc M, p' = { p with kernel := k, pics := p.pics.outs (p.kernel.written k) } := ⟨_, rfl⟩
  have hkernel : p'.kernel = k := by rw [hp']
  have hready : p'.pics = picsReady := by
    rw [hp']
    exact hpics p.pics
  have hboot : Pc.boot cfg p = .ok () p' := by
    rw [hp']
    exact Pc.onKernel_of_ok hr
  rw [← hkernel] at hat
  exact ⟨p', hboot, ⟨hat.idt, hat.enabled, hready⟩, hat⟩

end Boot

end Kfs
