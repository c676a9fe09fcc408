import Kfs.FrameOwner
import Kfs.Keystrokes

/-!
# Every command keeps the frames

What a command does to memory is a program of calls into the allocators and the page
tables. Each call keeps the frames accounted for, and so do the page tests as a whole
(`command_framesKept`). So the kernel does at every scancode: in every state it gets
to, each frame in use has exactly one owner, and none is lost (`kernel_frames`).

All this is over `Flat`, whose page tables are a store of their own. A command's pointer
that goes astray writes to data memory there, and not over a table.
-/

namespace Kfs

open Kfs.Lib

/-! ## Effects -/

section Effect

variable {M : Type} [Bus M] (cfg : Setup) {α β : Type}

theorem onState_ok {x : K M α} {s s' : State M} {a : α} (h : onState cfg x s = .ok a s') :
    x s = .ok a s' := by
  unfold onState handled at h
  cases hx : x s with
  | ok b t =>
    rw [hx] at h
    cases h
    rfl
  | error e t =>
    rw [hx] at h
    cases e with
    | pageFault f =>
      dsimp only at h
      split at h
      · next hh =>
        split at hh <;> cases hh
      · cases h
    | panic => cases h
    | outOfBounds => cases h
    | strayAccess => cases h
    | outOfFuel => cases h

theorem memory_run {x : K M α} {s s' : State M} {a : α}
    (h : (Cmd.memory x).run (CmdOp.effect cfg) s = .ok a s') : x s = .ok a s' := by
  change (Program.single (CmdOp.memory x) : Cmd M α).run (CmdOp.effect cfg) s = _ at h
  rw [Program.run_single] at h
  exact onState_ok cfg h

theorem memory_then {x : K M α} {f : α → Cmd M β} {s s' : State M} {b : β}
    (h : (Cmd.memory x >>= f).run (CmdOp.effect cfg) s = .ok b s') :
    ∃ a s₁, x s = .ok a s₁ ∧ (f a).run (CmdOp.effect cfg) s₁ = .ok b s' := by
  rw [Program.run_bind] at h
  obtain ⟨a, s₁, hx, hf⟩ := bind_eq_ok.mp h
  exact ⟨a, s₁, memory_run cfg hx, hf⟩

theorem say_then {fmt : String} {args : List PrintArg} {f : Unit → Cmd M β} {s : State M} :
    (Cmd.kprintf fmt args >>= f).run (CmdOp.effect cfg) s = (f ()).run (CmdOp.effect cfg) s := rfl

theorem kprints_run (s : State M) : ∀ texts : List String,
    (Cmd.kprints texts : Cmd M Unit).run (CmdOp.effect cfg) s = .ok () s
  | [] => rfl
  | _ :: texts => kprints_run s texts

theorem says_then {texts : List String} {f : Unit → Cmd M β} {s : State M} :
    (Cmd.kprints texts >>= f).run (CmdOp.effect cfg) s = (f ()).run (CmdOp.effect cfg) s := by
  rw [Program.run_bind, bind_of_ok (kprints_run cfg s texts)]

/-- Where the command goes on, it has kept `F`. -/
def CmdKeeps (F : State M → State M → Prop) (x : Cmd M α) : Prop :=
  Keeps F (x.run (CmdOp.effect cfg))

variable {cfg} {F : State M → State M → Prop} (hF : Frame F)
include hF

theorem CmdKeeps.pure (a : α) : CmdKeeps cfg F (Pure.pure a : Cmd M α) := Keeps.pure hF a

theorem CmdKeeps.bind {x : Cmd M α} {f : α → Cmd M β} (hx : CmdKeeps cfg F x)
    (hf : ∀ a, CmdKeeps cfg F (f a)) :
    CmdKeeps cfg F (x >>= f) := by
  unfold CmdKeeps
  rw [Program.run_bind]
  exact Keeps.bind hF hx hf

theorem CmdKeeps.print (fmt : String) (args : List PrintArg) :
    CmdKeeps cfg F (Cmd.kprintf fmt args : Cmd M Unit) :=
  Keeps.pure hF ()

theorem CmdKeeps.prints : ∀ texts : List String, CmdKeeps cfg F (Cmd.kprints texts : Cmd M Unit)
  | [] => .pure hF _
  | text :: texts => .bind hF (.print hF text []) fun _ => CmdKeeps.prints texts

omit hF in
theorem CmdKeeps.ite {c : Prop} [Decidable c] {x y : Cmd M α}
    (hx : CmdKeeps cfg F x) (hy : CmdKeeps cfg F y) :
    CmdKeeps cfg F (if c then x else y) := by
  split
  · exact hx
  · exact hy

omit hF in
theorem CmdKeeps.memory {x : K M α} (hx : Keeps F x) : CmdKeeps cfg F (Cmd.memory x) := by
  intro s a s' hr
  exact hx s a s' (memory_run cfg hr)

omit hF in
theorem CmdKeeps.stop (e : Stop) : CmdKeeps cfg F (Cmd.stop e : Cmd M Unit) := by
  intro s a s' hr
  cases hr

theorem CmdKeeps.outb (port : Nat) (val : BitVec 8) :
    CmdKeeps cfg F (Cmd.outb port val : Cmd M Unit) :=
  Keeps.pure hF ()

end Effect

/-! ## Calls of the commands -/

section Calls

theorem sameTables_get : Keeps SameTables (get : K Flat (State Flat)) := .get sameTables_frame

theorem kbrk_sameTables (a : Nat) : Keeps SameTables (kbrk a : K Flat Nat) := by
  refine .bind sameTables_frame sameTables_get fun _ => .ite (.pure sameTables_frame _)
    (.ite (.pure sameTables_frame _) ?_)
  exact .bind sameTables_frame (setHeapUsed_sameTables _) fun _ => .pure sameTables_frame _

theorem listWalk_sameTables (link blk : Nat) {a b : Bool} (n cur : Nat) :
    Keeps SameTables (iterate .outOfFuel (fun cur => do
      if cur = 0 then return .inr a
      if cur = blk then return .inr b
      return .inl (← ld (cur + link))) n cur : K Flat Bool) := by
  refine .iterate sameTables_frame
    (fun cur => .ite (.pure sameTables_frame _) (.ite (.pure sameTables_frame _) ?_))
    _ _
  exact ldThen fun _ => .pure sameTables_frame _

theorem isValidKheapBlock_sameTables (blk : Nat) :
    Keeps SameTables (isValidKheapBlock blk : K Flat Bool) := by
  refine .bind sameTables_frame sameTables_get fun _ => .ite (.pure sameTables_frame _)
    (.ite (.pure sameTables_frame _) ?_)
  exact listWalk_sameTables 12 blk _ _

theorem isValidAllocatedBlock_sameTables (blk : Nat) :
    Keeps SameTables (isValidAllocatedBlock blk : K Flat Bool) := by
  refine .bind sameTables_frame sameTables_get fun _ => .ite (.pure sameTables_frame _)
    (.ite (.pure sameTables_frame _) ?_)
  exact listWalk_sameTables 16 blk _ _

theorem vmmGetMapping_sameTables (img : Image) (v : Nat) :
    Keeps SameTables (vmmGetMapping img v : K Flat Nat) := by
  have hld : ∀ a, Keeps SameTables (ldTable a : K Flat Nat) := by
    rintro a s u s' h
    cases h
    exact sameTables_frame.refl s
  have hpte : Keeps SameTables (virtToPte img v false : K Flat Nat) := by
    unfold virtToPte
    simp only [Bool.not_false, ↓reduceIte]
    exact .bind sameTables_frame (hld _) fun _ => .ite (.pure sameTables_frame _)
      (.pure sameTables_frame _)
  exact .bind sameTables_frame hpte fun _ => .ite (.pure sameTables_frame _) (hld _)

end Calls

/-! ## Commands -/

section Commands

variable {cfg : Setup}

def FramesKept (cfg : Setup) {α : Type} (x : Cmd Flat α) : Prop :=
  CmdKeeps cfg (KeepsFrames cfg.img) x

variable {α β : Type}

theorem FramesKept.pure (a : α) : FramesKept cfg (Pure.pure a) := CmdKeeps.pure keepsFrames_frame a

theorem FramesKept.bind {x : Cmd Flat α} {f : α → Cmd Flat β} (hx : FramesKept cfg x)
    (hf : ∀ a, FramesKept cfg (f a)) : FramesKept cfg (x >>= f) :=
  CmdKeeps.bind keepsFrames_frame hx hf

theorem FramesKept.ite {c : Prop} [Decidable c] {x y : Cmd Flat α}
    (hx : FramesKept cfg x) (hy : FramesKept cfg y) :
    FramesKept cfg (if c then x else y) := CmdKeeps.ite hx hy

theorem FramesKept.say (fmt : String) (args : List PrintArg) :
    FramesKept cfg (Cmd.kprintf fmt args) :=
  CmdKeeps.print keepsFrames_frame fmt args

theorem FramesKept.sayThen {fmt : String} {args : List PrintArg} {f : Unit → Cmd Flat α}
    (hf : ∀ u, FramesKept cfg (f u)) : FramesKept cfg (Cmd.kprintf fmt args >>= f) :=
  .bind (.say fmt args) hf

theorem FramesKept.texts (texts : List String) : FramesKept cfg (Cmd.kprints texts) :=
  CmdKeeps.prints keepsFrames_frame texts

theorem FramesKept.textsThen {texts : List String} {f : Unit → Cmd Flat α}
    (hf : ∀ u, FramesKept cfg (f u)) :
    FramesKept cfg (Cmd.kprints texts >>= f) := .bind (.texts texts) hf

theorem FramesKept.outbThen {port : Nat} {val : BitVec 8} {f : Unit → Cmd Flat α}
    (hf : ∀ u, FramesKept cfg (f u)) :
    FramesKept cfg (Cmd.outb port val >>= f) := .bind (CmdKeeps.outb keepsFrames_frame port val) hf

theorem FramesKept.same {x : K Flat α} (h : Keeps SameTables x) : FramesKept cfg (Cmd.memory x) :=
  CmdKeeps.memory (keepsFrames_of_sameTables h)

theorem FramesKept.sameThen {x : K Flat α} {f : α → Cmd Flat β} (h : Keeps SameTables x)
    (hf : ∀ a, FramesKept cfg (f a)) : FramesKept cfg (Cmd.memory x >>= f) := .bind (.same h) hf

theorem FramesKept.panic {fmt : String} {args : List Nat} {f : α → Cmd Flat β} :
    FramesKept cfg (Cmd.memory (kpanicFatal fmt args) >>= f) := by
  intro s a s' hr
  cases hr

theorem field_sameTables (f : State Flat → α) : Keeps SameTables (do return f (← get) : K Flat α) :=
  .bind sameTables_frame sameTables_get fun _ => .pure sameTables_frame _

theorem ksize_framesKept (p : Nat) : FramesKept cfg (Cmd.ksize p) := by
  refine .ite (.pure 0) (.sameThen (field_sameTables fun s => s.kheap) fun _ =>
    .ite (.sayThen fun _ => .pure 0)
    (.sameThen (ld_sameTables _) fun _ => .ite (.sayThen fun _ => .pure 0)
      (.sameThen (isValidKheapBlock_sameTables _) fun _ => .ite (.sayThen fun _ => .pure 0) ?_)))
  exact .same (ld_sameTables _)

theorem vsize_framesKept (p : Nat) : FramesKept cfg (Cmd.vsize p) := by
  refine .ite (.pure 0) (.sameThen (field_sameTables fun s => s.vmem) fun _ =>
    .ite (.sayThen fun _ => .pure 0)
    (.sameThen (ld_sameTables _) fun _ => .ite (.sayThen fun _ => .pure 0)
      (.sameThen (isValidAllocatedBlock_sameTables _) fun _ =>
        .ite (.sayThen fun _ => .pure 0) ?_)))
  exact .same (ld_sameTables _)

theorem allocSize_framesKept (a : Nat) : FramesKept cfg (Cmd.allocSize a) := by
  refine .ite (.bind (ksize_framesKept a) fun _ => .pure _)
    (.ite (.bind (vsize_framesKept a) fun _ => .pure _)
    (.ite (.bind (vsize_framesKept a) fun _ => .pure _) (.pure _)))

theorem pmminfo_framesKept : FramesKept cfg Cmd.cmdPmminfo :=
  .sameThen (field_sameTables fun s => s.pmm.totalPages) fun _ =>
    .sameThen (field_sameTables fun s => s.pmm.freePages) fun _ =>
      .sayThen fun _ => .sayThen fun _ => .say _ _

theorem echoWords_framesKept : ∀ ws : List (List (BitVec 8)), FramesKept cfg (Cmd.echoWords ws)
  | [] => .pure ()
  | _ :: ws =>
    .sayThen fun _ => .ite (.sayThen fun _ => echoWords_framesKept ws) (echoWords_framesKept ws)

theorem allocTest_framesKept {test alloc size free : String} {allocFn sizeFn : Nat → Cmd Flat Nat}
    {freeFn : Nat → Cmd Flat Unit} {argv : List (List (BitVec 8))}
    (halloc : FramesKept cfg (allocFn (Cmd.parseArg argv 1)))
    (hsize : ∀ p, FramesKept cfg (sizeFn p)) (hfree : ∀ p, FramesKept cfg (freeFn p)) :
    FramesKept cfg (Cmd.allocTest test alloc size free allocFn sizeFn freeFn argv) := by
  refine .ite (.sayThen fun _ => .pure ()) (.bind halloc fun p => .ite (.sayThen fun _ => .pure ())
    (.sayThen fun _ => .sayThen fun _ => .sameThen (st_sameTables _ _) fun _ =>
      .sameThen (ld_sameTables _) fun _ =>
      .sayThen fun _ => .bind (hsize p) fun _ => .sayThen fun _ => .sayThen fun _ =>
        .bind (hfree p) fun _ => .say _ _))

theorem sizeTest_framesKept {name sizeName : String} {alloc size : Nat → Cmd Flat Nat}
    {free : Nat → Cmd Flat Unit} {n : Nat} (halloc : FramesKept cfg (alloc n))
    (hsize : ∀ p, FramesKept cfg (size p)) (hfree : ∀ p, FramesKept cfg (free p)) :
    FramesKept cfg (Cmd.sizeTest name sizeName alloc size free n) :=
  .bind halloc fun p => .sayThen fun _ => .bind (hsize p) fun _ => .sayThen fun _ =>
    .bind pmminfo_framesKept fun _ => hfree p

theorem kmalloc_framesKept (n : Nat) : FramesKept cfg (Cmd.memory (kmalloc n)) :=
  .same (kmalloc_sameTables n)

theorem kfree_framesKept (p : Nat) : FramesKept cfg (Cmd.memory (kfree p)) :=
  .same (kfree_sameTables p)

theorem vmalloc_framesKept {n : Nat} (hn : n ≤ vmallocSafe) :
    FramesKept cfg (Cmd.memory (vmalloc cfg.img n)) :=
  CmdKeeps.memory (vmalloc_keepsFrames hn)

theorem vfree_framesKept (p : Nat) : FramesKept cfg (Cmd.memory (vfree p)) :=
  .same (vfree_sameTables p)

theorem vbrk_framesKept (a : Nat) : FramesKept cfg (Cmd.memory (vbrk cfg.img a)) :=
  CmdKeeps.memory (vbrk_keepsFrames a)

/-! ### Page tests -/

/-- Frame `k` is on loan, and the region ends at `e`. -/
def OnLoan (img : Image) (e k : Nat) (s : State Flat) : Prop :=
  Lent img s e k ∧ s.vmem.vmemCurrent = e

theorem lend_onLoan {img : Image} {s s' : State Flat} {phys : Nat}
    (h : FramesOwned img s s.vmem.vmemCurrent) (hr : pmmAllocPage s = .ok phys s') :
    ∃ k, phys = pmmStart + k * pageSize ∧ phys ≠ 0 ∧ OnLoan img s.vmem.vmemCurrent k s' := by
  obtain ⟨k, hphys, hl, hv⟩ := h.lend hr
  exact ⟨k, hphys, by rw [hphys]; simp, hl, by rw [hv]⟩

section OnLoan

variable {img : Image} {e k : Nat} {s s' : State Flat} (h : OnLoan img e k s)
include h

theorem OnLoan.same (hs : SameTables s s') : OnLoan img e k s' := by
  obtain ⟨⟨⟨hf, hlt, hu, hge, hback, htab, hcount⟩, htot, hown⟩, hv⟩ := h
  obtain ⟨h1, h2, h3⟩ := hs
  refine ⟨⟨⟨hf.congr h1 h2, ?_, ?_, hge, ?_, ?_, ?_⟩, ?_, ?_⟩, by rw [h3, hv]⟩
    <;> simp only [h1, h2] <;> assumption

theorem OnLoan.map {v phys flags : Nat} {r : Int} (hlo : 0xC00000 ≤ v) (hv : v < 2 ^ 32)
    (hr : vmmMapPage img v phys flags s = .ok r s') : r = 0 ∧ OnLoan img e k s' := by
  obtain ⟨hr, hl, hvm⟩ := h.1.map hlo hv hr
  exact ⟨hr, hl, by rw [hvm, h.2]⟩

theorem OnLoan.unmap {v : Nat} {u : Unit} (hlo : 0xC00000 ≤ v) (hv : v < 2 ^ 32)
    (hr : vmmUnmapPage img v s = .ok u s') : OnLoan img e k s' := by
  obtain ⟨hl, hvm⟩ := h.1.unmap hlo hv hr
  exact ⟨hl, by rw [hvm, h.2]⟩

theorem OnLoan.free {u : Unit} (hr : pmmFreePage (pmmStart + k * pageSize) s = .ok u s') :
    FramesOwned img s' s'.vmem.vmemCurrent := by
  obtain ⟨hf, hvm⟩ := h.1.free hr
  rw [hvm, h.2]
  exact hf

end OnLoan

/-- **A page test**: a frame is taken and mapped past the regions, there is some code
that leaves tables and frames alone, then the page is unmapped and the frame given back. -/
theorem cmdPageOps_framesKept : FramesKept cfg (Cmd.cmdPageOps cfg.img) := by
  intro s _ s' hr h
  unfold Cmd.cmdPageOps at hr
  rw [say_then] at hr
  obtain ⟨phys, s₁, halloc, hr⟩ := memory_then cfg hr
  obtain ⟨k, hk, hne, h₁⟩ := lend_onLoan h halloc
  rw [if_neg hne] at hr
  obtain ⟨r, s₂, hmap, hr⟩ := memory_then cfg hr
  obtain ⟨rfl, h₂⟩ := h₁.map (by decide) (by decide) hmap
  rw [if_neg (by decide)] at hr
  obtain ⟨_, s₃, hst, hr⟩ := memory_then cfg hr
  obtain ⟨_, s₄, hld, hr⟩ := memory_then cfg hr
  rw [say_then] at hr
  obtain ⟨_, s₅, hget, hr⟩ := memory_then cfg hr
  rw [say_then] at hr
  obtain ⟨_, s₆, hunmap, hr⟩ := memory_then cfg hr
  obtain ⟨_, s₇, hafter, hr⟩ := memory_then cfg hr
  rw [say_then] at hr
  have h₅ := ((h₂.same (st_sameTables _ _ _ _ _ hst)).same (ld_sameTables _ _ _ _ hld)).same
    (vmmGetMapping_sameTables _ _ _ _ _ hget)
  have h₆ := h₅.unmap (by decide) (by decide) hunmap
  have h₇ := h₆.same (vmmGetMapping_sameTables _ _ _ _ _ hafter)
  rw [hk] at hr
  exact h₇.free (memory_run cfg hr)

/-- With two frames free the page test returns. -/
theorem cmdPageOps_returns {s : State Flat} (h : FramesOwned cfg.img s s.vmem.vmemCurrent)
    (hfree : 2 ≤ s.pmm.freePages) :
    ∃ s', (Cmd.cmdPageOps cfg.img).run (CmdOp.effect cfg) s = .ok () s' := by
  have hpmm := h.paging.pmm
  obtain ⟨phys, s₁, halloc, hfree₁⟩ : ∃ phys s₁, pmmAllocPage s = .ok phys s₁ ∧
    1 ≤ s₁.pmm.freePages := by
    rcases pmmAllocPage_spec hpmm with ⟨i, hi, hb, -, he⟩ | ⟨hall, -⟩
    · exact ⟨_, _, he, Nat.le_sub_one_of_lt hfree⟩
    · obtain ⟨j, hj, hb⟩ := hpmm.exists_clear (by omega)
      rw [hall j hj] at hb
      cases hb
  obtain ⟨k, hk, hne, h₁⟩ := lend_onLoan h halloc
  have hpaging := h₁.1.frames.paging
  obtain ⟨j, hj, hbj⟩ := hpaging.pmm.exists_clear hfree₁
  obtain ⟨s₂, hmap, -⟩ :=
    vmmMapPage_returns hpaging phys pageWrite (v := 0x10000000) (by decide) hj hbj
  obtain ⟨-, h₂⟩ := h₁.map (by decide) (by decide) hmap
  obtain ⟨s₃, hs₃⟩ : ∃ s₃, s₃ = s₂.setData (store32 s₂.mem.data 0x10000000 0x12345678) := ⟨_, rfl⟩
  have hst : st 0x10000000 0x12345678 s₂ = .ok () s₃ := hs₃ ▸ st_flat (by decide) _ _
  have h₃ := h₂.same (st_sameTables _ _ _ _ _ hst)
  obtain ⟨t, hunmap, hinv₄, -⟩ := vmmUnmapPage_spec h₃.1.frames.paging (v := 0x10000000) (by decide)
  have h₄ := h₃.unmap (by decide) (by decide) hunmap
  obtain ⟨s₅, hgive⟩ : ∃ s₅, pmmFreePage phys (s₃.setTable t) = .ok () s₅ := by
    rw [hk]
    exact ⟨_, pmmFreePage_used h₄.1.frames.paging.pmm h₄.1.lt h₄.1.used⟩
  unfold Cmd.cmdPageOps
  refine ⟨s₅, ?_⟩
  rw [say_then, memory_bind_run cfg halloc, if_neg hne, memory_bind_run cfg hmap,
    if_neg (by decide),
    memory_bind_run cfg hst, memory_bind_run cfg (ld_flat (by decide) s₃), say_then,
    memory_bind_run cfg (vmmGetMapping_spec h₃.1.frames.paging (by decide)), say_then,
    memory_bind_run cfg hunmap, memory_bind_run cfg (vmmGetMapping_spec hinv₄ (by decide)),
    say_then]
  exact memory_run_of_ok cfg hgive

theorem cmdPresent_framesKept : FramesKept cfg (Cmd.cmdPresent cfg.img) := by
  intro s _ s' hr h
  unfold Cmd.cmdPresent at hr
  rw [say_then] at hr
  obtain ⟨phys, s₁, halloc, hr⟩ := memory_then cfg hr
  obtain ⟨k, hk, hne, h₁⟩ := lend_onLoan h halloc
  rw [if_neg hne] at hr
  obtain ⟨r, s₂, hmap, hr⟩ := memory_then cfg hr
  obtain ⟨rfl, h₂⟩ := h₁.map (by decide) (by decide) hmap
  rw [if_neg (by decide)] at hr
  obtain ⟨_, s₃, hst, hr⟩ := memory_then cfg hr
  rw [say_then, say_then] at hr
  obtain ⟨_, s₄, hunmap, hr⟩ := memory_then cfg hr
  obtain ⟨_, s₅, hfree, hr⟩ := memory_then cfg hr
  have h₄ := (h₂.same (st_sameTables _ _ _ _ _ hst)).unmap (by decide) (by decide) hunmap
  rw [hk] at hfree
  -- from here on nothing changes the tables
  have hrest : FramesKept cfg (do
      Cmd.kprintf "unmapped\n" []
      Cmd.kprintf "flushing TLB...\n" []
      let mapping ← Cmd.memory (vmmGetMapping cfg.img 0x50000000)
      Cmd.kprintf "mapping check: %x -> %x (should be 0)\n" [.num 0x50000000, .num mapping]
      Cmd.kprintf "about to access unmapped address; expect panic/page fault...\n" []
      discard (Cmd.memory (ld 0x50000000))) :=
    .sayThen fun _ => .sayThen fun _ => .sameThen (vmmGetMapping_sameTables _ _) fun _ =>
      .sayThen fun _ =>
      .sayThen fun _ => .sameThen (ld_sameTables _) fun _ => .pure _
  exact hrest _ _ _ hr (h₄.free hfree)

theorem cmdRotest_framesKept : FramesKept cfg (Cmd.cmdRotest cfg.img) := by
  intro s _ s' hr h
  unfold Cmd.cmdRotest at hr
  rw [say_then] at hr
  obtain ⟨phys, s₁, halloc, hr⟩ := memory_then cfg hr
  obtain ⟨k, hk, hne, h₁⟩ := lend_onLoan h halloc
  rw [if_neg hne, say_then] at hr
  obtain ⟨r, s₂, hmap, hr⟩ := memory_then cfg hr
  obtain ⟨rfl, h₂⟩ := h₁.map (by decide) (by decide) hmap
  rw [if_neg (by decide), say_then] at hr
  obtain ⟨_, s₃, hld, hr⟩ := memory_then cfg hr
  rw [say_then, says_then] at hr
  obtain ⟨_, s₄, hst, hr⟩ := memory_then cfg hr
  rw [say_then] at hr
  obtain ⟨_, s₅, hld', hr⟩ := memory_then cfg hr
  rw [say_then] at hr
  obtain ⟨_, s₆, hunmap, hr⟩ := memory_then cfg hr
  obtain ⟨_, s₇, hfree, hr⟩ := memory_then cfg hr
  have h₅ := ((h₂.same (ld_sameTables _ _ _ _ hld)).same (st_sameTables _ _ _ _ _ hst)).same
    (ld_sameTables _ _ _ _ hld')
  rw [hk] at hfree
  have hf := (h₅.unmap (by decide) (by decide) hunmap).free hfree
  cases hr
  exact hf

theorem cmdKtest_framesKept (argv : List (List (BitVec 8))) :
    FramesKept cfg (Cmd.cmdKtest argv) := by
  unfold Cmd.cmdKtest
  exact allocTest_framesKept (kmalloc_framesKept _) ksize_framesKept kfree_framesKept

theorem cmdVtest_framesKept {argv : List (List (BitVec 8))}
    (h : Cmd.parseArg argv 1 ≤ vmallocSafe) :
    FramesKept cfg (Cmd.cmdVtest cfg.img argv) := by
  unfold Cmd.cmdVtest
  exact allocTest_framesKept (vmalloc_framesKept h) vsize_framesKept vfree_framesKept

theorem cmdWrite_framesKept (argv : List (List (BitVec 8))) :
    FramesKept cfg (Cmd.cmdWrite argv) := by
  refine .ite (.sayThen fun _ => .pure ()) (.ite (.sayThen fun _ => .pure ()) (.ite .panic ?_))
  refine .bind (allocSize_framesKept _) fun ⟨type, size⟩ =>
    .ite (.ite .panic ?_) (.sayThen fun _ => .pure ())
  exact .sayThen fun _ => .sameThen (st_sameTables _ _) fun _ => .say _ _

/-! ### The table -/

/-- The command asks `vmalloc` for no size that wraps around. -/
def AsksSafe (argv : List (List (BitVec 8))) (cmd : ShellCommand) : Prop :=
  cmd = .vmalloc ∨ cmd = .vtest → Cmd.parseArg argv 1 ≤ vmallocSafe

/-- **Every command** of the table keeps the frames accounted for. -/
theorem command_framesKept {argv : List (List (BitVec 8))} {cmd : ShellCommand}
    (h : AsksSafe argv cmd) :
    FramesKept cfg (Cmd.function cfg.img cfg.build argv cmd) := by
  cases cmd with
  | help => exact .textsThen fun _ => .textsThen fun _ => .textsThen fun _ => .texts _
  | clear => exact .pure ()
  | echo => exact .bind (echoWords_framesKept _) fun _ => .say _ _
  | reboot =>
    exact .textsThen fun _ => .sayThen fun _ => .outbThen fun _ =>
      .sayThen fun _ => .outbThen fun _ =>
      .sayThen fun _ => CmdKeeps.stop _
  | halt => exact .textsThen fun _ => CmdKeeps.stop _
  | gdt => exact .sayThen fun _ => .sayThen fun _ => .textsThen fun _ => .sayThen fun _ => .say _ _
  | version => exact .sayThen fun _ => .sayThen fun _ => .texts _
  | shutdown =>
    exact .textsThen fun _ =>
      .bind (.outbThen fun _ => CmdKeeps.outb keepsFrames_frame _ _) fun _ =>
      .sayThen fun _ => CmdKeeps.stop _
  | meminfo =>
    exact .sayThen fun _ => .bind pmminfo_framesKept fun _ => .sayThen fun _ => .sayThen fun _ =>
      .sayThen fun _ => .say _ _
  | kmalloc => exact .ite (.say _ _) (.bind (kmalloc_framesKept _) fun _ => .say _ _)
  | kfree => exact .ite (.say _ _) (.bind (kfree_framesKept _) fun _ => .say _ _)
  | ksize => exact .ite (.say _ _) (.bind (ksize_framesKept _) fun _ => .say _ _)
  | kbrk =>
    exact .ite (.sameThen (kbrk_sameTables _) fun _ => .say _ _) (.ite (.say _ _)
      (.sameThen (kbrk_sameTables _) fun _ => .ite (.say _ _) (.say _ _)))
  | vmalloc => exact .ite (.say _ _) (.bind (vmalloc_framesKept (h (.inl rfl))) fun _ => .say _ _)
  | vfree => exact .ite (.say _ _) (.bind (vfree_framesKept _) fun _ => .say _ _)
  | vsize => exact .ite (.say _ _) (.bind (vsize_framesKept _) fun _ => .say _ _)
  | vbrk =>
    exact .ite (.bind (vbrk_framesKept _) fun _ => .say _ _) (.ite (.say _ _)
      (.bind (vbrk_framesKept _) fun _ => .ite (.say _ _) (.say _ _)))
  | vget =>
    exact .ite (.say _ _) (.sameThen (vmmGetMapping_sameTables _ _) fun _ =>
      .sayThen fun _ => .sayThen fun _ =>
      .ite (.say _ _) (.say _ _))
  | present => exact cmdPresent_framesKept
  | pageops => exact cmdPageOps_framesKept
  | kmalloctest =>
    exact .bind pmminfo_framesKept fun _ =>
      .bind (sizeTest_framesKept (kmalloc_framesKept _) ksize_framesKept kfree_framesKept) fun _ =>
        sizeTest_framesKept (kmalloc_framesKept _) ksize_framesKept kfree_framesKept
  | vmalloctest =>
    exact .bind pmminfo_framesKept fun _ =>
      .bind (sizeTest_framesKept (vmalloc_framesKept (by decide)) vsize_framesKept vfree_framesKept)
        fun _ =>
        sizeTest_framesKept (vmalloc_framesKept (by decide)) vsize_framesKept vfree_framesKept
  | ktest => exact cmdKtest_framesKept _
  | vtest => exact cmdVtest_framesKept (h (.inr rfl))
  | write => exact cmdWrite_framesKept _
  | read =>
    exact .ite (.sayThen fun _ => .pure ()) (.bind (allocSize_framesKept _) fun ⟨type, size⟩ =>
      .ite (.ite .panic (.sayThen fun _ => .sameThen (ld_sameTables _) fun _ => .say _ _))
        (.sayThen fun _ => .pure ()))
  | rotest => exact cmdRotest_framesKept
  | pftest => exact .textsThen fun _ => .sameThen (ld_sameTables _) fun _ => .say _ _
  | pftest2 => exact .textsThen fun _ => .sameThen (ld_sameTables _) fun _ => .texts _
  | panictest => exact .textsThen fun _ => .bind (kmalloc_framesKept _) fun _ => .pure _

/-! ## Lines and runs -/

/-- The line asks `vmalloc` for no size that wraps around. -/
def LineSafe (line : List (BitVec 8)) : Prop :=
  ∀ cmd, commandOf (lineWords line) = some cmd → AsksSafe (lineWords line) cmd

theorem lineEffect_keepsFrames {line : List (BitVec 8)} (h : LineSafe line) :
    Keeps (KeepsFrames cfg.img) (lineEffect cfg line) := by
  refine .ite (.pure keepsFrames_frame _) ?_
  unfold wordsEffect
  cases hc : commandOf (lineWords line) with
  | none => exact .pure keepsFrames_frame _
  | some cmd => exact command_framesKept (h cmd hc)

theorem vmalloc_line {line : List (BitVec 8)} {n p : Nat} {s s' : State Flat}
    (hline : ¬ (line.length = 0 ∨ shellBufferSize - 1 ≤ line.length))
    (hcmd : commandOf (lineWords line) = some .vmalloc) (hargs : ¬ (lineWords line).length < 2)
    (hn : Cmd.parseArg (lineWords line) 1 = n) (hv : vmalloc cfg.img n s = .ok p s') :
    lineEffect cfg line s = .ok () s' := by
  unfold lineEffect wordsEffect
  rw [if_neg hline, hcmd]
  show (Cmd.cmdVmalloc cfg.img (lineWords line)).run (CmdOp.effect cfg) s = _
  unfold Cmd.cmdVmalloc
  rw [if_neg hargs, hn, memory_bind_run cfg hv]
  rfl

theorem FrameOwned.owner {s : State Flat} {k : Nat} (hf : FramesOwned cfg.img s s.vmem.vmemCurrent)
    (hk : k < 2304) (h : FrameOwned cfg.img s.mem.table s.vmem.vmemCurrent k) :
    ∃ o, Owner.In cfg.img s o ∧ Owner.frame cfg.img s o = pmmStart + k * pageSize := by
  rcases h with ⟨v, ⟨h1, h2, h3⟩, he⟩ | ⟨i, hi3, hi, hp, ht⟩
  · have hin : kheapStart ≤ v ∧ v ≤ kheapEnd ∨ kvmemStart ≤ v ∧ v < s.vmem.vmemCurrent := by
      simp only [kheapStart, kheapEnd, kvmemStart] at h2 ⊢
      omega
    exact ⟨.page v, ⟨h1, hin⟩, Owner.frame_page hf.toFrameInv (hf.total ▸ hk) he⟩
  · refine ⟨.table i, ⟨hi3, hi, ?_⟩, (tableOf_eq _ _).trans ht⟩
    rw [and_pagePresent]
    unfold Present at hp
    omega

/-- **No frame is lost, whatever is typed.** Let the kernel, on memory addressed directly, start
with what `memory_init` leaves, and let scancodes come in, any at all, as long as no line asks for a
`vmalloc` whose size wraps around. In every state that the kernel gets to, the frames in
use past the reserved megabyte are those of the heap's pages, of the pages of the
`vmalloc` region, and of the page tables made since: each such frame has one of these
for its owner, and only one, and together with the free ones they are all there are. The page
tables and the bitmap are stores of their own here: no pointer of a command reaches them, as a
stray one does in memory. -/
theorem kernel_frames {k : Kernel Flat} {tr : List (BitVec 8 × Kernel Flat)}
    (hl : LinesOk k.shell.console) (h0 : MemStart cfg.img k.st) (ht : Trace (KernelStep cfg) k tr)
    (hm : Meets (SubmitsOnly LineSafe) k tr) :
    (∀ j, 256 ≤ j → j < 2304 → (lastOf k tr).st.pmm.bit j = true →
      ∃! o, Owner.In cfg.img (lastOf k tr).st o ∧
        Owner.frame cfg.img (lastOf k tr).st o = pmmStart + j * pageSize) ∧
    ((lastOf k tr).st.vmem.vmemCurrent - kvmemStart) / pageSize +
      (madeTables cfg.img (lastOf k tr).st.mem.table).card + (lastOf k tr).st.pmm.freePages =
        1792 := by
  have hstart : FramesOwned cfg.img k.st k.st.vmem.vmemCurrent := by
    obtain ⟨m, hr⟩ := h0
    obtain ⟨s, hr', hboot⟩ := memoryInit_spec cfg.img m
    rw [hr] at hr'
    cases hr'
    rw [hboot.vmem]
    exact hboot.framesOwned
  obtain ⟨-, hf⟩ := kernel_inv cfg (I := fun s => FramesOwned cfg.img s s.vmem.vmemCurrent)
    (C := LineSafe)
    (fun line s s' hI hC hs => lineEffect_keepsFrames hC s () s' hs hI) hl hstart ht hm
  refine ⟨fun j hj hj' hb => ?_, hf.count_eq⟩
  obtain ⟨o, ho, hfr⟩ := (hf.owned j hj hj' hb).owner hf hj'
  exact ⟨o, ⟨ho, hfr⟩, fun o' ⟨ho', hfr'⟩ => hf.toFrameInv.owner_inj ho' ho (hfr'.trans hfr.symm)⟩

/-- Two blocks and a page test. -/
def frameLines : List (List (BitVec 8)) :=
  [bytesOf "vmalloc 8", bytesOf "vmalloc 1000", bytesOf "pageops"]

theorem frameLines_ok :
    ∀ l ∈ frameLines, ((∀ c ∈ l, 32 ≤ c.toNat ∧ c.toNat ≤ 126) ∧ l.length ≤ 3999) ∧
    Cmd.parseArg (lineWords l) 1 ≤ vmallocSafe := by decide +kernel

theorem frameLines_return {s : State Flat} (h : Booted Setup.readme.img s) :
    ∃ s', runLines Setup.readme frameLines s = .ok () s' := by
  obtain ⟨s₁, s₂, hv₁, hv₂, -, hfree, -⟩ := vmalloc_two h
  have h₁ : lineEffect Setup.readme (bytesOf "vmalloc 8") s = .ok () s₁ :=
    vmalloc_line (by decide) (by decide +kernel) (by decide +kernel) (by decide +kernel) hv₁
  have h₂ : lineEffect Setup.readme (bytesOf "vmalloc 1000") s₁ = .ok () s₂ :=
    vmalloc_line (by decide) (by decide +kernel) (by decide +kernel) (by decide +kernel) hv₂
  have howned : FramesOwned Setup.readme.img s s.vmem.vmemCurrent := by
    rw [h.vmem]
    exact h.framesOwned
  have howned₂ :=
    vmalloc_keepsFrames (by decide) _ _ _ hv₂ (vmalloc_keepsFrames (by decide) _ _ _ hv₁ howned)
  obtain ⟨s₃, hops⟩ := @cmdPageOps_returns Setup.readme s₂ howned₂ (by rw [hfree]; decide)
  have h₃ : lineEffect Setup.readme (bytesOf "pageops") s₂ = .ok () s₃ := by
    have hcmd : commandOf (lineWords (bytesOf "pageops")) = some .pageops := by decide +kernel
    unfold lineEffect wordsEffect
    rw [if_neg (by decide), hcmd]
    exact hops
  refine ⟨s₃, ?_⟩
  rw [frameLines, runLines, bind_of_ok h₁, runLines, bind_of_ok h₂, runLines, bind_of_ok h₃]
  rfl

/-- They are typed in after start-up. -/
theorem kernel_frames_typed : ∃ (k : Kernel Flat) (tr : List (BitVec 8 × Kernel Flat)),
    tr.map Prod.fst = typeLines ⟨0, 0, 0⟩ frameLines ∧
    (∀ j, 256 ≤ j → j < 2304 → (lastOf k tr).st.pmm.bit j = true →
      ∃! o, Owner.In Image.readme (lastOf k tr).st o ∧
        Owner.frame Image.readme (lastOf k tr).st o = pmmStart + j * pageSize) ∧
    ((lastOf k tr).st.vmem.vmemCurrent - kvmemStart) / pageSize +
      (madeTables Image.readme (lastOf k tr).st.mem.table).card + (lastOf k tr).st.pmm.freePages =
        1792 := by
  obtain ⟨s, hr, hboot⟩ := memoryInit_spec Image.readme Flat.blank
  obtain ⟨k, hk⟩ : ∃ k : Kernel Flat, k = Kernel.blank s := ⟨_, rfl⟩
  have htyped : TypedBy k.keyboard Typist.fresh := hk ▸ Kernel.blank_typed s
  have hst : k.st = s := by
    rw [hk]
    rfl
  rw [← hst] at hr hboot
  obtain ⟨s', hrun⟩ := frameLines_return hboot
  obtain ⟨tr, hcodes, ht, hm, -⟩ := typeLines_trace Setup.readme
    (C := LineSafe) htyped ⟨rfl, rfl⟩ rfl
    (fun l hl => ⟨(frameLines_ok l hl).1.1, (frameLines_ok l hl).1.2⟩)
    (fun l hl _ _ _ => (frameLines_ok l hl).2) hrun
  have hmem : MemStart Setup.readme.img k.st := ⟨Flat.blank, hr⟩
  exact ⟨k, tr, hcodes, @kernel_frames Setup.readme k tr htyped.linesOk hmem ht hm⟩

end Commands

end Kfs
