import Kfs.VmemRun

/-!
# Frames are exclusive across the kernel

The allocators' list work touches data memory only (`SameTables`), so whatever
their lists hold, the frame invariant only has to survive the calls that map:
`vmalloc` when it expands, `vbrk`, and the page test.
-/

namespace Kfs

open Kfs.Lib

variable {img : Image}

/-! ## What list code leaves alone -/

/-- `s'` has the frames, the tables and the `vmalloc` region of `s`. -/
def SameTables (s s' : State Flat) : Prop :=
  s'.pmm = s.pmm ∧ s'.mem.table = s.mem.table ∧ s'.vmem = s.vmem

theorem sameTables_frame : Frame SameTables where
  refl _ := ⟨rfl, rfl, rfl⟩
  trans h h' := ⟨h'.1.trans h.1, h'.2.1.trans h.2.1, h'.2.2.trans h.2.2⟩

theorem ld_sameTables (a : Nat) : Keeps SameTables (ld a : K Flat Nat) := by
  rintro s u s' h
  cases h
  exact sameTables_frame.refl s

theorem st_sameTables (a v : Nat) : Keeps SameTables (st a v : K Flat Unit) := by
  rintro s u s' h
  cases h
  exact ⟨rfl, rfl, rfl⟩

theorem setHeapUsed_sameTables (f : Nat → Nat) :
    Keeps SameTables (setHeapUsed f : K Flat Unit) := .modify fun _ => ⟨rfl, rfl, rfl⟩

theorem ldTest {a : Nat} (p : Nat → Bool) :
    Keeps SameTables (do return p (← ld a) : K Flat Bool) :=
  .bind sameTables_frame (ld_sameTables a) fun _ => .pure sameTables_frame _

theorem ldThen {α : Type} {a : Nat} {f : Nat → K Flat α} (hf : ∀ v, Keeps SameTables (f v)) :
    Keeps SameTables (ld a >>= f) := .bind sameTables_frame (ld_sameTables a) hf

theorem stThen {α : Type} {a v : Nat} {f : Unit → K Flat α} (hf : ∀ u, Keeps SameTables (f u)) :
    Keeps SameTables (st a v >>= f) := .bind sameTables_frame (st_sameTables a v) hf

theorem orPanic {α β : Type} {c : Prop} [Decidable c] {fmt : String} {args : List Nat}
    {f : β → K Flat α} {x : K Flat α} (hx : Keeps SameTables x) :
    Keeps SameTables (if c then kpanicFatal fmt args >>= f else x) := by
  refine .ite ?_ hx
  rintro s a s' h
  cases h

theorem splitBlock_sameTables (a r : Nat) : Keeps SameTables (splitBlock a r : K Flat Unit) :=
  ldThen fun _ => .ite (stThen fun _ => stThen fun _ => ldThen fun _ => stThen fun _ =>
    stThen fun _ => st_sameTables _ _) (.pure sameTables_frame _)

theorem kmalloc_sameTables (n : Nat) : Keeps SameTables (kmalloc n : K Flat Nat) := by
  have hstep : ∀ r c, Keeps SameTables (kmallocStep r c : K Flat (Nat ⊕ Nat)) := by
    intro r c
    have hfits : Keeps SameTables (fits c r : K Flat Bool) :=
      .andThen sameTables_frame (ldTest fun v => v ≠ 0) (ldTest fun v => v ≥ r)
    refine orPanic (.bind sameTables_frame hfits fun b => .ite ?_
      (ldThen fun _ => .pure sameTables_frame _))
    exact .bind sameTables_frame (splitBlock_sameTables c r) fun _ => stThen fun _ =>
      stThen fun _ => .bind sameTables_frame (setHeapUsed_sameTables _) fun _ =>
        .pure sameTables_frame _
  exact .ite (.pure sameTables_frame _) (.bind sameTables_frame (.get sameTables_frame) fun _ =>
    .iterate sameTables_frame (hstep _) _ _)

theorem kfree_sameTables (p : Nat) : Keeps SameTables (kfree p : K Flat Unit) := by
  have hmerge : ∀ c, Keeps SameTables (mergeStep c : K Flat (Nat ⊕ Unit)) := by
    intro c
    refine .ite (.pure sameTables_frame _) (ldThen fun next => .ite (.pure sameTables_frame _)
      (ldThen fun _ => .bind sameTables_frame (.andThen sameTables_frame (ldTest fun v => v ≠ 0)
        (ldTest fun v => v ≠ 0)) fun _ => .ite ?_ (.pure sameTables_frame _)))
    exact ldThen fun _ => stThen fun _ => ldThen fun _ => stThen fun _ => .pure sameTables_frame _
  refine .ite (.pure sameTables_frame _) (ldThen fun magic => orPanic (orPanic ?_))
  exact stThen fun _ => stThen fun _ => ldThen fun _ => .bind sameTables_frame
    (setHeapUsed_sameTables _) fun _ => .bind sameTables_frame (.get sameTables_frame) fun _ =>
      .iterate sameTables_frame hmerge _ _

theorem vfree_sameTables (p : Nat) : Keeps SameTables (vfree p : K Flat Unit) := by
  have hmerge : Keeps SameTables (vfreeMerge : K Flat Unit) := by
    refine .bind sameTables_frame (.get sameTables_frame) fun _ => ldThen fun _ => ldThen fun _ =>
      .bind sameTables_frame (.andThen sameTables_frame (ldTest fun v => v ≠ 0)
        (ldTest fun v => v ≠ 0)) fun _ => .ite ?_ (.pure sameTables_frame _)
    exact ldThen fun _ => stThen fun _ => ldThen fun _ => st_sameTables _ _
  refine .ite (.pure sameTables_frame _) (ldThen fun magic => orPanic (orPanic ?_))
  exact stThen fun _ => stThen fun _ => hmerge

theorem vmallocStep_sameTables (r : Nat) (at_ : Nat × Nat) :
    Keeps SameTables (vmallocStep r at_ : K Flat ((Nat × Nat) ⊕ VSearch)) := by
  obtain ⟨prev, c⟩ := at_
  have hfits : Keeps SameTables (vmemFits c r : K Flat Bool) :=
    .andThen sameTables_frame (ldTest fun v => v ≠ 0) (ldTest fun v => v ≥ r)
  have hserve : Keeps SameTables (vmemServe c r : K Flat Unit) :=
    ldThen fun z => .ite (stThen fun _ => stThen fun _ => ldThen fun _ => stThen fun _ =>
      stThen fun _ => stThen fun _ => stThen fun _ => st_sameTables _ _)
      (stThen fun _ => st_sameTables _ _)
  refine .ite (.pure sameTables_frame _) (.bind sameTables_frame hfits fun _ => .ite ?_
    (ldThen fun _ => .pure sameTables_frame _))
  exact .bind sameTables_frame hserve fun _ => .pure sameTables_frame _

/-! ## Calls that map -/

theorem vmemAppend_tables {s s' : State Flat} {r prev k e p : Nat}
    (h : vmemAppend r prev k e s = .ok p s') :
    s'.pmm = s.pmm ∧ s'.mem.table = s.mem.table ∧ s'.vmem.vmemCurrent = e := by
  by_cases hprev : prev = 0
  · subst hprev
    cases h
    exact ⟨rfl, rfl, rfl⟩
  · unfold vmemAppend at h
    simp only [ne_eq, hprev, not_false_eq_true, ↓reduceIte] at h
    cases h
    exact ⟨rfl, rfl, rfl⟩

/-- **`vmalloc`** keeps the frame invariant, whatever its list holds, and moves the end
of the region only inside its zone. -/
theorem vmalloc_frames {s s' : State Flat} {n p : Nat} (h : FrameInv img s s.vmem.vmemCurrent)
    (hn : n ≤ 0x300000) (hr : vmalloc img n s = .ok p s') :
    FrameInv img s' s'.vmem.vmemCurrent ∧ s.vmem.vmemCurrent ≤ s'.vmem.vmemCurrent ∧
      (s'.vmem.vmemCurrent = s.vmem.vmemCurrent ∨ s'.vmem.vmemCurrent ≤ kvmemEnd) ∧
      SameOutside img s.vmem.vmemCurrent s'.vmem.vmemCurrent s s' := by
  unfold vmalloc at hr
  split at hr
  · cases hr
    exact ⟨h, Nat.le_refl _, .inl rfl, fun _ _ _ => rfl⟩
  rw [get_bind_apply] at hr
  obtain ⟨res, s₁, hsearch, hr⟩ := bind_eq_ok.mp hr
  obtain ⟨h1, h2, h3⟩ := Keeps.iterate sameTables_frame
    (vmallocStep_sameTables (round8 n)) _ _ _ _ _
    hsearch
  have hf₁ : FrameInv img s₁ s₁.vmem.vmemCurrent := by
    rw [h3]
    exact h.congr h1 h2
  cases res with
  | found q =>
    cases hr
    rw [h3] at hf₁ ⊢
    exact ⟨hf₁, Nat.le_refl _, .inl rfl, fun _ _ _ => by rw [h2]⟩
  | last prev =>
    have hhi := hf₁.hi
    have hr8 := round8_bounds (n := n) (by omega)
    obtain ⟨k, e, s₂, -, -, he, hlim, hmap, happ⟩ := vmallocExpand_ok (by omega) hr
    obtain ⟨hf₂, -, hout⟩ := vmallocMap_frames hf₁ he (by simp only [kvmemEnd] at hlim; omega) hmap
    obtain ⟨g1, g2, g3⟩ := vmemAppend_tables happ
    rw [h3] at he hout
    rw [g3]
    refine ⟨hf₂.congr g1 g2, by omega, .inr hlim, fun v hv hv' => ?_⟩
    rw [g2, hout v hv hv', h2]

/-! ## Runs -/

/-- A call of the memory subsystem, or a write to data memory. -/
inductive MemOp where
  | kmalloc (n : Nat)
  | kfree (p : Nat)
  | vmalloc (n : Nat)
  | vfree (p : Nat)
  | vbrk (a : Nat)
  | pageops
  | write (a : Nat) (v : BitVec 8)

variable (img)

/-- A call that returns. Which pointers are freed does not matter here. -/
def MemStep (s : State Flat) : MemOp → State Flat → Prop
  | .kmalloc n, s' => ∃ p, kmalloc n s = .ok p s'
  | .kfree p, s' => kfree p s = .ok () s'
  | .vmalloc n, s' => n ≤ 0x300000 ∧ ∃ p, vmalloc img n s = .ok p s'
  | .vfree p, s' => vfree p s = .ok () s'
  | .vbrk a, s' => ∃ r, vbrk img a s = .ok r s'
  | .pageops, s' => ∃ r, cmdPageOps img s = .ok r s'
  | .write a v, s' => s' = s.setData (storeByte s.mem.data a v)

def MemStart (s : State Flat) : Prop :=
  ∃ m, memoryInit img pmmMaxBytes (State.boot m) = .ok () s

/-- Who a frame can belong to: a virtual page, or a slot of the page directory. -/
inductive Owner where
  | page (v : Nat)
  | table (i : Nat)

/-- The pages of the kernel heap and of the `vmalloc` region, and the slots whose
table was created dynamically. -/
def Owner.In (s : State Flat) : Owner → Prop
  | .page v => v % 4096 = 0 ∧
      (kheapStart ≤ v ∧ v ≤ kheapEnd ∨ kvmemStart ≤ v ∧ v < s.vmem.vmemCurrent)
  | .table i => 3 ≤ i ∧ i < 1024 ∧ pdeAt img s.mem.table i &&& pagePresent ≠ 0

/-- The frame an owner's entry names. -/
def Owner.frame (s : State Flat) : Owner → Nat
  | .page v => entryAt img s.mem.table v &&& 0xFFFFF000
  | .table i => pdeAt img s.mem.table i &&& 0xFFFFF000

variable {img}

theorem MemStep.frames {s s' : State Flat} {op : MemOp} (h : FrameInv img s s.vmem.vmemCurrent)
    (hs : MemStep img s op s') : FrameInv img s' s'.vmem.vmemCurrent := by
  have hsame : SameTables s s' → FrameInv img s' s'.vmem.vmemCurrent := by
    rintro ⟨h1, h2, h3⟩
    rw [h3]
    exact h.congr h1 h2
  cases op with
  | kmalloc n =>
    obtain ⟨p, hr⟩ := hs
    exact hsame (kmalloc_sameTables n _ _ _ hr)
  | kfree p => exact hsame (kfree_sameTables p _ _ _ hs)
  | vmalloc n =>
    obtain ⟨hn, p, hr⟩ := hs
    exact (vmalloc_frames h hn hr).1
  | vfree p => exact hsame (vfree_sameTables p _ _ _ hs)
  | vbrk a =>
    obtain ⟨r, hr⟩ := hs
    exact (vbrk_frames h hr).frames
  | pageops =>
    obtain ⟨r, hr⟩ := hs
    obtain ⟨hf, hv⟩ := cmdPageOps_frames h hr
    rw [hv]
    exact hf
  | write a v =>
    have hs : s' = s.setData (storeByte s.mem.data a v) := hs
    subst hs
    exact hsame ⟨rfl, rfl, rfl⟩

theorem MemStart.frames {s : State Flat} (h : MemStart img s) :
    FrameInv img s s.vmem.vmemCurrent := by
  obtain ⟨m, hr⟩ := h
  obtain ⟨s', hr', hboot⟩ := memoryInit_spec img m
  rw [hr'] at hr
  injection hr with _ hs
  subst hs
  rw [hboot.vmem]
  exact hboot.frameInv

/-- The frame of an owner in terms of the invariant: `frame o + 3` is a page's entry,
`frame o` a slot's table. -/
theorem Owner.frame_page {s : State Flat} {e v k : Nat} (h : FrameInv img s e)
    (hk : k < s.pmm.totalPages) (he : entryAt img s.mem.table v = pmmStart + k * pageSize + 3) :
    Owner.frame img s (.page v) = pmmStart + k * pageSize := by
  have := h.paging.pmm.total
  show entryAt img s.mem.table v &&& 0xFFFFF000 = _
  rw [he, and_maskPage _ (by simp only [pmmStart, pageSize]; omega)]
  simp only [pmmStart, pageSize]
  omega

theorem Owner.In.backed {s : State Flat} {v : Nat} (h : FrameInv img s s.vmem.vmemCurrent)
    (ho : Owner.In img s (.page v)) : Backed s.vmem.vmemCurrent v := by
  obtain ⟨h1, h2⟩ := ho
  have := h.lo
  simp only [kheapStart, kheapEnd, kvmemStart] at *
  exact ⟨h1, by simp only [kheapStart]; omega, by omega⟩

theorem Owner.In.present {s : State Flat} {i : Nat} (ho : Owner.In img s (.table i)) :
    Present img s.mem.table i := by
  obtain ⟨-, -, h3⟩ := ho
  rw [and_pagePresent] at h3
  unfold Present
  omega

/-- **Frames are exclusive.** In every state reachable from `memory_init`, distinct
pages of the heap and of the `vmalloc` region and distinct dynamic page tables
are in distinct frames, each marked in use and past the reserved megabyte. -/
theorem frames_exclusive {s : State Flat} (h : Reach (MemStart img) (MemStep img) s) :
    (∀ o o', Owner.In img s o → Owner.In img s o' → Owner.frame img s o = Owner.frame img s o' →
      o = o') ∧
    ∀ o, Owner.In img s o → ∃ k, Owner.frame img s o = pmmStart + k * pageSize ∧
      1024 * 1024 / pageSize ≤ k ∧ k < s.pmm.totalPages ∧ s.pmm.bit k = true := by
  have hf : FrameInv img s s.vmem.vmemCurrent :=
    Reach.inv (I := fun s => FrameInv img s s.vmem.vmemCurrent) (fun _ hs => hs.frames)
      (fun _ _ _ hI hs => hs.frames hI) h
  have hmixed : ∀ v i, Owner.In img s (.page v) → Owner.In img s (.table i) →
      Owner.frame img s (.page v) ≠ Owner.frame img s (.table i) := by
    intro v i hv hi hvi
    obtain ⟨k, he, -, hk, -⟩ := hf.backed v (hv.backed hf)
    rw [Owner.frame_page hf hk he, show Owner.frame img s (.table i) = _ from tableOf_eq _ _] at hvi
    refine hf.apart v i (hv.backed hf) hi.2.1 hi.present ?_
    rw [he, hvi]
  refine ⟨fun o o' ho ho' hoo => ?_, fun o ho => ?_⟩
  · cases o with
    | page v =>
      cases o' with
      | page w =>
        obtain ⟨k, he, -, hk, -⟩ := hf.backed v (ho.backed hf)
        obtain ⟨k', he', -, hk', -⟩ := hf.backed w (ho'.backed hf)
        rw [Owner.frame_page hf hk he, Owner.frame_page hf hk' he'] at hoo
        rw [hf.inj v w (ho.backed hf) (ho'.backed hf) (by rw [he, he', hoo])]
      | table i => exact absurd hoo (hmixed v i ho ho')
    | table i =>
      cases o' with
      | page w => exact absurd hoo.symm (hmixed w i ho' ho)
      | table j =>
        have hij : tableOf img s.mem.table i = tableOf img s.mem.table j := by
          rw [← tableOf_eq, ← tableOf_eq]
          exact hoo
        rw [hf.paging.inj i j ho.2.1 ho'.2.1 ho.present ho'.present hij]
  · cases o with
    | page v =>
      obtain ⟨k, he, h1, hk, h2⟩ := hf.backed v (ho.backed hf)
      exact ⟨k, Owner.frame_page hf hk he, h1, hk, h2⟩
    | table i =>
      have hi3 := ho.1
      cases hf.paging.own i ho.2.1 ho.present with
      | static h1 _ => omega
      | frame k _ h2 h3 h4 h5 => exact ⟨k, (tableOf_eq _ _).trans h5, h2, h3, h4⟩

/-- The heap's first page, and those of two blocks of the region. -/
theorem frames_exclusive_boot :
    ∃ s, Reach (MemStart Image.readme) (MemStep Image.readme) s ∧
      (Owner.In Image.readme s (.page 0x200000) ∧ Owner.In Image.readme s (.page 0x300000) ∧
        Owner.In Image.readme s (.page 0x301000)) ∧
      Owner.frame Image.readme s (.page 0x300000) ≠ Owner.frame Image.readme s (.page 0x301000) ∧
      ∃ k, Owner.frame Image.readme s (.page 0x301000) = pmmStart + k * pageSize ∧
        1024 * 1024 / pageSize ≤ k ∧ k < s.pmm.totalPages ∧ s.pmm.bit k = true := by
  obtain ⟨s, hr, hboot⟩ := memoryInit_spec Image.readme Flat.blank
  obtain ⟨s₁, s₂, hv₁, hv₂, hcur, -⟩ := vmalloc_two hboot
  have hs₁ : Reach (MemStart Image.readme) (MemStep Image.readme) s₁ :=
    .step (i := .vmalloc 8) (.init ⟨_, hr⟩) ⟨by decide, _, hv₁⟩
  have hs₂ : Reach (MemStart Image.readme) (MemStep Image.readme) s₂ :=
    .step (i := .vmalloc 1000) hs₁ ⟨by decide, _, hv₂⟩
  have hpage : ∀ v, v % 4096 = 0 → 0x300000 ≤ v → v < 0x302000 →
    Owner.In Image.readme s₂ (.page v) :=
    fun v h1 h2 h3 => ⟨h1, .inr ⟨h2, by rw [hcur]; exact h3⟩⟩
  have h₁ := hpage 0x300000 (by decide) (by decide) (by decide)
  have h₂ := hpage 0x301000 (by decide) (by decide) (by decide)
  refine ⟨s₂, hs₂, ⟨⟨by decide, .inl (by decide)⟩, h₁, h₂⟩, fun he => ?_,
    (frames_exclusive hs₂).2 _ h₂⟩
  cases (frames_exclusive hs₂).1 _ _ h₁ h₂ he

end Kfs
