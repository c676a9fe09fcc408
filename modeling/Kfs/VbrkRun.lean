import Kfs.FarSplit

/-!
# What `vbrk` gives

The loop of `vbrk` counts `vmem_current` up to an arbitrary address, and it is not
the counter that ends it: every round takes a frame, so it ends at the latest one
round after the frames do. The pages it adds are mapped for the hardware too, each
to a frame of its own, because the region grows through frames that hold no table.
-/

namespace Kfs

open Kfs.Lib

variable {img : Image}

/-! ## What it should do -/

/-- How `pmm_alloc_page` stops. -/
def outOfMemory : Trap := .panic "PMM out of memory\n" []

/-- From `s` to `s'`, the page at `va` was mapped present and writable to frame `f`, which
was free. -/
structure TookPage (s s' : State Mmu) (va f : Nat) : Prop where
  total : f < s.pmm.totalPages
  free : s.pmm.bit f = false
  used : s'.pmm.bit f = true
  flags : HasFlags
    (s'.mem.dirEntry ((va >>> 22) &&& 0x3FF) &&& load32 s'.mem.phys (s'.mem.pteAddr va))
    (pagePresent ||| pageWrite)
  frame : ∀ o, o < pageSize → ∀ w, s'.mem.translate w (va + o) = .ok (frameAddr f + o)

/-- From `s` to `s'`, the region was extended to hold `a`. -/
structure Extended (s : State Mmu) (a : Nat) (s' : State Mmu) : Prop where
  current : s'.vmem.vmemCurrent = (a + (pageSize - 1)) / pageSize * pageSize
  pages : ∃ frame : Nat → Nat,
    (∀ va, va % pageSize = 0 → s.vmem.vmemCurrent ≤ va → va < s'.vmem.vmemCurrent →
      TookPage s s' va (frame va)) ∧
    ∀ va vb, va % pageSize = 0 → s.vmem.vmemCurrent ≤ va → va < s'.vmem.vmemCurrent →
      vb % pageSize = 0 → s.vmem.vmemCurrent ≤ vb → vb < s'.vmem.vmemCurrent →
      frame va = frame vb → va = vb

variable (img) in
/-- **`vbrk(a)` is total and precise** in state `s`. -/
structure VbrkPrecise (s : State Mmu) (a : Nat) : Prop where
  refuses : vbrk img a s = .ok 0xFFFFFFFF s ↔ a < kvmemStart ∨ a < s.vmem.vmemCurrent
  ends : ¬ (a < kvmemStart ∨ a < s.vmem.vmemCurrent) →
    (∃ s', iterate .outOfFuel (vbrkStep img a) (s.pmm.freePages + 1) () s = .ok () s' ∧
      vbrk img a s = .ok s'.vmem.vmemCurrent s' ∧ Extended s a s') ∨
    ∃ s', iterate .outOfFuel (vbrkStep img a) (s.pmm.freePages + 1) () s = .error outOfMemory s' ∧
      vbrk img a s = .error outOfMemory s'

/-! ## The loop -/

/-- From `s` to `s'`, the loop of `vbrk(a)` has moved the end of the region from frame `n` to
frame `n'`. -/
structure BrkMoved (img : Image) (a : Nat) (s s' : State Mmu) (n n' : Nat) : Prop where
  inv : WalkInv img s' n' none
  current : s'.vmem.vmemCurrent = frameAddr n'
  le : n ≤ n'
  reaches : a ≤ frameAddr n'
  last : n' = n ∨ frameAddr n' < a + pageSize
  mem : s'.mem = s.mem
  list : s'.vmem.vmemList = s.vmem.vmemList

section Loop

variable {s : State Mmu} {n a : Nat}

theorem BrkMoved.cons {p : Pmm} {s' : State Mmu} {n' : Nat} (hlt : frameAddr n < a)
    (h : BrkMoved img a (State.grown { s with pmm := p }) s' (n + 1) n') :
    BrkMoved img a s s' n n' where
  inv := h.inv
  current := h.current
  le := (Nat.le_succ n).trans h.le
  reaches := h.reaches
  last := by
    right
    rcases h.last with hn | hlast
    · rw [hn, frameAddr_next]
      exact Nat.add_lt_add_right hlt pageSize
    · exact hlast
  mem := h.mem
  list := h.list.trans (State.grown_list _)

/-- **The loop ends** within one round more than there are free frames: every round but
the last takes one. -/
theorem vbrk_rounds (a k : Nat) : ∀ {s : State Mmu} {n : Nat}, WalkInv img s n none →
    s.vmem.vmemCurrent = frameAddr n → s.pmm.freePages ≤ k →
    (∃ s' n', BrkMoved img a s s' n n' ∧
      ∀ j, k < j → iterate .outOfFuel (vbrkStep img a) j () s = .ok () s') ∨
    (frameAddr 2304 < a ∧ ∃ s',
      ∀ j, k < j → iterate .outOfFuel (vbrkStep img a) j () s = .error outOfMemory s') := by
  induction k using Nat.strong_induction_on with
  | _ k ih =>
  intro s n h hcur hfree
  rcases vbrkStep_low (a := a) h hcur (fun _ => by simp) with
    ⟨hle, hr⟩ | ⟨hlt, hn, hr, hinv, hnext⟩ | ⟨hlt, hr⟩
  · refine .inl ⟨s, n, ⟨h, hcur, Nat.le_refl n, hle, .inl rfl, rfl, rfl⟩, fun j hj => ?_⟩
    obtain ⟨i, rfl⟩ := Nat.exists_eq_add_of_lt hj
    exact iterate_done hr
  · -- the frame taken was free, so there is one less
    have hb := h.used.bit_false hn (by simp [Held])
    have hpos := h.used.inv.freePages_pos (by rw [h.used.total]; exact hn) hb
    have hfree' : (State.grown { s with pmm := s.pmm.take n }).pmm.freePages ≤ k - 1 := by
      show s.pmm.freePages - 1 ≤ k - 1
      omega
    have hround : ∀ j, k < j → iterate .outOfFuel (vbrkStep img a) j () s =
        iterate .outOfFuel (vbrkStep img a) (j - 1) ()
          (State.grown { s with pmm := s.pmm.take n }) := by
      intro j hj
      obtain ⟨i, rfl⟩ : ∃ i, j = i + 1 := ⟨j - 1, by omega⟩
      exact iterate_next hr
    rcases ih (k - 1) (by omega) hinv hnext hfree' with ⟨s', n', hm, hloop⟩ | ⟨hbig, s', hloop⟩
    · exact .inl ⟨s', n', hm.cons hlt, fun j hj => (hround j hj).trans (hloop _ (by omega))⟩
    · exact .inr ⟨hbig, s', fun j hj => (hround j hj).trans (hloop _ (by omega))⟩
  · refine .inr ⟨hlt, s, fun j hj => ?_⟩
    obtain ⟨i, rfl⟩ := Nat.exists_eq_add_of_lt hj
    exact iterate_error hr

/-- The frame that belongs to a page of the region. -/
def frameOf (va : Nat) : Nat := (va - pmmStart) / pageSize

theorem frameOf_page {va n n' : Nat} (hal : va % pageSize = 0) (h1 : frameAddr n ≤ va)
    (h2 : va < frameAddr n') : n ≤ frameOf va ∧ frameOf va < n' ∧ frameAddr (frameOf va) = va := by
  simp only [frameOf, frameAddr, pmmStart, pageSize] at *
  refine ⟨?_, ?_, ?_⟩ <;> omega

theorem hasFlags_pair {e : Nat} : HasFlags e (pagePresent ||| pageWrite) ↔ e % 4 = 3 := by
  show e &&& 3 = 3 ↔ _
  rw [show e &&& 3 = e % 4 from Nat.and_two_pow_sub_one_eq_mod e 2]

/-- The frames the region grew by were free, and each backs the page at its own address. -/
theorem BrkMoved.took {s' : State Mmu} {n' j : Nat} (h : WalkInv img s n none)
    (hm : BrkMoved img a s s' n n') (h1 : n ≤ j) (h2 : j < n') : TookPage s s' (frameAddr j) j := by
  have hle := hm.inv.le
  have hlow := hm.inv.tables.low
  have hw := hm.inv.walking
  have hal := img.ptAligned
  have hva : frameAddr j + 4096 ≤ 0xC00000 := by
    simp only [frameAddr, pmmStart, pageSize]
    omega
  have hi : pdIndex (frameAddr j) < 3 := by
    unfold pdIndex
    omega
  have hmod := frameAddr_mod j
  have hent := hlow.entryAt (v := frameAddr j) (by omega)
  refine ⟨by rw [h.used.total]; omega, h.used.bit_false (by omega) ?_,
    (hm.inv.used.bits j (by omega)).mpr
    (.inl h2), ?_, fun o ho w => ?_⟩
  · rintro (hj | hj)
    · omega
    · cases hj
  · rw [hw.pteAddr (by omega), hw.dirEntry, pdIndex_eq (by omega), hasFlags_and, hasFlags_pair,
      hasFlags_pair]
    unfold entryAt at hent
    rw [if_pos (hlow.present hi)] at hent
    rw [hlow.pde _ hi, hent]
    omega
  · simp only [pageSize] at ho
    exact hw.translate_low hlow (by omega) w

/-- **What the loop leaves** when it returns. -/
theorem BrkMoved.extended {s' : State Mmu} {n' : Nat} (h : WalkInv img s n none)
    (hcur : s.vmem.vmemCurrent = frameAddr n) (ha : frameAddr n ≤ a)
    (hm : BrkMoved img a s s' n n') :
    Extended s a s' where
  current := by
    have hmod := frameAddr_mod n'
    have hreach := hm.reaches
    rw [hm.current]
    simp only [pageSize]
    rcases hm.last with hn | hlast
    · rw [hn] at hmod hreach ⊢
      omega
    · simp only [pageSize] at hlast
      omega
  pages := by
    rw [hcur, hm.current]
    refine ⟨frameOf, fun va h0 h1 h2 => ?_, fun va vb h0 h1 h2 h0' h1' h2' heq => ?_⟩
    · obtain ⟨hlo, hhi, hva⟩ := frameOf_page h0 h1 h2
      have := hm.took h hlo hhi
      rwa [hva] at this
    · rw [← (frameOf_page h0 h1 h2).2.2, ← (frameOf_page h0' h1' h2').2.2, heq]

theorem WalkInv.freePages_lt (h : WalkInv img s n none) : s.pmm.freePages < maxRounds := by
  have h1 := h.used.inv.freePages_le
  have h2 := h.used.total
  have h3 := maxRounds_eq
  omega

theorem vbrk_accepts (h0 : a ≠ 0) (ha : ¬ (a < kvmemStart ∨ a < s.vmem.vmemCurrent)) :
    vbrk img a s = (do
      iterate .outOfFuel (vbrkStep img a) maxRounds ()
      return (← get).vmem.vmemCurrent : K Mmu Nat) s := by
  rw [not_or] at ha
  unfold vbrk
  rw [if_neg h0, get_bind_apply]
  simp only [ha.1, ha.2, decide_false, Bool.or_self, Bool.false_eq_true, ↓reduceIte]

/-- **`vbrk` in a state of the invariant.** -/
theorem WalkInv.brk_precise (h : WalkInv img s n none) (hcur : s.vmem.vmemCurrent = frameAddr n)
    (h0 : a ≠ 0) : VbrkPrecise img s a := by
  have hfree := h.freePages_lt
  have hends : ¬ (a < kvmemStart ∨ a < s.vmem.vmemCurrent) →
      (∃ s', iterate .outOfFuel (vbrkStep img a) (s.pmm.freePages + 1) () s = .ok () s' ∧
        vbrk img a s = .ok s'.vmem.vmemCurrent s' ∧ Extended s a s') ∨
      ∃ s', iterate .outOfFuel (vbrkStep img a) (s.pmm.freePages + 1) () s = .error outOfMemory s' ∧
        vbrk img a s = .error outOfMemory s' := by
    intro ha
    have hn : frameAddr n ≤ a := by
      rw [← hcur]
      omega
    rcases vbrk_rounds a _ h hcur (Nat.le_refl _) with ⟨s', n', hm, hloop⟩ | ⟨-, s', hloop⟩
    · refine .inl ⟨s', hloop _ (Nat.lt_succ_self _), ?_, hm.extended h hcur hn⟩
      rw [vbrk_accepts h0 ha, bind_of_ok (hloop _ hfree)]
      rfl
    · refine .inr ⟨s', hloop _ (Nat.lt_succ_self _), ?_⟩
      rw [vbrk_accepts h0 ha, bind_of_error (hloop _ hfree)]
  refine ⟨⟨fun hr => ?_, fun ha => ?_⟩, hends⟩
  · -- what it returns otherwise is in the region
    by_contra ha
    rcases hends ha with ⟨s', -, hr', hext⟩ | ⟨s', -, hr'⟩
    · rw [hr] at hr'
      injection hr' with hr' _
      have := hext.current
      rw [← hr'] at this
      simp only [pageSize] at this
      omega
    · rw [hr] at hr'
      cases hr'
  · unfold vbrk
    rw [if_neg h0, get_bind_apply,
      if_pos (by rw [Bool.or_eq_true, decide_eq_true_iff, decide_eq_true_iff]; exact ha)]
    rfl

theorem vbrk_to {m : Nat} (h : WalkInv img s n none) (hcur : s.vmem.vmemCurrent = frameAddr n)
    (hlo : 512 ≤ m) (hn : n ≤ m) (hm : m ≤ 2304) :
    ∃ s', vbrk img (frameAddr m) s = .ok (frameAddr m) s' ∧
    BrkMoved img (frameAddr m) s s' n m := by
  have hfree := h.freePages_lt
  have hstart : kvmemStart ≤ frameAddr m := frameAddr_mono hlo
  have hcur' : s.vmem.vmemCurrent ≤ frameAddr m := by
    rw [hcur]
    exact frameAddr_mono hn
  rcases vbrk_rounds (frameAddr m) _ h hcur (Nat.le_refl _) with ⟨s', n', hmoved, hloop⟩ | ⟨hbig, -⟩
  · have hn' : n' = m := by
      have h1 := hmoved.reaches
      have h2 := hmoved.last
      simp only [frameAddr, pageSize] at h1 h2
      omega
    subst hn'
    refine ⟨s', ?_, hmoved⟩
    rw [vbrk_loop hstart hcur' (hloop _ hfree), hmoved.current]
  · exact absurd (frameAddr_mono hm) (Nat.not_le_of_lt hbig)

end Loop

/-! ## Runs -/

def BrkCall (x : VmemSys Mmu) : WalkOp → Prop
  | .vfree p => p ∈ x.live
  | .pageops => False
  | _ => True

variable (img) in
/-- A step by `vmalloc`, `vfree` of a live pointer, or `vbrk`. -/
def BrkStep (x : VmemSys Mmu) (op : WalkOp) (y : VmemSys Mmu) : Prop :=
  BrkCall x op ∧ WalkStep img x op y

/-- **The condition on a step**: a `vmalloc` that no listed block fits computes the end of
the region without wrapping around. -/
def EndFits (x : VmemSys Mmu) : WalkOp → Prop
  | .vmalloc n => n = 0 ∨ ListedFit x.st (round8 n) ∨
      x.st.vmem.vmemCurrent + round8 n + 4115 < 2 ^ 32
  | _ => True

theorem BrkStep.clean {x y : VmemSys Mmu} {n : Nat} {bs : List VBlk} {op : WalkOp}
    (h : MmuOk img x n none bs) (hs : BrkStep img x op y) (hc : EndFits x op) : CleanStep x op := by
  have hlo : 0x200000 ≤ x.st.vmem.vmemCurrent := by
    have := h.list.lo
    simp only [kvmemStart] at this
    omega
  have hoff : ∀ b, ¬ TableIn x.st.mem x.st.vmem.vmemCurrent b :=
    fun b => h.walk.not_tableIn hlo (by simp)
  cases op with
  | vmalloc r =>
    rcases hc with hc | hc | hc
    · exact .inl hc
    · exact .inr (.inl hc)
    · exact .inr (.inr ⟨hc, hoff _⟩)
  | vfree p => exact .inr hs.1
  | vbrk a => exact hoff a
  | pageops => exact trivial

theorem BrkStep.ok {x y : VmemSys Mmu} {op : WalkOp} (h : ∃ n bs, MmuOk img x n none bs)
    (hc : EndFits x op) (hs : BrkStep img x op y) : ∃ n bs, MmuOk img y n none bs := by
  obtain ⟨n, bs, h⟩ := h
  refine WalkStep.ok_same h ?_ (hs.clean h hc) hs.2
  rintro rfl
  exact hs.1

/-- **`vbrk` is total and precise** after every run from `memory_init` in which no `vmalloc`
computed a wrapped end: for every address but null. -/
theorem vbrk_precise {x : VmemSys Mmu} {tr : List (WalkOp × VmemSys Mmu)} (hx : WalkStart img x)
    (ht : Trace (BrkStep img) x tr) (hc : Meets EndFits x tr) {a : Nat} (ha : a ≠ 0) :
    VbrkPrecise img (lastOf x tr).st a := by
  obtain ⟨n, bs, h⟩ := ht.inv (I := fun x => ∃ n bs, MmuOk img x n none bs)
    (fun _ _ _ hI hc hs => hs.ok hI hc) hc ⟨_, _, hx.ok⟩
  exact h.walk.brk_precise h.last ha

/-- `vbrk` to `0x400000` after one to `0x301000`. -/
theorem vbrk_precise_twice : ∃ x y, WalkStart Image.readme x ∧
    Trace (BrkStep Image.readme) x [(.vbrk 0x301000, y)] ∧
    VbrkPrecise Image.readme y.st 0x400000 := by
  obtain ⟨s, hr, -⟩ := memoryInit_low Image.readme (m := Mmu.blank) (by decide)
  have hx : WalkStart Image.readme ⟨s, ∅⟩ := ⟨_, by decide, hr, rfl⟩
  have hok := hx.ok
  obtain ⟨s₁, hv, -⟩ := vbrk_to (m := 513) hok.walk hok.last (by decide) (by decide) (by decide)
  have ht : Trace (BrkStep Image.readme) ⟨s, ∅⟩ [(.vbrk 0x301000, ⟨s₁, ∅⟩)] :=
    ⟨⟨trivial, by decide, ⟨_, hv⟩, rfl⟩, trivial⟩
  exact ⟨_, ⟨s₁, ∅⟩, hx, ht, vbrk_precise hx ht ⟨trivial, trivial⟩ (by decide)⟩

variable (img) in
/-- A request for nearly all of memory, freed, and one that splits it over the page
directory, wherever that lies: then `vbrk` fails to map a page, with most frames free. -/
theorem vbrk_split_fails : ∃ x y₁ y₂ y₃ y₄ s', WalkStart img x ∧
    Trace (BrkStep img) x [(.vmalloc 0xFFFFFFF8, y₁), (.vbrk 0x400000, y₂),
      (.vfree 0x300014, y₃), (.vmalloc (overRequest img), y₄)] ∧
    vbrk img 0x400001 y₄.st = .error (.panic "vbrk: failed to map page\n" []) s' ∧
    ¬ VbrkPrecise img y₄.st 0x400001 := by
  obtain ⟨s, hr, -⟩ := memoryInit_low img (m := Mmu.blank) (by decide)
  have hx : WalkStart img ⟨s, ∅⟩ := ⟨_, by decide, hr, rfl⟩
  obtain ⟨s₁, hv₁, h₁⟩ := vmalloc_huge hx.ok
  obtain ⟨s₂, hv₂, hm⟩ := vbrk_to (m := 768) h₁.walk h₁.current (by decide) (by decide) (by decide)
  have h₂ : HugeBlock img s₂ 768 false :=
    ⟨hm.inv, hm.current, by decide, hm.list.trans h₁.list, hm.mem ▸ h₁.header, hm.mem ▸ h₁.next⟩
  obtain ⟨s₃, hv₃, h₃⟩ := vfree_huge h₂
  obtain ⟨s₄, hv₄, hnull, hpmm, hvmem⟩ := vmalloc_over h₃
  have hcur : s₄.vmem.vmemCurrent = 0x400000 := by
    rw [hvmem]
    exact h₃.current
  -- the next round fails, and with it the loop
  obtain ⟨s', hround⟩ := hnull.vbrkStep (hpmm ▸ h₃.walk.used) hcur (a := 0x400001) (by decide)
  have hloop : ∀ j, 0 < j → iterate .outOfFuel (vbrkStep img 0x400001) j () s₄ =
      .error (.panic "vbrk: failed to map page\n" []) s' := by
    intro j hj
    obtain ⟨i, rfl⟩ := Nat.exists_eq_add_of_lt hj
    exact iterate_error hround
  have hpass : ¬ (0x400001 < kvmemStart ∨ 0x400001 < s₄.vmem.vmemCurrent) := by
    rw [hcur]
    decide
  have hfail : vbrk img 0x400001 s₄ = .error (.panic "vbrk: failed to map page\n" []) s' := by
    rw [vbrk_accepts (by decide) hpass]
    exact bind_of_error (hloop _ (by have := maxRounds_eq; omega))
  have hlt : overRequest img < 2 ^ 32 := by
    have := img.pdHi
    unfold overRequest
    omega
  refine ⟨⟨s, ∅⟩, ⟨s₁, {0x300014}⟩, ⟨s₂, {0x300014}⟩, ⟨s₃, ∅⟩,
    ⟨s₄, {0x300014}⟩, s', hx, ⟨?_, ?_, ?_, ?_, trivial⟩,
    hfail, fun hp => ?_⟩
  · exact ⟨trivial, by decide, 0x300014, hv₁, rfl⟩
  · exact ⟨trivial, by decide, ⟨_, hv₂⟩, rfl⟩
  · exact ⟨Finset.mem_singleton_self _, by decide, hv₃, rfl⟩
  · exact ⟨trivial, hlt, 0x300014, hv₄, rfl⟩
  · rcases hp.ends hpass with ⟨t, -, hok, -⟩ | ⟨t, -, herr⟩
    · rw [hfail] at hok
      cases hok
    · rw [hfail] at herr
      injection herr with he
      exact absurd he (by decide)

/-- With the page directory at `0x10C000`, a request for `0xFFE0BFE8` bytes; and for any other
layout the one that is as much further up as the directory. -/
theorem vbrk_fails_to_map :
    (∃ x y₁ y₂ y₃ y₄ s', WalkStart Image.linked x ∧
      Trace (BrkStep Image.linked) x [(.vmalloc 0xFFFFFFF8, y₁), (.vbrk 0x400000, y₂),
        (.vfree 0x300014, y₃), (.vmalloc 0xFFE0BFE8, y₄)] ∧
      vbrk Image.linked 0x400001 y₄.st = .error (.panic "vbrk: failed to map page\n" []) s' ∧
      ¬ VbrkPrecise Image.linked y₄.st 0x400001) ∧
    ∀ img : Image, ∃ x y₁ y₂ y₃ y₄, WalkStart img x ∧
      Trace (BrkStep img) x [(.vmalloc 0xFFFFFFF8, y₁), (.vbrk 0x400000, y₂), (.vfree 0x300014, y₃),
        (.vmalloc (sub32 (img.pageDirectory - 4) 0x300014), y₄)] ∧
      ¬ VbrkPrecise img y₄.st 0x400001 := by
  refine ⟨vbrk_split_fails Image.linked, fun img => ?_⟩
  have hsize : sub32 (img.pageDirectory - 4) 0x300014 = overRequest img := by
    have := img.pdHi
    have := img.pdLo
    unfold sub32 overRequest
    omega
  obtain ⟨x, y₁, y₂, y₃, y₄, -, hx, ht, -, hno⟩ := vbrk_split_fails img
  rw [hsize]
  exact ⟨x, y₁, y₂, y₃, y₄, hx, ht, hno⟩

end Kfs
