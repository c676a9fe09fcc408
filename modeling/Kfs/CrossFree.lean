import Kfs.KHeapRun
import Kfs.VmemRun
import Kfs.FrameRun

/-!
# Pointers of one allocator given to the other

`kheap.c` and `vmem.c` work on different regions, so each keeps the other's list
(`HeapRep.frame`, `VmemInv.frame`). Their headers differ, 16 bytes and 20, but
both put `free`, `magic` and `next` last, and both use the same two magics. So
`kfree` reads a `vmem_block_t` as allocated exactly when `vfree` does, and the
other way round: it marks the other allocator's block freed, where it should
refuse a pointer it never returned.
-/

namespace Kfs

open Kfs.Lib

variable {img : Image}

/-! ## The two regions -/

theorem HeapRep.frame {s s' : State Flat} {bs : List Blk} (h : HeapRep s bs) {u : Nat}
    (hk : s'.kheap = { s.kheap with heapUsed := u })
    (hd : SameOff (fun a => a < kheapStart ∨ kheapEnd < a) s.mem.data s'.mem.data) :
    HeapRep s' bs where
  base := by
    rw [hk]
    exact h.base
  size := by
    rw [hk]
    exact h.size
  start := by
    rw [hk]
    exact h.start
  list := by
    refine h.list.frame fun b hb x h1 h2 => hd x ?_
    have hbnd := h.bounds hb
    have h1 : b.addr ≤ x := h1
    have h2 : x < b.addr + 16 := h2
    simp only [kheapStart, kheapEnd]
    omega
  tiled := h.tiled
  align := h.align

theorem VmemInv.frame {s s' : State Flat} {bs : List VBlk} (h : VmemInv flatData s bs)
    (hv : s'.vmem = s.vmem) (hd : SameOff (· < kvmemStart) s.mem.data s'.mem.data) :
    VmemInv flatData s' bs := by
  obtain ⟨h1, h2, h3, h4, h5⟩ := id h
  refine ⟨?_, ?_, ?_, ?_, ?_⟩ <;> rw [hv]
  · refine h1.frame fun b hb x hx _ => hd x ?_
    have hbnd := h.mem hb
    have hx : b.addr ≤ x := hx
    simp only [kvmemStart]
    omega
  · exact h2
  · exact h3
  · exact h4
  · exact h5

theorem HeapRep.inHeader {s : State Flat} {bs : List Blk} (h : HeapRep s bs) {x : Nat}
    (hx : InHeader bs x) : kheapStart ≤ x ∧ x ≤ kheapEnd := by
  obtain ⟨b, hb, h1, h2⟩ := hx
  have := h.bounds hb
  simp only [kheapStart, kheapEnd]
  omega

theorem VmemInv.inHeader {s : State Flat} {bs : List VBlk} (h : VmemInv flatData s bs) {x : Nat}
    (hx : InVHeader bs x) : kvmemStart ≤ x ∧ x < s.vmem.vmemCurrent := by
  obtain ⟨b, hb, h1, h2⟩ := hx
  have := h.mem hb
  simp only [kvmemStart]
  omega

/-! ## The other allocator's block -/

/-- **`kfree` of a block that `vmalloc` handed out** marks it freed, and coalesces the
kernel heap. -/
theorem kfree_vmem {s : State Flat} {bs : List Blk} {pre post : List VBlk} {b : VBlk}
    (hh : HeapRep s bs) (hv : VmemInv flatData s (pre ++ b :: post)) (hf : b.free = false) :
    ∃ s', kfree (b.addr + 20) s = .ok () s' ∧ HeapRep s' (coalesce 16 bs) ∧
      VmemInv flatData s' (pre ++ b.release :: post) ∧ s'.vmem = s.vmem ∧
      SameOff (fun x => InHeader bs x ∨ InVHeader [b] x) s.mem.data s'.mem.data ∧
      load32 s'.mem.data (b.addr + 12) = magicFreed ∧
      (b.addr % 4 = 0 → InertStores magicAllocated s.mem.data s'.mem.data) := by
  have hbnd := hv.mem (b := b) (by simp)
  have hmagic : load32 s.mem.data (b.addr + 12) = magicAllocated :=
    (hv.list.holds b (by simp)).2.2.1 hf
  -- the two headers agree from `free` on
  have hmark : marked s.mem.data (b.addr + 4) = vmarked s.mem.data b.addr := rfl
  have hsame := vmarked_same s.mem.data b.addr
  have heq := kfree_eq (s := s) (a := b.addr + 4) (by omega) rfl hmagic rfl
  obtain ⟨u, hu⟩ : ∃ u, u = sub32 s.kheap.heapUsed (add32 (load32 s.mem.data (b.addr + 4)) 16) :=
    ⟨_, rfl⟩
  rw [hmark, ← hu] at heq
  have hrep : HeapRep { s.setData (vmarked s.mem.data b.addr) with
      kheap := { s.kheap with heapUsed := u } } bs := by
    refine hh.frame rfl (hsame.mono fun x hx => ?_)
    simp only [kheapStart, kheapEnd]
    omega
  obtain ⟨m, hr, hrep', -, hsame', hstores⟩ := kmerge_rep hrep
  have hsame' : SameOff (InHeader bs) (vmarked s.mem.data b.addr) m :=
    SameOff.mono hsame' fun x hx => hx.inHeader
  have hstores : InertStores magicAllocated (vmarked s.mem.data b.addr) m := hstores
  refine ⟨_, heq.trans hr, hrep', ?_, rfl, ?_, ?_, fun ha => (vmarked_stores _ ha).trans hstores⟩
  · refine VmemInv.frame (show VmemInv flatData (s.setData (vmarked s.mem.data b.addr)) _ from
      hv.mark) rfl (hsame'.mono fun x hx => ?_)
    have := hh.inHeader hx
    simp only [kheapEnd, kvmemStart] at *
    omega
  · refine (hsame.mono fun x hx => .inr ⟨b, by simp, hx.1, hx.2⟩).trans ?_
    exact hsame'.mono fun x hx => .inl hx
  · show load32 m (b.addr + 12) = magicFreed
    rw [hsame'.load32 fun x h1 h2 hx => ?_]
    · exact load32_store32 (by decide)
    · have := hh.inHeader hx
      simp only [kheapEnd] at this
      omega

theorem vfree_flat {s : State Flat} {a : Nat} (ha : a + 20 < 2 ^ 32)
    (hm : load32 s.mem.data (a + 12) = vmemMagicAllocated) :
    vfree (a + 20) s = vfreeMerge (s.setData (vmarked s.mem.data a)) := by
  have hblk : sub32 (a + 20) vmemHeader = a := by
    simp only [sub32, vmemHeader]
    omega
  unfold vfree
  simp only [show a + 20 ≠ 0 by omega, ↓reduceIte, hblk]
  rw [bind_of_ok (ld_flat (by omega) s), hm]
  simp only [show vmemMagicAllocated ≠ vmemMagicFreed by decide, ↓reduceIte, ne_eq,
    not_true_eq_false]
  rw [bind_of_ok (st_flat (by omega) _ _), bind_of_ok (st_flat (by omega) _ _)]
  rfl

/-- With no list, the merge of `vfree` works on the words at a null pointer. -/
theorem vfreeMerge_null {s : State Flat} (h : s.vmem.vmemList = 0) :
    ∃ d, vfreeMerge s = .ok () (s.setData d) ∧ SameOff (· < 0x1000) s.mem.data d := by
  obtain ⟨next, hnext⟩ : ∃ next, next = load32 s.mem.data 16 := ⟨_, rfl⟩
  have hnext32 : next < 2 ^ 32 := hnext ▸ load32_lt _ _
  have hfree : andThen (do return (← ld (0 + 8)) ≠ 0) (do return (← ld (next + 8)) ≠ 0) s =
      .ok (decide (load32 s.mem.data 8 ≠ 0) &&
        decide (load32 s.mem.data ((next + 8) % 2 ^ 32) ≠ 0)) s :=
    andThen_pure rfl fun _ => rfl
  unfold vfreeMerge
  rw [get_bind_apply, h, bind_of_ok (ld_flat (by decide) s), bind_of_ok (ld_flat (by decide) s),
    ← hnext, bind_of_ok hfree]
  split
  · refine ⟨_, rfl, ?_⟩
    exact ((SameOff.refl _ _).store32 fun x _ _ => by omega).store32 fun x _ _ => by omega
  · exact ⟨s.mem.data, rfl, SameOff.refl _ _⟩

/-- **The merge of `vfree`** on any list. -/
theorem vfreeMerge_flat {s : State Flat} {vs : List VBlk} (h : VmemInv flatData s vs) :
    ∃ d, vfreeMerge s = .ok () (s.setData d) ∧ VmemInv flatData (s.setData d) (vmerge vs) ∧
      SameOff (fun x => x < 0x1000 ∨ InVHeader vs x) s.mem.data d ∧
      ((∀ b ∈ vs, b.addr % 4 = 0) → ∃ d', InertStores vmemMagicAllocated s.mem.data d' ∧
        SameOff (· < 0x1000) d' d) := by
  by_cases hvs : vs = []
  · subst hvs
    obtain ⟨d, hr, hsame⟩ := vfreeMerge_null (show s.vmem.vmemList = 0 from h.list)
    refine ⟨d, hr, VmemInv.frame (s := s) h rfl (hsame.mono fun x hx => ?_),
      hsame.mono fun x hx => .inl hx, fun _ => ⟨_, .refl, hsame⟩⟩
    simp only [kvmemStart]
    omega
  · obtain ⟨d, hr, hinv, hsame, hstores⟩ := vfreeMerge_spec flatData_isData h
      (flatData_plain _ _) hvs
    exact ⟨d, hr, hinv, hsame.mono fun x hx => .inr hx, fun hal =>
      ⟨d, hstores hal, SameOff.refl _ _⟩⟩

/-- **`vfree` of a block that `kmalloc` handed out** marks it freed, and merges at the head
of its own list. -/
theorem vfree_heap {s : State Flat} {vs : List VBlk} {pre post : List Blk} {b : Blk}
    (hh : HeapRep s (pre ++ b :: post)) (hv : VmemInv flatData s vs) (hf : b.free = false) :
    ∃ d, vfree (b.addr + 16) s = .ok () (s.setData d) ∧
      HeapRep (s.setData d) (pre ++ b.release :: post) ∧
      VmemInv flatData (s.setData d) (vmerge vs) ∧
      SameOff (fun x => x < 0x1000 ∨ InHeader [b] x ∨ InVHeader vs x) s.mem.data d ∧
      load32 d (b.addr + 8) = magicFreed ∧
      ((∀ c ∈ vs, c.addr % 4 = 0) → ∃ d', InertStores magicAllocated s.mem.data d' ∧
        SameOff (· < 0x1000) d' d) := by
  have hbnd := hh.bounds (b := b) (by simp)
  have hb8 := hh.addr_mod (b := b) (by simp)
  obtain ⟨a, ha⟩ : ∃ a, b.addr = a + 4 := ⟨b.addr - 4, by omega⟩
  have hmagic : load32 s.mem.data (b.addr + 8) = vmemMagicAllocated :=
    (hh.list.holds b (by simp)).2.2 hf
  rw [ha] at hmagic
  have hfree := vfree_flat (s := s) (a := a) (by omega) hmagic
  have hmark : vmarked s.mem.data a = marked s.mem.data b.addr := by
    rw [ha]
    rfl
  rw [hmark] at hfree
  obtain ⟨hrep, hsame⟩ := hh.mark s.kheap.heapUsed
  have hv' : VmemInv flatData (s.setData (marked s.mem.data b.addr)) vs := by
    refine hv.frame rfl (hsame.mono ?_)
    rintro x ⟨c, hc, h1, h2⟩
    rw [List.mem_singleton] at hc
    subst hc
    simp only [kvmemStart]
    omega
  obtain ⟨d, hr, hinv, hsame', hstores⟩ := vfreeMerge_flat hv'
  have hsame' :
      SameOff (fun x => x < 0x1000 ∨ InVHeader vs x) (marked s.mem.data b.addr) d := hsame'
  have hoff : ∀ {x}, x < 0x1000 ∨ InVHeader vs x → x < kheapStart ∨ kheapEnd < x := by
    rintro x (hx | hx)
    · simp only [kheapStart]
      omega
    · have := hv.inHeader hx
      simp only [kvmemStart, kheapEnd] at *
      omega
  refine ⟨d, ?_, ?_, hinv, ?_, ?_, fun hal => ?_⟩
  · rw [show b.addr + 16 = a + 20 by omega, hfree]
    exact hr
  · exact HeapRep.frame hrep (u := s.kheap.heapUsed) rfl (hsame'.mono fun x hx => hoff hx)
  · exact (hsame.mono fun x hx => .inr (.inl hx)).trans
      (hsame'.mono fun x hx => hx.imp_right .inr)
  · rw [hsame'.load32 fun x h1 h2 hx => ?_]
    · exact marked_magic _ _
    · have := hoff hx
      simp only [kheapStart, kheapEnd] at this
      omega
  · obtain ⟨d', h1, h2⟩ := hstores hal
    exact ⟨d', (marked_stores _ (by omega)).trans h1, h2⟩

/-! ## Runs of both allocators -/

/-- The kernel's state and the pointers that clients hold of each allocator. -/
structure AllocSys where
  st : State Flat
  klive : Finset Nat
  vlive : Finset Nat

/-- What a client can do. -/
inductive AllocOp where
  | heap (op : HeapOp)
  | kbrk (a : Nat)
  | vmalloc (n : Nat)
  | vfree (p : Nat)
  | vbrk (a : Nat)
  /-- Write `v` to address `a` of the `vmalloc` payload at `p`. -/
  | write (p a : Nat) (v : BitVec 8)

/-- The end of the region that `vmalloc` computes for `n` bytes does not wrap around. -/
def NoWrap (s : State Flat) (n : Nat) : Prop := s.vmem.vmemCurrent + round8 n + 4115 < 2 ^ 32

variable (img) in
def AllocStep (x : AllocSys) : AllocOp → AllocSys → Prop
  | .heap op, y => HeapStep ⟨x.st, x.klive⟩ op ⟨y.st, y.klive⟩ ∧ y.vlive = x.vlive
  | .kbrk a, y => (∃ r, kbrk a x.st = .ok r y.st) ∧ y.klive = x.klive ∧ y.vlive = x.vlive
  | .vmalloc n, y => n < 2 ^ 32 ∧ NoWrap x.st n ∧ (∃ p, vmalloc img n x.st = .ok p y.st ∧
      y.vlive = if p = 0 then x.vlive else insert p x.vlive) ∧ y.klive = x.klive
  | .vfree p, y => VmemStep img ⟨x.st, x.vlive⟩ (.vfree p) ⟨y.st, y.vlive⟩ ∧ y.klive = x.klive
  | .vbrk a, y => VmemStep img ⟨x.st, x.vlive⟩ (.vbrk a) ⟨y.st, y.vlive⟩ ∧ y.klive = x.klive
  | .write p a v, y =>
      VmemStep img ⟨x.st, x.vlive⟩ (.write p a v) ⟨y.st, y.vlive⟩ ∧ y.klive = x.klive

variable (img) in
def AllocStart (x : AllocSys) : Prop :=
  ∃ m, memoryInit img pmmMaxBytes (State.boot m) = .ok () x.st ∧ x.klive = ∅ ∧ x.vlive = ∅

variable (img) in
/-- **The run invariant** of both allocators. -/
def AllocOk (x : AllocSys) : Prop :=
  ∃ bs vs, HeapInv x.st bs ∧ LiveOf x.klive bs ∧ VmemOk img ⟨x.st, x.vlive⟩ vs

theorem AllocStart.ok {x : AllocSys} (h : AllocStart img x) : AllocOk img x := by
  obtain ⟨s, klive, vlive⟩ := x
  obtain ⟨m, hr, rfl, rfl⟩ := h
  obtain ⟨s', hr', hboot⟩ := memoryInit_spec img m
  rw [hr'] at hr
  injection hr with _ hs
  subst hs
  exact ⟨_, _, hboot.heap, fun p => by simp [wholeHeap], hboot.vmemOk⟩

theorem HeapStep.off_vmem {x y : HeapSys} {op : HeapOp} {bs : List Blk} (h : HeapInv x.st bs)
    (hl : LiveOf x.live bs) (hs : HeapStep x op y) :
    SameTables x.st y.st ∧ SameOff (· < kvmemStart) x.st.mem.data y.st.mem.data := by
  have htables : SameTables x.st y.st := by
    cases op with
    | kmalloc n =>
      obtain ⟨-, p, hr, -⟩ := hs
      exact kmalloc_sameTables n _ _ _ hr
    | kfree p => exact kfree_sameTables p _ _ _ hs.2.1
    | write p a v =>
      rw [hs.2.2.2.1]
      exact ⟨rfl, rfl, rfl⟩
  refine ⟨htables, ?_⟩
  obtain ⟨bs', hedit, -, -⟩ := heapStep_edit h hl hs
  cases hedit with
  | nothing hst => exact hst ▸ SameOff.refl _ _
  | @serve pre post b n _ _ _ _ hsame =>
    refine hsame.mono fun x hx => ?_
    have := h.bounds (b := b) (by simp)
    simp only [kvmemStart]
    omega
  | release _ _ hsame =>
    refine hsame.mono fun x hx => ?_
    have := h.rep.inHeader hx
    simp only [kheapEnd, kvmemStart] at *
    omega
  | @write bs b a v hb _ _ h2 hst =>
    have := h.bounds hb
    rw [hst]
    refine fun x hx => storeByte_other ?_
    simp only [kvmemStart] at hx
    omega

theorem kbrk_heapUsed {s s' : State Flat} {a r : Nat} (h : kbrk a s = .ok r s') :
    ∃ u, s' = { s with kheap := { s.kheap with heapUsed := u } } := by
  unfold kbrk at h
  rw [get_bind_apply] at h
  dsimp only at h
  split at h
  · cases h
    exact ⟨_, rfl⟩
  · split at h
    · cases h
      exact ⟨_, rfl⟩
    · cases h
      exact ⟨_, rfl⟩

theorem HeapInv.off_heap {s s' : State Flat} {bs : List Blk} {u : Nat} (h : HeapInv s bs)
    (hk : s'.kheap = { s.kheap with heapUsed := u })
    (hd : SameOff (kvmemStart ≤ ·) s.mem.data s'.mem.data) : HeapInv s' bs := by
  refine (h.rep.frame (u := u) hk (hd.mono fun x hx => .inr ?_)).inv h.coalesced
  simp only [kvmemStart, kheapEnd] at *
  omega

/-- **A step outside the kernel heap** leaves its memory alone. -/
theorem AllocStep.off_heap {x y : AllocSys} {op : AllocOp} {vs : List VBlk}
    (hv : VmemOk img ⟨x.st, x.vlive⟩ vs) (hs : AllocStep img x op y) (hop : ∀ o, op ≠ .heap o) :
    y.klive = x.klive ∧ (∃ u, y.st.kheap = { x.st.kheap with heapUsed := u }) ∧
      SameOff (kvmemStart ≤ ·) x.st.mem.data y.st.mem.data := by
  obtain ⟨s', klive', vlive'⟩ := y
  cases op with
  | heap op => exact absurd rfl (hop op)
  | kbrk a =>
    obtain ⟨⟨r, hr⟩, rfl, -⟩ := hs
    obtain ⟨u, hst⟩ := kbrk_heapUsed hr
    have hst : s' = _ := hst
    subst hst
    exact ⟨rfl, ⟨u, rfl⟩, SameOff.refl _ _⟩
  | vmalloc n =>
    obtain ⟨-, hwrap, ⟨p, hr, -⟩, rfl⟩ := hs
    by_cases hn : n = 0
    · subst hn
      cases hr
      exact ⟨rfl, ⟨_, rfl⟩, SameOff.refl _ _⟩
    obtain ⟨pre, b, post, rfl, -, -, rfl, rfl, -⟩ | ⟨-, rfl, k, hx, -⟩ :=
      hv.vmalloc_cases hn hwrap hr
    · refine ⟨rfl, ⟨_, rfl⟩, vserved_same.mono fun x hx => ?_⟩
      have hbnd := hv.list.mem (b := b) (by simp)
      have := VBlk.serve_header hx
      simp only [kvmemStart]
      omega
    · refine ⟨rfl, ⟨_, hx.kheap⟩, hx.same.mono fun x hx => ?_⟩
      rcases hx with hx | hx
      · exact hv.list.lo.trans hx.1
      · exact (hv.list.inHeader hx).1
  | vfree p =>
    obtain ⟨⟨hp, hr, -⟩, rfl⟩ := hs
    obtain ⟨b, hb, hf, rfl⟩ := hv.live p hp
    obtain ⟨pre, post, rfl⟩ := List.append_of_mem hb
    obtain ⟨d, hd, -, hsame, -⟩ := vfree_spec flatData_isData hv.list (flatData_plain _ _) hf
    rw [hd] at hr
    injection hr with _ hs
    subst hs
    exact ⟨rfl, ⟨_, rfl⟩, hsame.mono fun x hx => (hv.list.inHeader hx).1⟩
  | vbrk a =>
    obtain ⟨⟨-, ⟨r, hr⟩, -⟩, rfl⟩ := hs
    have hg := vbrk_frames hv.frames hr
    refine ⟨rfl, ⟨_, hg.kheap⟩, ?_⟩
    show SameOff _ x.st.mem.data s'.mem.data
    rw [show s'.mem.data = x.st.mem.data from hg.data]
    exact SameOff.refl _ _
  | write p a v =>
    obtain ⟨⟨hp, h1, h2, hst, -⟩, rfl⟩ := hs
    have hst : s' = x.st.setData (storeByte x.st.mem.data a v) := hst
    subst hst
    refine ⟨rfl, ⟨_, rfl⟩, fun z hz => storeByte_other ?_⟩
    obtain ⟨b, hb, -, rfl⟩ := hv.live p hp
    have hbnd := hv.list.mem hb
    simp only [kvmemStart] at hz
    have h1 : b.addr + 20 ≤ a := h1
    omega

/-- **Every step** keeps the invariant. -/
theorem AllocStep.ok {x y : AllocSys} {op : AllocOp} (h : AllocOk img x)
    (hs : AllocStep img x op y) : AllocOk img y := by
  obtain ⟨bs, vs, hh, hl, hv⟩ := h
  -- outside the heap only the `vmalloc` half is left to show
  have hrest : (∀ o, op ≠ .heap o) → (∃ vs', VmemOk img ⟨y.st, y.vlive⟩ vs') → AllocOk img y := by
    rintro hop ⟨vs', hv'⟩
    obtain ⟨hk, ⟨u, hu⟩, hd⟩ := hs.off_heap hv hop
    exact ⟨bs, vs', hh.off_heap hu hd, hk ▸ hl, hv'⟩
  obtain ⟨s', klive', vlive'⟩ := y
  cases op with
  | heap op =>
    obtain ⟨hs, rfl⟩ := hs
    obtain ⟨bs', -, hh', hl'⟩ := heapStep_edit (x := ⟨x.st, x.klive⟩) hh hl hs
    obtain ⟨⟨hpmm, htab, hvmem⟩, hsame⟩ := hs.off_vmem hh hl
    refine ⟨bs', vs, hh', hl', ?_, hv.list.frame hvmem hsame, hv.live⟩
    show FrameInv img s' s'.vmem.vmemCurrent
    rw [show s'.vmem = x.st.vmem from hvmem]
    exact hv.frames.congr hpmm htab
  | kbrk a =>
    refine hrest (fun _ h => by cases h) ⟨vs, ?_⟩
    obtain ⟨⟨r, hr⟩, -, rfl⟩ := hs
    obtain ⟨u, hst⟩ := kbrk_heapUsed hr
    have hst : s' = _ := hst
    subst hst
    exact ⟨hv.frames.congr rfl rfl, hv.list.frame rfl (SameOff.refl _ _), hv.live⟩
  | vmalloc n =>
    refine hrest (fun _ h => by cases h) ?_
    obtain ⟨-, hwrap, ⟨p, hr, rfl⟩, -⟩ := hs
    by_cases hn : n = 0
    · subst hn
      cases hr
      exact ⟨vs, hv⟩
    obtain ⟨pre, b, post, rfl, -, -, rfl, rfl, hok⟩ | ⟨-, rfl, k, hx, hok⟩ :=
      hv.vmalloc_cases hn hwrap hr
    · rw [if_neg (by omega)]
      exact ⟨_, hok⟩
    · rw [if_neg (by omega)]
      exact ⟨_, hok⟩
  | vfree p =>
    refine hrest (fun _ h => by cases h) ?_
    obtain ⟨⟨hp, hr, rfl⟩, -⟩ := hs
    obtain ⟨_, _, _, -, -, -, hok⟩ := hv.vfree hp hr
    exact ⟨_, hok⟩
  | vbrk a =>
    refine hrest (fun _ h => by cases h) ⟨vs, ?_⟩
    obtain ⟨⟨-, ⟨r, hr⟩, rfl⟩, -⟩ := hs
    have hg := vbrk_frames hv.frames hr
    exact ⟨hg.frames, hv.list.grown hg, hv.live⟩
  | write p a v =>
    refine hrest (fun _ h => by cases h) ⟨vs, ?_⟩
    obtain ⟨⟨hp, h1, h2, hst, rfl⟩, -⟩ := hs
    have hst : s' = x.st.setData (storeByte x.st.mem.data a v) := hst
    subst hst
    exact hv.write hp h1 h2

theorem allocReach_ok {x : AllocSys} (h : Reach (AllocStart img) (AllocStep img) x) :
    AllocOk img x :=
  Reach.inv (fun _ hs => hs.ok) (fun _ _ _ hI hs => hs.ok hI) h

/-! ## What each free accepts -/

/-- A call that panics and changes nothing. -/
def Refuses (s : State Flat) (c : K Flat Unit) : Prop :=
  ∃ fmt args, c s = .error (.panic fmt args) s

/-- Each allocator refuses the live pointers of the other. -/
def KeepsApart (x : AllocSys) : Prop :=
  (∀ p ∈ x.vlive, Refuses x.st (kfree p)) ∧ ∀ q ∈ x.klive, Refuses x.st (vfree q)

/-- A call that returns, having marked the block of `p` freed. -/
def Frees (s : State Flat) (p : Nat) (c : K Flat Unit) : Prop :=
  load32 s.mem.data (p - 8) = magicAllocated ∧
    ∃ s', c s = .ok () s' ∧ load32 s'.mem.data (p - 8) = magicFreed

theorem Frees.not_refuses {s : State Flat} {p : Nat} {c : K Flat Unit} (h : Frees s p c) :
    ¬ Refuses s c := by
  rintro ⟨fmt, args, hr⟩
  obtain ⟨-, s', hr', -⟩ := h
  rw [hr'] at hr
  cases hr

/-- **The allocators do not keep their pointers apart.** In every reachable state `kfree`
frees every live pointer of `vmalloc` and `vfree` every live pointer of
`kmalloc`; so they keep them apart only where none is live. -/
theorem allocators_apart {x : AllocSys} (h : Reach (AllocStart img) (AllocStep img) x) :
    (∀ p ∈ x.vlive, Frees x.st p (kfree p)) ∧ (∀ q ∈ x.klive, Frees x.st q (vfree q)) ∧
      (KeepsApart x ↔ x.vlive = ∅ ∧ x.klive = ∅) := by
  obtain ⟨bs, vs, hh, hl, hv⟩ := allocReach_ok h
  have hk : ∀ p ∈ x.vlive, Frees x.st p (kfree p) := by
    intro p hp
    obtain ⟨b, hb, hf, rfl⟩ := hv.live p hp
    have hmagic := (hv.list.list.holds b hb).2.2.1 hf
    obtain ⟨pre, post, rfl⟩ := List.append_of_mem hb
    obtain ⟨s', hr, -, -, -, -, hfreed, -⟩ := kfree_vmem hh.rep hv.list hf
    rw [Frees, show b.addr + 20 - 8 = b.addr + 12 by omega]
    exact ⟨hmagic, s', hr, hfreed⟩
  have hq : ∀ q ∈ x.klive, Frees x.st q (vfree q) := by
    intro q hq
    obtain ⟨b, hb, hf, rfl⟩ := (hl q).mp hq
    have hmagic := hh.header_magic hb hf
    obtain ⟨pre, post, rfl⟩ := List.append_of_mem hb
    obtain ⟨d, hr, -, -, -, hfreed, -⟩ := vfree_heap hh.rep hv.list hf
    rw [Frees, show b.addr + 16 - 8 = b.addr + 8 by omega]
    exact ⟨hmagic, _, hr, hfreed⟩
  refine ⟨hk, hq, fun hap => ?_, fun ⟨h1, h2⟩ => ?_⟩
  · constructor
    · exact Finset.eq_empty_of_forall_notMem fun p hp => (hk p hp).not_refuses (hap.1 p hp)
    · exact Finset.eq_empty_of_forall_notMem fun q hq' => (hq q hq').not_refuses (hap.2 q hq')
  · constructor
    · simp [h1]
    · simp [h2]

theorem allocRun_vmalloc : ∃ x : AllocSys,
    Reach (AllocStart Image.readme) (AllocStep Image.readme) x ∧ x.vlive = {0x300014} ∧
      x.klive = ∅ := by
  obtain ⟨s, hr, hboot⟩ := memoryInit_spec Image.readme Flat.blank
  obtain ⟨s', hv⟩ := vmalloc_first hboot
  have hwrap : NoWrap s 100 := hboot.vmemOk.no_wrap (by decide)
  have hx : Reach (AllocStart Image.readme) (AllocStep Image.readme) ⟨s', ∅, insert 0x300014 ∅⟩ :=
    .step (i := .vmalloc 100) (.init (s := ⟨s, ∅, ∅⟩) ⟨_, hr, rfl, rfl⟩)
      ⟨by decide, hwrap, ⟨_, hv, rfl⟩, rfl⟩
  exact ⟨_, hx, rfl, rfl⟩

/-- The pointer of a first `vmalloc(100)` is freed by `kfree`. -/
theorem allocators_apart_first : ∃ x : AllocSys,
    Reach (AllocStart Image.readme) (AllocStep Image.readme) x ∧ x.vlive = {0x300014} ∧
      Frees x.st 0x300014 (kfree 0x300014) := by
  obtain ⟨x, hx, hvl, -⟩ := allocRun_vmalloc
  refine ⟨x, hx, hvl, (allocators_apart hx).1 _ ?_⟩
  rw [hvl]
  exact Finset.mem_singleton_self _

/-- So the allocators do not keep their pointers apart there. -/
theorem kfree_frees_vmalloc : ∃ x : AllocSys,
    Reach (AllocStart Image.readme) (AllocStep Image.readme) x ∧ x.vlive = {0x300014} ∧
      (∃ s', kfree 0x300014 x.st = .ok () s') ∧ ¬ KeepsApart x := by
  obtain ⟨x, hx, hvl, -⟩ := allocRun_vmalloc
  obtain ⟨bs, vs, hh, hl, hv⟩ := allocReach_ok hx
  have hp : (0x300014 : Nat) ∈ x.vlive := by
    rw [hvl]
    exact Finset.mem_singleton_self _
  obtain ⟨b, hb, hf, hpb⟩ := hv.live _ hp
  obtain ⟨pre, post, rfl⟩ := List.append_of_mem hb
  obtain ⟨s', hr, -⟩ := kfree_vmem hh.rep hv.list hf
  rw [← hpb] at hr
  refine ⟨x, hx, hvl, ⟨s', hr⟩, fun hap => ?_⟩
  obtain ⟨fmt, args, herr⟩ := hap.1 _ hp
  rw [hr] at herr
  cases herr

end Kfs
