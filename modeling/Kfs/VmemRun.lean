import Kfs.Frames
import Kfs.VmemSpec
import Kfs.Lib.Runs

/-!
# Runs of `vmalloc`

A run starts after `memory_init` and makes calls of `vmalloc`, of `vfree` on live
pointers and of `vbrk`, and client writes inside live payloads. Through all of
it the list ascends, its blocks do not overlap, and every live pointer is that
of a used block.
-/

namespace Kfs

open Kfs.Lib

/-- The words of a `vmem_block_t`, without `capacity` and `next`. -/
structure VHeader where
  addr : Nat
  size : Nat
  free : Nat
  magic : Nat
  deriving DecidableEq, Repr

def vHeaderAt (m : Mem) (a : Nat) : VHeader := ⟨a, load32 m a, load32 m (a + 8), load32 m (a + 12)⟩

/-- Following `next` from `p` meets the headers `hs` and then null. -/
def VBlocks (m : Mem) (p : Nat) (hs : List VHeader) : Prop :=
  ∃ as, Follows m 16 p as ∧ hs = as.map (vHeaderAt m)

/-- The kernel's state and the pointers that clients hold. -/
structure VmemSys (M : Type) where
  st : State M
  live : Finset Nat

/-- What a client can do. -/
inductive VmemOp where
  | vmalloc (n : Nat)
  | vfree (p : Nat)
  | vbrk (a : Nat)
  /-- Write `v` to address `a` of the payload at `p`. -/
  | write (p a : Nat) (v : BitVec 8)

/-- The recorded size of the block whose payload is at `p`. -/
def VmemSys.sizeOf (x : VmemSys Flat) (p : Nat) : Nat := load32 x.st.mem.data (p - 20)

variable (img : Image)

def VmemStep (x : VmemSys Flat) : VmemOp → VmemSys Flat → Prop
  | .vmalloc n, y => 1 ≤ n ∧ n ≤ 0x300000 ∧ ∃ p, vmalloc img n x.st = .ok p y.st ∧
      y.live = insert p x.live
  | .vfree p, y => p ∈ x.live ∧ vfree p x.st = .ok () y.st ∧ y.live = x.live.erase p
  | .vbrk a, y => a < 2 ^ 32 ∧ (∃ r, vbrk img a x.st = .ok r y.st) ∧ y.live = x.live
  | .write p a v, y => p ∈ x.live ∧ p ≤ a ∧ a < p + x.sizeOf p ∧
      y.st = x.st.setData (storeByte x.st.mem.data a v) ∧ y.live = x.live

def VmemStart (x : VmemSys Flat) : Prop :=
  ∃ m, memoryInit img pmmMaxBytes (State.boot m) = .ok () x.st ∧ x.live = ∅

/-- Every live pointer is that of a used block. -/
def VLive (live : Finset Nat) (bs : List VBlk) : Prop :=
  ∀ p ∈ live, ∃ b ∈ bs, b.free = false ∧ p = b.addr + 20

/-- **The run invariant.** -/
structure VmemOk (x : VmemSys Flat) (bs : List VBlk) : Prop where
  frames : FrameInv img x.st x.st.vmem.vmemCurrent
  list : VmemInv flatData x.st bs
  live : VLive x.live bs

variable {img}

theorem Booted.vmemOk {s : State Flat} (h : Booted img s) : VmemOk img ⟨s, ∅⟩ [] := by
  refine ⟨?_, ⟨?_, ⟨.nil, by simp, by simp, .nil, by simp⟩, ?_, ?_, ?_⟩, by simp [VLive]⟩
  · show FrameInv img s s.vmem.vmemCurrent
    rw [h.vmem]
    exact h.frameInv
  · show s.vmem.vmemList = 0
    rw [h.vmem]
  · show kvmemStart ≤ s.vmem.vmemCurrent
    rw [h.vmem]
  · show s.vmem.vmemCurrent ≤ 0xC00000
    rw [h.vmem]
    decide
  · show s.vmem.vmemCurrent % 4096 = 0
    rw [h.vmem]
    rfl

theorem VmemStart.ok {x : VmemSys Flat} (h : VmemStart img x) : VmemOk img x [] := by
  obtain ⟨s, live⟩ := x
  obtain ⟨m, hr, rfl⟩ := h
  obtain ⟨s', hr', hboot⟩ := memoryInit_spec img m
  rw [hr'] at hr
  injection hr with _ hs
  subst hs
  exact hboot.vmemOk

/-! ## Steps -/

theorem VLive.serve {live : Finset Nat} {pre post : List VBlk} {b : VBlk} {r : Nat}
    (h : VLive live (pre ++ b :: post)) (hb : b.free = true) :
    VLive (insert (b.addr + 20) live) (pre ++ b.serve r ++ post) := by
  intro p hp
  rcases Finset.mem_insert.mp hp with rfl | hp
  · have : ∃ c ∈ b.serve r, c.free = false ∧ b.addr + 20 = c.addr + 20 := by
      unfold VBlk.serve
      split <;> simp
    obtain ⟨c, hc, h1, h2⟩ := this
    exact ⟨c, by simp [hc], h1, h2⟩
  · obtain ⟨c, hc, h1, h2⟩ := h p hp
    refine ⟨c, mem_replaced _ hc ?_, h1, h2⟩
    rintro rfl
    rw [hb] at h1
    cases h1

theorem VLive.release {live : Finset Nat} {pre post : List VBlk} {b : VBlk}
    (h : VLive live (pre ++ b :: post)) :
    VLive (live.erase (b.addr + 20)) (vmerge (pre ++ b.release :: post)) := by
  intro p hp
  obtain ⟨hne, hp⟩ := Finset.mem_erase.mp hp
  obtain ⟨c, hc, h1, h2⟩ := h p hp
  refine ⟨c, (mem_vmerge_used h1).mpr (mem_replaced_one _ hc ?_), h1, h2⟩
  rintro rfl
  exact hne h2

theorem VmemInv.grown {s s' : State Flat} {bs : List VBlk} (h : VmemInv flatData s bs)
    (hg : Grown img s s') : VmemInv flatData s' bs where
  list := by
    have hv : flatData.view s' = flatData.view s := hg.data
    rw [hv, hg.list]
    exact h.list
  blocks := h.blocks.mono hg.le
  lo := h.lo.trans hg.le
  hi := by
    have := hg.frames.hi
    omega
  page := hg.frames.page

theorem vmallocMap_onlyTables (b e : Nat) :
    Keeps OnlyTables (vmallocMap img b e : K Flat Unit) := by
  refine .forUp onlyTables_frame (fun i => .bind onlyTables_frame pmmAllocPage_onlyTables
    fun phys => ?_) _ _
  have hmap : Keeps OnlyTables (do
      if (← vmmMapPage img (b + i * pageSize) phys pageWrite) ≠ 0 then
        kpanicFatal "vmalloc: failed to map page\n" [] : K Flat Unit) :=
    .bind onlyTables_frame (vmmMapPage_onlyTables img _ _ _) fun r =>
      .ite (.throw _) (.pure onlyTables_frame _)
  exact .ite (.bind onlyTables_frame (.throw _) fun _ => hmap) hmap

variable (img) in
/-- `vmalloc` of `r` bytes maps `k` fresh pages and appends their block. -/
structure VExpand (s s' : State Flat) (bs : List VBlk) (r k : Nat) : Prop where
  pages : k = vmemPages r
  room : r + 20 ≤ k * 4096
  inside : s.vmem.vmemCurrent + k * 4096 ≤ kvmemEnd
  mapped : ∃ s₁, vmallocMap img s.vmem.vmemCurrent (s.vmem.vmemCurrent + k * 4096) s = .ok () s₁ ∧
    s'.pmm = s₁.pmm ∧ s'.mem.table = s₁.mem.table
  kheap : s'.kheap = s.kheap
  current : s'.vmem.vmemCurrent = s.vmem.vmemCurrent + k * 4096
  data : s'.mem.data = vlinked (newHeader s.mem.data s.vmem.vmemCurrent r (k * 4096 - 20))
    (lastAddr 0 bs) s.vmem.vmemCurrent
  same : SameOff (fun x => s.vmem.vmemCurrent ≤ x ∧ x < s.vmem.vmemCurrent + 20 ∨ InVHeader bs x)
    s.mem.data s'.mem.data
  list : VmemInv flatData s' (bs ++ [⟨s.vmem.vmemCurrent, r, false, some (k * 4096 - 20)⟩])

/-- **What `vmalloc` can do** when its end does not wrap around: serve the first block that
fits, or append one of fresh pages. -/
theorem VmemInv.vmalloc_cases {s s' : State Flat} {bs : List VBlk} (h : VmemInv flatData s bs)
    {n p : Nat} (hn : n ≠ 0) (hwrap : s.vmem.vmemCurrent + round8 n + 4115 < 2 ^ 32)
    (hr : vmalloc img n s = .ok p s') :
    (∃ pre b post, bs = pre ++ b :: post ∧ (∀ c ∈ pre, ¬ c.Fits (round8 n)) ∧ b.Fits (round8 n) ∧
      p = b.addr + 20 ∧ s' = s.setData (vserved s.mem.data b.addr b.size (round8 n)) ∧
      VmemInv flatData s' (pre ++ b.serve (round8 n) ++ post)) ∨
    ((∀ c ∈ bs, ¬ c.Fits (round8 n)) ∧ p = s.vmem.vmemCurrent + 20 ∧
      ∃ k, VExpand img s s' bs (round8 n) k) := by
  have hplain := flatData_plain s.mem (vmemWindow s.vmem.vmemCurrent)
  rcases first_such (VBlk.Fits (round8 n)) bs with hfull | ⟨pre, b, post, rfl, hpre, hb⟩
  · -- fresh pages
    rw [vmalloc_full flatData_isData img h hplain hn hfull] at hr
    obtain ⟨k, e, s₁, hkp, hk, he, hlim, hmap, happ⟩ := vmallocExpand_ok hwrap hr
    subst he
    obtain ⟨q, t, hs₁⟩ := vmallocMap_onlyTables _ _ _ _ _ hmap
    have hinv₁ : VmemInv flatData s₁ bs := by
      rw [hs₁]
      obtain ⟨h1, h2, h3, h4, h5⟩ := h
      exact ⟨h1, h2, h3, h4, h5⟩
    have hv₁ : s₁.vmem = s.vmem := by rw [hs₁]
    have hd₁ : flatData.view s₁ = s.mem.data := by rw [hs₁]; rfl
    obtain ⟨s₂, happ', ⟨d, hmem, hpmm, hkheap, hd, hsame⟩, hcur, hinv₂⟩ :=
      vmemAppend_spec flatData_isData hinv₁
        (flatData_plain s₁.mem (vmemWindow (s.vmem.vmemCurrent + k * 4096)))
        (by rw [hv₁]) (by simp only [kvmemEnd] at hlim; omega) hk
    rw [happ'] at happ
    injection happ with hp hs
    subst hs
    rw [hv₁] at hp hd hsame hinv₂
    rw [hd₁] at hd hsame
    have hdata : s₂.mem.data = d := by rw [hmem]; rfl
    refine .inr ⟨hfull, hp.symm, k, hkp, hk, hlim, ⟨s₁, hmap, hpmm, by rw [hmem]; rfl⟩, ?_, hcur,
      hdata.trans hd, hdata ▸ hsame, hinv₂⟩
    rw [hkheap, hs₁]
  · obtain ⟨d, hv, hinv, rfl⟩ := vmalloc_hit flatData_isData img h hplain hn hpre hb
    rw [hv] at hr
    injection hr with hp hs
    subst hs hp
    exact .inl ⟨pre, b, post, rfl, hpre, hb, rfl, rfl, hinv⟩

theorem VmemOk.vmalloc_cases {x : VmemSys Flat} {bs : List VBlk} (h : VmemOk img x bs) {n p : Nat}
    {s' : State Flat} (hn : n ≠ 0) (hwrap : x.st.vmem.vmemCurrent + round8 n + 4115 < 2 ^ 32)
    (hr : vmalloc img n x.st = .ok p s') :
    (∃ pre b post, bs = pre ++ b :: post ∧ (∀ c ∈ pre, ¬ c.Fits (round8 n)) ∧ b.Fits (round8 n) ∧
      p = b.addr + 20 ∧ s' = x.st.setData (vserved x.st.mem.data b.addr b.size (round8 n)) ∧
      VmemOk img ⟨s', insert p x.live⟩ (pre ++ b.serve (round8 n) ++ post)) ∨
    ((∀ c ∈ bs, ¬ c.Fits (round8 n)) ∧ p = x.st.vmem.vmemCurrent + 20 ∧
      ∃ k, VExpand img x.st s' bs (round8 n) k ∧ VmemOk img ⟨s', insert p x.live⟩
        (bs ++ [⟨x.st.vmem.vmemCurrent, round8 n, false, some (k * 4096 - 20)⟩])) := by
  rcases h.list.vmalloc_cases hn hwrap hr with
    ⟨pre, b, post, rfl, hpre, hb, rfl, rfl, hinv⟩ | ⟨hfull, rfl, k, hx⟩
  · exact .inl ⟨pre, b, post, rfl, hpre, hb, rfl, rfl, h.frames.congr rfl rfl, hinv,
      h.live.serve hb.1⟩
  · obtain ⟨s₁, hmap, hpmm, htab⟩ := hx.mapped
    have hlim := hx.inside
    simp only [kvmemEnd] at hlim
    obtain ⟨hf₁, -⟩ := vmallocMap_frames h.frames rfl (by omega) hmap
    refine .inr ⟨hfull, rfl, k, hx, ?_, hx.list, fun q hq => ?_⟩
    · show FrameInv img s' s'.vmem.vmemCurrent
      rw [hx.current]
      exact hf₁.congr hpmm htab
    · rcases Finset.mem_insert.mp hq with rfl | hq
      · exact ⟨_, List.mem_append_right _ List.mem_cons_self, rfl, rfl⟩
      · obtain ⟨b, hb, h1, h2⟩ := h.live q hq
        exact ⟨b, by simp [hb], h1, h2⟩

/-- **What `vmalloc` hands out is new**: it was not live, and its block lies apart from those
that are. -/
theorem VmemOk.vmalloc_new {x y : VmemSys Flat} {bs : List VBlk} (h : VmemOk img x bs) {n p : Nat}
    (hn : n ≠ 0) (hwrap : x.st.vmem.vmemCurrent + round8 n + 4115 < 2 ^ 32)
    (hr : vmalloc img n x.st = .ok p y.st) :
    p ∉ x.live ∧ ∀ q ∈ x.live, p + y.sizeOf p + 20 ≤ q ∨ q + x.sizeOf q + 20 ≤ p := by
  have hsizes : ∀ {z : VmemSys Flat} {cs : List VBlk} {c : VBlk}, VmemInv flatData z.st cs →
    c ∈ cs →
      z.sizeOf (c.addr + 20) = c.size := fun hz hc => (hz.list.holds _ hc).1
  suffices hapart : ∀ q ∈ x.live, p + y.sizeOf p + 20 ≤ q ∨ q + x.sizeOf q + 20 ≤ p by
    refine ⟨fun hp => ?_, hapart⟩
    have := hapart p hp
    omega
  intro q hq
  obtain ⟨c, hc, hcf, rfl⟩ := h.live q hq
  rw [hsizes h.list hc]
  obtain ⟨pre, b, post, rfl, -, hb, rfl, hst, hok⟩ | ⟨-, rfl, k, hx, -⟩ :=
    h.vmalloc_cases hn hwrap hr
  · obtain ⟨d, hd, -, hda, hdz, hdb⟩ := VBlk.serve_head hb
    rw [show b.addr = d.addr from hda.symm, hsizes (z := y) hok.list (by simp [hd]), hda]
    -- a live block is another one than the free block that was found
    rcases h.list.blocks.sep hc (c := b) (by simp) with rfl | hsep
    · rw [hb.1] at hcf
      cases hcf
    · omega
  · have := h.list.mem hc
    omega

theorem VmemOk.no_wrap {x : VmemSys Flat} {bs : List VBlk} (h : VmemOk img x bs) {n : Nat}
    (hn : n ≤ 0x300000) : x.st.vmem.vmemCurrent + round8 n + 4115 < 2 ^ 32 := by
  have hr8 := round8_bounds (n := n) (by omega)
  have hhi := h.list.hi
  omega

/-- The mapping loop of `vmalloc` takes a frame for each page, and panics if there are too
few. -/
theorem vmallocMap_outcome {s : State Flat} {b k : Nat} (h : FrameInv img s b)
    (hlim : b + k * 4096 ≤ 0xC00000) :
    (∃ s', vmallocMap img b (b + k * 4096) s = .ok () s' ∧
      s'.pmm.freePages = s.pmm.freePages - k) ∨
    (s.pmm.freePages < k ∧ ∃ fmt args s',
      vmallocMap img b (b + k * 4096) s = .error (.panic fmt args) s') := by
  have hcount : (b + k * 4096 - b + (pageSize - 1)) / pageSize = k := by
    simp only [pageSize]
    omega
  unfold vmallocMap
  rw [hcount]
  have hloop := forUp_outcome
    (f := fun i => do
      let phys ← pmmAllocPage
      if phys = 0 then
        kpanicFatal "vmalloc: failed to allocate physical page\n" []
      if (← vmmMapPage img (b + i * pageSize) phys pageWrite) ≠ 0 then
        kpanicFatal "vmalloc: failed to map page\n" [])
    (fun i (t : State Flat) => FrameInv img t (b + i * 4096) ∧
      t.pmm.freePages + i = s.pmm.freePages)
    (E := fun e => s.pmm.freePages < k ∧ ∃ fmt args, e = .panic fmt args)
    (l := 0) (n := k) (s := s) ⟨by simpa using h, rfl⟩ ?_
  · obtain ⟨s', hr, -, hfree⟩ | ⟨_, s', hr, hlt, fmt, args, rfl⟩ := hloop
    · exact .inl ⟨s', hr, by omega⟩
    · exact .inr ⟨hlt, fmt, args, s', hr⟩
  rintro i t - hi ⟨ht, hfree⟩
  have hva : b + i * pageSize < 0xC00000 := by
    simp only [pageSize]
    omega
  rcases backPage_spec ht.paging hva
    (kpanicFatal "vmalloc: failed to allocate physical page\n" [])
    (kpanicFatal "vmalloc: failed to map page\n" []) with ⟨j, tb, t₁, hm, he⟩ | ⟨hall, hstop⟩
  · refine .inl ⟨t₁, he, ?_, ?_⟩
    · rw [show b + (i + 1) * 4096 = b + i * 4096 + 4096 by omega]
      exact ht.grow hm
    · have hpos := ht.paging.pmm.freePages_pos hm.lt hm.clear
      have hfree₁ : t₁.pmm.freePages = t.pmm.freePages - 1 := by
        rw [hm.eq]
        rfl
      omega
  · refine .inr ⟨_, _, hstop, ?_, _, _, rfl⟩
    by_contra hge
    obtain ⟨j, hj, hb⟩ := ht.paging.pmm.exists_clear (by omega)
    rw [hall j hj] at hb
    cases hb

/-- **`vmalloc` without room in the list** returns a block of fresh pages when the region
and the frames suffice. -/
theorem VmemOk.expand {x : VmemSys Flat} {bs : List VBlk} (h : VmemOk img x bs) {n k : Nat}
    (hn : n ≠ 0) (hwrap : x.st.vmem.vmemCurrent + round8 n + 4115 < 2 ^ 32)
    (hfull : ∀ c ∈ bs, ¬ c.Fits (round8 n)) (hk : vmemPages (round8 n) = k)
    (hlim : x.st.vmem.vmemCurrent + k * 4096 ≤ kvmemEnd) (hfree : k ≤ x.st.pmm.freePages) :
    ∃ s', vmalloc img n x.st = .ok (x.st.vmem.vmemCurrent + 20) s' ∧
      s'.vmem.vmemCurrent = x.st.vmem.vmemCurrent + k * 4096 ∧
      s'.pmm.freePages = x.st.pmm.freePages - k ∧
      VmemOk img ⟨s', insert (x.st.vmem.vmemCurrent + 20) x.live⟩
        (bs ++ [⟨x.st.vmem.vmemCurrent, round8 n, false, some (k * 4096 - 20)⟩]) := by
  have hpages := vmemPages_eq (r := round8 n) (by omega)
  have hend : add32 x.st.vmem.vmemCurrent (k * pageSize % 2 ^ 32) =
      x.st.vmem.vmemCurrent + k * 4096 := by
    simp only [add32, pageSize, kvmemEnd] at *
    omega
  have hlim' : x.st.vmem.vmemCurrent + k * 4096 ≤ 0xC00000 := by
    simp only [kvmemEnd] at hlim
    omega
  obtain ⟨s₁, hmap, hfree₁⟩ | ⟨hfew, -⟩ := vmallocMap_outcome h.frames hlim'
  swap
  · omega
  obtain ⟨q, t, hs₁⟩ := vmallocMap_onlyTables _ _ _ _ _ hmap
  have hinv₁ : VmemInv flatData s₁ bs := by
    rw [hs₁]
    obtain ⟨h1, h2, h3, h4, h5⟩ := h.list
    exact ⟨h1, h2, h3, h4, h5⟩
  have hv₁ : s₁.vmem = x.st.vmem := by rw [hs₁]
  obtain ⟨s₂, happ, -⟩ := vmemAppend_spec flatData_isData (r := round8 n) (k := k) hinv₁
    (flatData_plain _ _) rfl (by rw [hv₁]; exact hlim') (by omega)
  rw [hv₁] at happ
  have hr : vmalloc img n x.st = .ok (x.st.vmem.vmemCurrent + 20) s₂ := by
    rw [vmalloc_full flatData_isData img h.list (flatData_plain _ _) hn hfull]
    unfold vmallocExpand
    rw [get_bind_apply, hk]
    simp only [hend]
    rw [if_neg (by omega), bind_of_ok hmap, happ]
  obtain ⟨pre, b, post, rfl, -, hb, -⟩ | ⟨-, -, j, hx, hok⟩ := h.vmalloc_cases hn hwrap hr
  · exact absurd hb (hfull b (by simp))
  obtain rfl : j = k := hx.pages.trans hk
  obtain ⟨s₃, hmap', hpmm, -⟩ := hx.mapped
  rw [hmap] at hmap'
  injection hmap' with _ hmap'
  exact ⟨s₂, hr, hx.current, by rw [hpmm, ← hmap', hfree₁], hok⟩

theorem VmemOk.release {x : VmemSys Flat} {pre post : List VBlk} {b : VBlk}
    (h : VmemOk img x (pre ++ b :: post)) (hf : b.free = false) :
    ∃ s', vfree (b.addr + 20) x.st = .ok () s' ∧ s'.vmem = x.st.vmem ∧ s'.pmm = x.st.pmm ∧
      VmemOk img ⟨s', x.live.erase (b.addr + 20)⟩ (vmerge (pre ++ b.release :: post)) := by
  obtain ⟨d, hv, hinv, -⟩ := vfree_spec flatData_isData h.list (flatData_plain _ _) hf
  exact ⟨_, hv, rfl, rfl, h.frames.congr rfl rfl, hinv, h.live.release⟩

/-- **What `vfree`** does to the list. -/
theorem VmemOk.vfree {x : VmemSys Flat} {bs : List VBlk} (h : VmemOk img x bs) {p : Nat}
    (hp : p ∈ x.live) {s' : State Flat} (hr : vfree p x.st = .ok () s') :
    ∃ pre b post, bs = pre ++ b :: post ∧ p = b.addr + 20 ∧ s'.vmem = x.st.vmem ∧
      VmemOk img ⟨s', x.live.erase p⟩ (vmerge (pre ++ b.release :: post)) := by
  obtain ⟨b, hb, hf, rfl⟩ := h.live p hp
  obtain ⟨pre, post, rfl⟩ := List.append_of_mem hb
  obtain ⟨s₁, hv, hvm, -, hok⟩ := h.release hf
  rw [hv] at hr
  injection hr with _ hs
  subst hs
  exact ⟨pre, b, post, rfl, rfl, hvm, hok⟩

theorem VmemOk.write {x : VmemSys Flat} {bs : List VBlk} (h : VmemOk img x bs) {p a : Nat}
    {v : BitVec 8} (hp : p ∈ x.live) (h1 : p ≤ a) (h2 : a < p + x.sizeOf p) :
    VmemOk img ⟨x.st.setData (storeByte x.st.mem.data a v), x.live⟩ bs := by
  obtain ⟨b, hb, hf, rfl⟩ := h.live p hp
  have hsize : x.sizeOf (b.addr + 20) = b.size := (h.list.list.holds b hb).1
  rw [hsize] at h2
  exact ⟨h.frames.congr rfl rfl, h.list.write hb h1 h2, h.live⟩

/-- **Every step** keeps the invariant. -/
theorem VmemStep.ok {x y : VmemSys Flat} {op : VmemOp} (h : ∃ bs, VmemOk img x bs)
    (hs : VmemStep img x op y) : ∃ bs, VmemOk img y bs := by
  obtain ⟨bs, h⟩ := h
  obtain ⟨s', live'⟩ := y
  cases op with
  | vmalloc n =>
    obtain ⟨h1, h2, p, hr, rfl⟩ := hs
    obtain ⟨_, _, _, -, -, -, -, -, hok⟩ | ⟨-, -, _, -, hok⟩ :=
      h.vmalloc_cases (by omega) (h.no_wrap h2) hr
    · exact ⟨_, hok⟩
    · exact ⟨_, hok⟩
  | vfree p =>
    obtain ⟨hp, hr, rfl⟩ := hs
    obtain ⟨_, _, _, -, -, -, hok⟩ := h.vfree hp hr
    exact ⟨_, hok⟩
  | vbrk a =>
    obtain ⟨-, ⟨r, hr⟩, rfl⟩ := hs
    have hg := vbrk_frames h.frames hr
    exact ⟨bs, hg.frames, h.list.grown hg, h.live⟩
  | write p a v =>
    obtain ⟨hp, h1, h2, hst, rfl⟩ := hs
    have hst : s' = x.st.setData (storeByte x.st.mem.data a v) := hst
    subst hst
    exact ⟨bs, h.write hp h1 h2⟩

theorem vmemReach_ok {x : VmemSys Flat} (h : Reach (VmemStart img) (VmemStep img) x) :
    ∃ bs, VmemOk img x bs :=
  Reach.inv (I := fun x => ∃ bs, VmemOk img x bs) (fun _ hs => ⟨_, hs.ok⟩)
    (fun _ _ _ hI hs => hs.ok hI) h

/-- **`vmalloc` never hands out overlapping memory.** In every reachable state the
list is strictly ascending, its blocks are disjoint and inside
`[KVMEM_START, vmem_current)`, and every live pointer is that of a listed block
in use. What `vmalloc` returns then was not live, and its block lies apart from those that
are. -/
theorem vmalloc_no_overlap {x : VmemSys Flat} (h : Reach (VmemStart img) (VmemStep img) x) :
    ∃ hs, VBlocks x.st.mem.data x.st.vmem.vmemList hs ∧
      hs.Pairwise (fun b c => b.addr < c.addr) ∧
      hs.Pairwise (fun b c => b.addr + 20 + b.size ≤ c.addr) ∧
      (∀ b ∈ hs, kvmemStart ≤ b.addr ∧ b.addr + 20 + b.size ≤ x.st.vmem.vmemCurrent) ∧
      (∀ p ∈ x.live, ∃ b ∈ hs, p = b.addr + 20 ∧ b.free = 0 ∧ b.magic = vmemMagicAllocated) ∧
      ∀ n p y, VmemStep img x (.vmalloc n) y → vmalloc img n x.st = .ok p y.st → p ∉ x.live ∧
        ∀ q ∈ x.live, p + y.sizeOf p + 20 ≤ q ∨ q + x.sizeOf q + 20 ≤ p := by
  obtain ⟨bs, hok⟩ := vmemReach_ok h
  have hsize : ∀ b ∈ bs, load32 x.st.mem.data b.addr = b.size :=
    fun b hb => (hok.list.list.holds b hb).1
  have hap : (bs.map fun b => vHeaderAt x.st.mem.data b.addr).Pairwise
      (fun b c => b.addr + 20 + b.size ≤ c.addr) := by
    refine List.pairwise_map.mpr (hok.list.blocks.apart.imp_of_mem fun {b c} hb _ hbc => ?_)
    show b.addr + 20 + load32 x.st.mem.data b.addr ≤ c.addr
    rw [hsize b hb]
    exact hbc
  refine ⟨bs.map fun b => vHeaderAt x.st.mem.data b.addr,
    ⟨_, hok.list.list.follows, by rw [List.map_map]; rfl⟩, ?_, hap, fun b hb => ?_, fun p hp => ?_,
    fun n p y hs hr => hok.vmalloc_new (by have := hs.1; omega) (hok.no_wrap hs.2.1) hr⟩
  · exact hap.imp fun h => by omega
  · obtain ⟨c, hc, rfl⟩ := List.mem_map.mp hb
    have := hok.list.blocks.inside c hc
    show kvmemStart ≤ c.addr ∧ c.addr + 20 + load32 x.st.mem.data c.addr ≤ _
    rw [hsize c hc]
    exact this
  · obtain ⟨b, hb, hf, hpb⟩ := hok.live p hp
    have hhold := hok.list.list.holds b hb
    have hfree : load32 x.st.mem.data (b.addr + 8) = if b.free then 1 else 0 := hhold.2.1
    rw [hf] at hfree
    exact ⟨_, List.mem_map.mpr ⟨b, hb, rfl⟩, hpb, hfree, hhold.2.2.1 hf⟩

theorem vmalloc_first {s : State Flat} (h : Booted img s) :
    ∃ s', vmalloc img 100 s = .ok 0x300014 s' := by
  have hcur : s.vmem.vmemCurrent = kvmemStart := by rw [h.vmem]
  obtain ⟨s', hv, -⟩ := h.vmemOk.expand (n := 100) (k := 1) (by decide)
    (h.vmemOk.no_wrap (by decide)) (by simp) (by decide) (by rw [hcur]; decide)
    (by rw [h.frames.free h.paging.pmm]; decide)
  have hv : vmalloc img 100 s = .ok (s.vmem.vmemCurrent + 20) s' := hv
  rw [hcur] at hv
  exact ⟨s', hv⟩

theorem vmalloc_two {s : State Flat} (h : Booted img s) : ∃ s₁ s₂,
    vmalloc img 8 s = .ok 0x300014 s₁ ∧ vmalloc img 1000 s₁ = .ok 0x301014 s₂ ∧
    s₂.vmem.vmemCurrent = 0x302000 ∧ s₂.pmm.freePages = 1790 ∧
    VmemOk img ⟨s₂, {0x301014, 0x300014}⟩
      [⟨0x300000, 8, false, some 4076⟩, ⟨0x301000, 1000, false, some 4076⟩] := by
  have hcur : s.vmem.vmemCurrent = 0x300000 := by rw [h.vmem]; rfl
  have hfree : s.pmm.freePages = 1792 := by rw [h.frames.free h.paging.pmm]
  obtain ⟨s₁, hv₁, hcur₁, hfree₁, hok₁⟩ := h.vmemOk.expand (n := 8) (k := 1) (by decide)
    (h.vmemOk.no_wrap (by decide)) (by simp) (by decide) (by rw [hcur]; decide)
    (by rw [hfree]; decide)
  simp only [hcur] at hv₁ hcur₁ hok₁
  obtain ⟨s₂, hv₂, hcur₂, hfree₂, hok₂⟩ := hok₁.expand (n := 1000) (k := 1) (by decide)
    (hok₁.no_wrap (by decide)) (by simp [VBlk.Fits]) (by decide) (by rw [hcur₁]; decide)
    (by rw [hfree₁, hfree]; decide)
  simp only [hcur₁] at hv₂ hcur₂ hok₂
  exact ⟨s₁, s₂, hv₁, hv₂, hcur₂, by rw [hfree₂, hfree₁, hfree], hok₂⟩

theorem vmalloc_third {s : State Flat} {live : Finset Nat} (hcur : s.vmem.vmemCurrent = 0x302000)
    (hfree : s.pmm.freePages = 1790)
    (h : VmemOk img ⟨s, live⟩
      [⟨0x300000, 8, false, some 4076⟩, ⟨0x301000, 1000, false, some 4076⟩]) :
    ∃ s', vmalloc img 100 s = .ok 0x302014 s' := by
  obtain ⟨s', hv, -⟩ := h.expand (n := 100) (k := 1) (by decide) (h.no_wrap (by decide))
    (by simp [VBlk.Fits]) (by decide) (by rw [hcur]; decide) (by rw [hfree]; decide)
  simp only [hcur] at hv
  exact ⟨s', hv⟩

theorem vmemRun_two : ∃ x : VmemSys Flat, Reach (VmemStart Image.readme) (VmemStep Image.readme) x ∧
    x.live = {0x301014, 0x300014} ∧ VmemOk Image.readme x
      [⟨0x300000, 8, false, some 4076⟩, ⟨0x301000, 1000, false, some 4076⟩] := by
  obtain ⟨s, hr, hboot⟩ := memoryInit_spec Image.readme Flat.blank
  obtain ⟨s₁, s₂, hv₁, hv₂, -, -, hok⟩ := vmalloc_two hboot
  have hx₁ : Reach (VmemStart Image.readme) (VmemStep Image.readme) ⟨s₁, insert 0x300014 ∅⟩ :=
    .step (i := .vmalloc 8) (.init (s := ⟨s, ∅⟩) ⟨_, hr, rfl⟩) ⟨by decide, by decide, _, hv₁, rfl⟩
  exact ⟨_, .step (i := .vmalloc 1000) hx₁ ⟨by decide, by decide, _, hv₂, rfl⟩, rfl, hok⟩

/-- A run with two live pointers. -/
theorem vmalloc_no_overlap_first :
    ∃ x : VmemSys Flat, Reach (VmemStart Image.readme) (VmemStep Image.readme) x ∧
      x.live = {0x301014, 0x300014} ∧ ∃ hs, VBlocks x.st.mem.data x.st.vmem.vmemList hs ∧
        (∀ p ∈ x.live, ∃ b ∈ hs, p = b.addr + 20 ∧ b.free = 0 ∧ b.magic = vmemMagicAllocated) ∧
        ∀ n p y, VmemStep Image.readme x (.vmalloc n) y → vmalloc Image.readme n x.st = .ok p y.st →
          p ≠ 0x300014 ∧ p ≠ 0x301014 := by
  obtain ⟨x, hx, hlive, -⟩ := vmemRun_two
  obtain ⟨hs, h1, -, -, -, h2, hnew⟩ := vmalloc_no_overlap hx
  refine ⟨x, hx, hlive, hs, h1, h2, fun n p y hstep hr => ?_⟩
  have hp := (hnew n p y hstep hr).1
  rw [hlive] at hp
  exact ⟨fun he => hp (by simp [he]), fun he => hp (by simp [he])⟩

end Kfs
