import Kfs.CrossFree

/-!
# `vmalloc` at every request size

`vmalloc` computes with 32-bit words three times before it compares anything with
the end of its region: it rounds the size up to 8, adds the header and the page
slack, and adds the bytes of the pages to `vmem_current`. Each of the three can
wrap around, and then the block is smaller than asked for. Here `vmalloc` takes
every size, and the runs are those of both allocators.
-/

namespace Kfs

open Kfs.Lib

variable {img : Image}

/-! ## Runs with requests of any size -/

variable (img) in
/-- A step of either allocator; `vmalloc` is asked for any 32-bit size. -/
def AnyStep (x : AllocSys) : AllocOp → AllocSys → Prop
  | .vmalloc n, y => n < 2 ^ 32 ∧ (∃ p, vmalloc img n x.st = .ok p y.st ∧
      y.vlive = if p = 0 then x.vlive else insert p x.vlive) ∧ y.klive = x.klive
  | op, y => AllocStep img x op y

/-- A `vmalloc` step computes the end of its region without wrapping around. -/
def Unwrapped (x : AllocSys) : AllocOp → Prop
  | .vmalloc n => NoWrap x.st n
  | _ => True

theorem AnyStep.alloc {x y : AllocSys} {op : AllocOp} (hs : AnyStep img x op y)
    (hc : Unwrapped x op) : AllocStep img x op y := by
  cases op with
  | vmalloc n => exact ⟨hs.1, hc, hs.2⟩
  | heap op => exact hs
  | kbrk a => exact hs
  | vfree p => exact hs
  | vbrk a => exact hs
  | write p a v => exact hs

theorem AnyStep.ok {x y : AllocSys} {op : AllocOp} (h : AllocOk img x) (hc : Unwrapped x op)
    (hs : AnyStep img x op y) : AllocOk img y := (hs.alloc hc).ok h

/-- A run in which nothing wraps around keeps the invariant of both allocators. -/
theorem unwrapped_ok {x : AllocSys} {tr : List (AllocOp × AllocSys)} (hx : AllocStart img x)
    (ht : Trace (AnyStep img) x tr) (hm : Meets Unwrapped x tr) : AllocOk img (lastOf x tr) :=
  ht.inv (fun _ _ _ hI hc hs => hs.ok hI hc) hm hx.ok

/-! ## `vmalloc` returns or panics -/

def Panics {α : Type} (r : EStateM.Result Trap (State Flat) α) : Prop :=
  ∃ fmt args t, r = .error (.panic fmt args) t

section Outcome

variable {s : State Flat}

theorem vmemAppend_flat {r prev k e : Nat} (hcur : s.vmem.vmemCurrent ≤ 0xC00000)
    (hprev : prev ≤ 0xC00000) :
    vmemAppend r prev k e s = .ok (s.vmem.vmemCurrent + 20)
      { s.setData (vlinked (newHeader s.mem.data s.vmem.vmemCurrent r
          (sub32 (k * pageSize % 2 ^ 32) vmemHeader)) prev s.vmem.vmemCurrent) with
        vmem := ⟨e, add32 s.vmem.vmemSize (k * pageSize % 2 ^ 32),
          if prev ≠ 0 then s.vmem.vmemList else s.vmem.vmemCurrent⟩ } := by
  have hst : ∀ {i} v (t : State Flat), i ≤ 16 → st (s.vmem.vmemCurrent + i) v t =
      .ok () (t.setData (store32 t.mem.data (s.vmem.vmemCurrent + i) v)) :=
    fun v t hi => st_flat (by omega) v t
  have hst0 : ∀ v (t : State Flat), st s.vmem.vmemCurrent v t =
      .ok () (t.setData (store32 t.mem.data s.vmem.vmemCurrent v)) :=
        fun v t => st_flat (by omega) v t
  have hptr : add32 s.vmem.vmemCurrent vmemHeader = s.vmem.vmemCurrent + 20 := by
    simp only [add32, vmemHeader]
    omega
  unfold vmemAppend
  rw [get_bind_apply, bind_of_ok (hst0 _ _), bind_of_ok (hst _ _ (by omega)),
    bind_of_ok (hst _ _ (by omega)), bind_of_ok (hst _ _ (by omega)),
    bind_of_ok (hst _ _ (by omega)), hptr]
  by_cases hp : prev = 0
  · simp only [hp, ne_eq, not_true_eq_false, ↓reduceIte, vlinked]
    rfl
  · simp only [ne_eq, hp, not_false_eq_true, ↓reduceIte, vlinked]
    rw [bind_of_ok (st_flat (by omega) _ _)]
    rfl

theorem vmallocExpand_outcome {r prev : Nat} (h : FrameInv img s s.vmem.vmemCurrent)
    (hprev : prev ≤ 0xC00000) :
    (∃ p s', vmallocExpand img r prev s = .ok p s' ∧ s'.vmem.vmemCurrent ≤ kvmemEnd) ∨
      Panics (vmallocExpand img r prev s) := by
  have hhi := h.hi
  have hpage := h.page
  obtain ⟨e, he⟩ : ∃ e, e = add32 s.vmem.vmemCurrent (vmemPages r * pageSize % 2 ^ 32) := ⟨_, rfl⟩
  have hepage : e % 4096 = 0 := by
    rw [he]
    simp only [add32, pageSize]
    omega
  unfold vmallocExpand
  rw [get_bind_apply]
  simp only [← he]
  by_cases hend : e > kvmemEnd
  · rw [if_pos hend]
    exact .inr ⟨_, _, _, rfl⟩
  rw [if_neg hend]
  have hmap : (∃ s₁, vmallocMap img s.vmem.vmemCurrent e s = .ok () s₁) ∨
      Panics (vmallocMap img s.vmem.vmemCurrent e s) := by
    by_cases hle : s.vmem.vmemCurrent ≤ e
    · obtain ⟨k, rfl⟩ :
          ∃ k, e = s.vmem.vmemCurrent + k * 4096 := ⟨(e - s.vmem.vmemCurrent) / 4096, by omega⟩
      rcases vmallocMap_outcome h (k := k) (by simp only [kvmemEnd] at hend; omega) with
        ⟨s₁, h1, -⟩ | ⟨-, hstop⟩
      · exact .inl ⟨s₁, h1⟩
      · exact .inr hstop
    · -- the end has wrapped around: there is no page to map
      have hcount : (e - s.vmem.vmemCurrent + (pageSize - 1)) / pageSize = 0 := by
        simp only [pageSize]
        omega
      refine .inl ⟨s, ?_⟩
      unfold vmallocMap
      rw [hcount]
      rfl
  rcases hmap with ⟨s₁, h1⟩ | ⟨fmt, args, t, hstop⟩
  · obtain ⟨q, tb, hs₁⟩ := vmallocMap_onlyTables _ _ _ _ _ h1
    have hcur₁ : s₁.vmem = s.vmem := by rw [hs₁]
    refine .inl ⟨_, _, (bind_of_ok h1).trans (vmemAppend_flat (by rw [hcur₁]; omega) hprev), ?_⟩
    show e ≤ kvmemEnd
    omega
  · exact .inr ⟨fmt, args, t, bind_of_error hstop⟩

theorem lastAddr_le {bs : List VBlk} (h : VmemInv flatData s bs) : lastAddr 0 bs ≤ 0xC00000 := by
  rcases List.eq_nil_or_concat bs with rfl | ⟨cs, b, rfl⟩
  · exact Nat.zero_le _
  · rw [List.concat_eq_append, lastAddr_append]
    have := h.mem (b := b) (by simp)
    omega

/-- **`vmalloc` returns or panics**, and the region never ends past what it ended at or
`KVMEM_END`. -/
theorem VmemOk.vmalloc_outcome {x : VmemSys Flat} {bs : List VBlk} (h : VmemOk img x bs) {n : Nat}
    (hn : n ≠ 0) :
    (∃ p s', vmalloc img n x.st = .ok p s' ∧ s'.vmem.vmemCurrent ≤ 0xC00000) ∨
      Panics (vmalloc img n x.st) := by
  have hplain := flatData_plain x.st.mem (vmemWindow x.st.vmem.vmemCurrent)
  rcases first_such (VBlk.Fits (round8 n)) bs with hfull | ⟨pre, b, post, rfl, hpre, hb⟩
  · rw [vmalloc_full flatData_isData img h.list hplain hn hfull]
    rcases vmallocExpand_outcome h.frames (lastAddr_le h.list) with ⟨p, s', hr, hend⟩ | hstop
    · simp only [kvmemEnd] at hend
      exact .inl ⟨p, s', hr, by omega⟩
    · exact .inr hstop
  · obtain ⟨d, hv, -⟩ := vmalloc_hit flatData_isData img h.list hplain hn hpre hb
    exact .inl ⟨_, _, hv, h.list.hi⟩

end Outcome

/-! ## What a request gets -/

variable (img) in
/-- Page `v` is mapped to a frame that `pmm_alloc_page` has given out. -/
def MappedToFrame (s : State Flat) (v : Nat) : Prop :=
  ∃ k, entryAt img s.mem.table v = pmmStart + k * pageSize + 3 ∧ 1024 * 1024 / pageSize ≤ k ∧
    k < s.pmm.totalPages ∧ s.pmm.bit k = true

variable (img) in
/-- What `vmalloc(n)` should have done when it went from `s` to `s'` and returned `p`. -/
structure VmallocOk (s : State Flat) (live : Finset Nat) (n p : Nat) (s' : State Flat) : Prop where
  listed : ∃ as, Follows s'.mem.data 16 s'.vmem.vmemList as ∧ p - 20 ∈ as
  size : n ≤ load32 s'.mem.data (p - 20)
  lo : kvmemStart ≤ p - 20
  hi : p + n ≤ s'.vmem.vmemCurrent
  mapped : ∀ v, v % pageSize = 0 → p - 20 < v + pageSize → v < p + n → MappedToFrame img s' v
  fresh : p ∉ live
  grows : s.vmem.vmemCurrent ≤ s'.vmem.vmemCurrent

/-- Neither rounding `n` up to 8 nor computing the new end of the region wraps around. -/
def SizeFits (s : State Flat) (n : Nat) : Prop := n ≤ 0xFFFFFFF8 ∧ NoWrap s n

theorem VmemOk.block_ok {x y : VmemSys Flat} {bs : List VBlk} {b : VBlk} {n : Nat}
    (h : VmemOk img y bs) (hb : b ∈ bs) (hsize : n ≤ b.size) (hfresh : b.addr + 20 ∉ x.live)
    (hgrows : x.st.vmem.vmemCurrent ≤ y.st.vmem.vmemCurrent) :
    VmallocOk img x.st x.live n (b.addr + 20) y.st := by
  have hbnd := h.list.mem hb
  refine ⟨⟨_, h.list.list.follows, ?_⟩, ?_, ?_, by omega, fun v h1 h2 h3 => ?_, hfresh, hgrows⟩
  · rw [Nat.add_sub_cancel]
    exact List.mem_map.mpr ⟨b, hb, rfl⟩
  · rw [Nat.add_sub_cancel, show load32 y.st.mem.data b.addr =
      b.size from (h.list.list.holds b hb).1]
    exact hsize
  · simp only [kvmemStart]
    omega
  · refine h.frames.backed v ⟨h1, ?_, by omega⟩
    simp only [kheapStart, pageSize] at *
    omega

theorem VmemOk.vmalloc_fits {x : VmemSys Flat} {bs : List VBlk} (h : VmemOk img x bs) {n p : Nat}
    {s' : State Flat} (hn : 1 ≤ n) (hfits : SizeFits x.st n) (hr : vmalloc img n x.st = .ok p s') :
    VmallocOk img x.st x.live n p s' := by
  have hround := (round8_bounds hfits.1).1
  obtain ⟨pre, b, post, rfl, -, hb, rfl, rfl, hok⟩ | ⟨-, rfl, k, hx, hok⟩ :=
    h.vmalloc_cases (by omega) hfits.2 hr
  · obtain ⟨c, hc, -, hca, hcz⟩ := VBlk.serve_head hb
    rw [← hca] at hok ⊢
    refine hok.block_ok (x := x) (by simp [hc]) (by omega) (fun hlive => ?_) (Nat.le_refl _)
    obtain ⟨e, he, hef, hea⟩ := h.live _ hlive
    rcases h.list.blocks.sep he (c := b) (by simp) with rfl | hsep
    · rw [hb.1] at hef
      cases hef
    · omega
  · have hgrows : x.st.vmem.vmemCurrent ≤ s'.vmem.vmemCurrent := by
      rw [hx.current]
      omega
    refine hok.block_ok (x := x) (List.mem_append_right _ List.mem_cons_self) hround
      (fun hlive => ?_) hgrows
    obtain ⟨e, he, -, hea⟩ := h.live _ hlive
    have := h.list.mem he
    simp only at hea
    omega

theorem VmemOk.not_fits {x : VmemSys Flat} {bs : List VBlk} (h : VmemOk img x bs) {n : Nat}
    (hno : ¬ SizeFits x.st n) : 0xC00000 < n := by
  have hhi := h.list.hi
  by_contra hle
  have hround := (round8_bounds (n := n) (by omega)).2
  refine hno ⟨by omega, ?_⟩
  unfold NoWrap
  omega

/-- **Which requests `vmalloc` survives.** After every run of both allocators in which no
`vmalloc` computed a wrapped end, and for every 32-bit size `n`, `vmalloc(n)` panics or
returns; and what it returns is what it should be if and only if neither rounding `n`
up nor computing the end of the region wraps around. -/
theorem vmalloc_any_size {x : AllocSys} {tr : List (AllocOp × AllocSys)} (hx : AllocStart img x)
    (ht : Trace (AnyStep img) x tr) (hm : Meets Unwrapped x tr) {n : Nat} (hn : 1 ≤ n) :
    Panics (vmalloc img n (lastOf x tr).st) ∨
      ∃ p s', vmalloc img n (lastOf x tr).st = .ok p s' ∧
        (VmallocOk img (lastOf x tr).st (lastOf x tr).vlive n p s' ↔
          SizeFits (lastOf x tr).st n) := by
  obtain ⟨bs, vs, -, -, hv⟩ := unwrapped_ok hx ht hm
  rcases hv.vmalloc_outcome (n := n) (by omega) with ⟨p, s', hr, hend⟩ | hstop
  · refine .inr ⟨p, s', hr, fun hgood => ?_, fun hfits => hv.vmalloc_fits hn hfits hr⟩
    by_contra hno
    have hbig := hv.not_fits hno
    have := hgood.hi
    omega
  · exact .inl hstop

/-- The third request, for 100 bytes, with two live blocks. -/
theorem vmalloc_any_size_first :
    ∃ (x : AllocSys) (tr : List (AllocOp × AllocSys)) (s' : State Flat),
    AllocStart Image.readme x ∧ Trace (AnyStep Image.readme) x tr ∧
    (lastOf x tr).vlive = {0x301014, 0x300014} ∧
      vmalloc Image.readme 100 (lastOf x tr).st = .ok 0x302014 s' ∧
      VmallocOk Image.readme (lastOf x tr).st (lastOf x tr).vlive 100 0x302014 s' := by
  obtain ⟨s, hr, hboot⟩ := memoryInit_spec Image.readme Flat.blank
  obtain ⟨s₁, s₂, hv₁, hv₂, hcur, hfree, hok⟩ := vmalloc_two hboot
  obtain ⟨s', hv⟩ := vmalloc_third hcur hfree hok
  have hstart : AllocStart Image.readme ⟨s, ∅, ∅⟩ := ⟨_, hr, rfl, rfl⟩
  have hrun : Trace (AnyStep Image.readme) ⟨s, ∅, ∅⟩
      [(.vmalloc 8, ⟨s₁, ∅, {0x300014}⟩), (.vmalloc 1000, ⟨s₂, ∅, {0x301014, 0x300014}⟩)] :=
    ⟨⟨by decide, ⟨_, hv₁, rfl⟩, rfl⟩, ⟨by decide, ⟨_, hv₂, rfl⟩, rfl⟩, trivial⟩
  have hstep : VmemStep Image.readme ⟨s, ∅⟩ (.vmalloc 8) ⟨s₁, {0x300014}⟩ :=
    ⟨by decide, by decide, _, hv₁, rfl⟩
  have hwrap : NoWrap s₁ 1000 := by
    obtain ⟨bs, hok₁⟩ := hstep.ok ⟨_, hboot.vmemOk⟩
    exact hok₁.no_wrap (by decide)
  have hunwrapped : Meets Unwrapped ⟨s, ∅, ∅⟩
      [(.vmalloc 8, ⟨s₁, ∅, {0x300014}⟩), (.vmalloc 1000, ⟨s₂, ∅, {0x301014, 0x300014}⟩)] :=
    ⟨hboot.vmemOk.no_wrap (by decide), hwrap, trivial⟩
  refine ⟨_, _, s', hstart, hrun, rfl, hv, ?_⟩
  rcases vmalloc_any_size hstart hrun hunwrapped (n := 100) (by decide) with
    ⟨fmt, args, t, hstop⟩ | ⟨p, t, hv', hiff⟩
  · cases hv.symm.trans hstop
  · cases hv.symm.trans hv'
    exact hiff.mpr ⟨by decide, hok.no_wrap (by decide)⟩

/-- A request for `2 ^ 32 - 1` bytes gets a block of size 0. -/
theorem vmalloc_returns_nothing : ∃ (x : AllocSys) (s' : State Flat), AllocStart Image.readme x ∧
    vmalloc Image.readme 0xFFFFFFFF x.st = .ok 0x300014 s' ∧ load32 s'.mem.data 0x300000 = 0 ∧
    ¬ VmallocOk Image.readme x.st x.vlive 0xFFFFFFFF 0x300014 s' := by
  obtain ⟨s, hr, hboot⟩ := memoryInit_spec Image.readme Flat.blank
  have hcur : s.vmem.vmemCurrent = 0x300000 := by rw [hboot.vmem]; rfl
  have hfree : s.pmm.freePages = 1792 := by rw [hboot.frames.free hboot.paging.pmm]
  have hround : round8 0xFFFFFFFF = 0 := round8_wrap (by decide) (by decide)
  have hlim : s.vmem.vmemCurrent + round8 0xFFFFFFFF + 4115 < 2 ^ 32 := by
    rw [hcur, hround]
    decide
  obtain ⟨s', hv, -, -, hok⟩ := hboot.vmemOk.expand (n := 0xFFFFFFFF) (k := 1) (by decide) hlim
    (by simp) (by rw [hround]; decide) (by rw [hcur]; decide) (by rw [hfree]; decide)
  simp only [hcur, hround] at hv hok
  have hsize : load32 s'.mem.data 0x300000 = 0 :=
    (hok.list.list.holds ⟨0x300000, 0, false, some (1 * 4096 - 20)⟩ (by simp)).1
  refine ⟨⟨s, ∅, ∅⟩, s', ⟨_, hr, rfl, rfl⟩, hv, hsize, fun hgood => ?_⟩
  have := hgood.size
  rw [hsize] at this
  exact absurd this (by decide)

end Kfs
