import Kfs.Vmem
import Kfs.KHeapInv
import Kfs.Port

/-!
# The `vmalloc` list in memory

The blocks of the list ascend and do not overlap (`VList`), but unlike the
kernel heap's they leave gaps: `vmem_current` moves on by whole pages, and
`vfree` drops a merged block's bytes. What keeps the merge of `vfree` harmless
is where blocks can start. A block that `vmalloc` made of fresh pages is
page-aligned, and so is the end that its `capacity` records. One split off such
a block starts 4 bytes past a multiple of 8, so it is never where a capacity
ends; its own uninitialised `capacity` is never read.

Everything here is stated for a port that is plain on the list's bytes, so that
it holds for memory addressed directly and behind the paging hardware alike.
-/

namespace Kfs

open Kfs.Lib

/-- A block of the list. `cap` is the recorded capacity of a block made of fresh
pages; one that was split off has none. -/
structure VBlk where
  addr : Nat
  size : Nat
  free : Bool
  cap : Option Nat

/-- A block header in memory. -/
def vNode : Node VBlk where
  addr := VBlk.addr
  hdr := 20
  next := 16
  holds m b := load32 m b.addr = b.size ∧ load32 m (b.addr + 8) = (if b.free then 1 else 0) ∧
    (b.free = false → load32 m (b.addr + 12) = vmemMagicAllocated) ∧
    ∀ c, b.cap = some c → load32 m (b.addr + 4) = c
  next_hdr := by omega
  local_hdr := by
    rintro m m' b hm ⟨h1, h2, h3, h4⟩
    refine ⟨?_, ?_, fun hb => ?_, fun c hc => ?_⟩
    · rw [← h1]
      exact load32_congr fun a ha hb => hm a (by omega) (by omega)
    · rw [← h2]
      exact load32_congr fun a ha hb => hm a (by omega) (by omega)
    · rw [← h3 hb]
      exact load32_congr fun a ha hb => hm a (by omega) (by omega)
    · rw [← h4 c hc]
      exact load32_congr fun a ha hb => hm a (by omega) (by omega)

/-- **Where blocks can be**, in a region that ends at `e`. -/
structure VList (e : Nat) (bs : List VBlk) : Prop where
  apart : bs.Pairwise fun b c => b.addr + 20 + b.size ≤ c.addr
  inside : ∀ b ∈ bs, kvmemStart ≤ b.addr ∧ b.addr + 20 + b.size ≤ e
  whole : ∀ b ∈ bs, ∀ c, b.cap = some c →
    b.addr % 4096 = 0 ∧ (b.addr + 20 + c) % 4096 = 0 ∧ b.addr + 20 + c ≤ e
  chain : bs.IsChain fun b c => b.cap.isSome → c.cap.isSome ∨ c.addr % 8 = 4
  head : ∀ b ∈ bs.head?, b.cap.isSome

variable {M : Type}

/-- **The invariant of `vmem.c`.** -/
structure VmemInv (P : Port M) (s : State M) (bs : List VBlk) : Prop where
  list : Seg vNode (P.view s) s.vmem.vmemList bs 0
  blocks : VList s.vmem.vmemCurrent bs
  lo : kvmemStart ≤ s.vmem.vmemCurrent
  hi : s.vmem.vmemCurrent ≤ 0xC00000
  page : s.vmem.vmemCurrent % 4096 = 0

/-- What `vmem.c` reaches: its region, and the words at a null pointer. -/
def vmemWindow (e x : Nat) : Prop := x < 0x1000 ∨ kvmemStart ≤ x ∧ x < e

/-! ## Block lists -/

def VBlk.Fits (r : Nat) (b : VBlk) : Prop := b.free = true ∧ r ≤ b.size

instance (r : Nat) (b : VBlk) : Decidable (b.Fits r) := inferInstanceAs (Decidable (_ ∧ _))

/-- A free block serving a request of `r` bytes. -/
def VBlk.serve (b : VBlk) (r : Nat) : List VBlk :=
  if r + 36 ≤ b.size then
    [⟨b.addr, r, false, b.cap⟩, ⟨b.addr + 20 + r, b.size - r - 20, true, none⟩]
  else [⟨b.addr, b.size, false, b.cap⟩]

def VBlk.release (b : VBlk) : VBlk := { b with free := true }

/-- The merge of `vfree`, at the head of the list. -/
def vmerge : List VBlk → List VBlk
  | ⟨a, z, true, some c⟩ :: ⟨a', z', true, some c'⟩ :: bs =>
    if a + 20 + c = a' then ⟨a, z, true, some (c + (20 + c'))⟩ :: bs
    else ⟨a, z, true, some c⟩ :: ⟨a', z', true, some c'⟩ :: bs
  | bs => bs

theorem vmerge_touching (a z c z' c' : Nat) (bs : List VBlk) :
    vmerge (⟨a, z, true, some c⟩ :: ⟨a + 20 + c, z', true, some c'⟩ :: bs) =
      ⟨a, z, true, some (c + (20 + c'))⟩ :: bs := if_pos rfl

theorem vmerge_apart {a z c a' z' : Nat} {f f' : Bool} {cap' : Option Nat} {bs : List VBlk}
    (h : ¬ (f = true ∧ f' = true ∧ a + 20 + c = a')) :
    vmerge (⟨a, z, f, some c⟩ :: ⟨a', z', f', cap'⟩ :: bs) =
      ⟨a, z, f, some c⟩ :: ⟨a', z', f', cap'⟩ :: bs := by
  match f, f', cap' with
  | true, true, some _ => exact if_neg fun htouch => h ⟨rfl, rfl, htouch⟩
  | true, true, none => rfl
  | true, false, _ => rfl
  | false, _, _ => rfl

def InVHeader (bs : List VBlk) (x : Nat) : Prop := ∃ c ∈ bs, c.addr ≤ x ∧ x < c.addr + 20

theorem VBlk.serve_header {b : VBlk} {r x : Nat} (h : InVHeader (b.serve r) x) :
    b.addr ≤ x ∧ x < b.addr + 20 + b.size := by
  obtain ⟨c, hc, h1, h2⟩ := h
  unfold VBlk.serve at hc
  split at hc
  · simp only [List.mem_cons, List.not_mem_nil, or_false] at hc
    rcases hc with rfl | rfl
    · simp only at h1 h2
      omega
    · simp only at h1 h2
      omega
  · rw [List.mem_singleton] at hc
    subst hc
    simp only at h1 h2
    omega

theorem VBlk.serve_head {b : VBlk} {r : Nat} (hb : b.Fits r) :
    ∃ c ∈ b.serve r, c.free = false ∧ c.addr = b.addr ∧ r ≤ c.size ∧ c.size ≤ b.size := by
  have hsize := hb.2
  unfold VBlk.serve
  split
  · exact ⟨_, List.mem_cons_self, rfl, rfl, Nat.le_refl _, hsize⟩
  · exact ⟨_, List.mem_cons_self, rfl, rfl, hsize, Nat.le_refl _⟩

theorem VList.mono {e e' : Nat} {bs : List VBlk} (h : VList e bs) (he : e ≤ e') : VList e' bs where
  apart := h.apart
  inside b hb := by
    have := h.inside b hb
    omega
  whole b hb c hc := by
    have := h.whole b hb c hc
    omega
  chain := h.chain
  head := h.head

theorem VList.sep {e : Nat} {bs : List VBlk} (h : VList e bs) {b c : VBlk} (hb : b ∈ bs)
    (hc : c ∈ bs) : b = c ∨ b.addr + 20 + b.size ≤ c.addr ∨ c.addr + 20 + c.size ≤ b.addr :=
  pairwise_mem h.apart hb hc

theorem VList.length_le {e : Nat} {bs : List VBlk} (h : VList e bs) : 20 * bs.length ≤ e := by
  suffices hgen : ∀ (a : Nat) (cs : List VBlk), a ≤ e →
      cs.Pairwise (fun b c => b.addr + 20 + b.size ≤ c.addr) →
      (∀ b ∈ cs, a ≤ b.addr ∧ b.addr + 20 + b.size ≤ e) → a + 20 * cs.length ≤ e by
    have := hgen 0 bs (by omega) h.apart fun b hb => ⟨by omega, (h.inside b hb).2⟩
    omega
  intro a cs
  induction cs generalizing a with
  | nil => exact fun ha _ _ => ha
  | cons b cs ih =>
    intro ha hap hin
    rw [List.pairwise_cons] at hap
    have hb := hin b List.mem_cons_self
    have := ih (b.addr + 20) (by omega) hap.2 fun c hc => by
      have h1 := hap.1 c hc
      have h2 := hin c (List.mem_cons_of_mem _ hc)
      omega
    rw [List.length_cons]
    omega

/-- The flag of a block does not matter for where it is. -/
theorem VList.setFree {e : Nat} {pre post : List VBlk} {b : VBlk} (f : Bool)
    (h : VList e (pre ++ b :: post)) : VList e (pre ++ { b with free := f } :: post) := by
  have hap := h.apart
  have hch := h.chain
  rw [List.pairwise_append, List.pairwise_cons] at hap
  rw [List.isChain_append, List.isChain_cons] at hch
  obtain ⟨hpre, hb, hpb⟩ := hap
  obtain ⟨hcpre, hcb, hcpb⟩ := hch
  have hmem : ∀ d ∈ pre ++ { b with free := f } :: post, ∃ d' ∈ pre ++ b :: post,
      d'.addr = d.addr ∧ d'.size = d.size ∧ d'.cap = d.cap := by
    intro d hd
    rcases List.mem_append.mp hd with hd | hd
    · exact ⟨d, by simp [hd], rfl, rfl, rfl⟩
    · rcases List.mem_cons.mp hd with rfl | hd
      · exact ⟨b, by simp, rfl, rfl, rfl⟩
      · exact ⟨d, by simp [hd], rfl, rfl, rfl⟩
  refine ⟨?_, fun d hd => ?_, fun d hd c hc => ?_, ?_, fun d hd => ?_⟩
  · rw [List.pairwise_append, List.pairwise_cons]
    refine ⟨hpre, hb, fun x hx y hy => ?_⟩
    rcases List.mem_cons.mp hy with rfl | hy
    · exact hpb x hx b List.mem_cons_self
    · exact hpb x hx y (List.mem_cons_of_mem _ hy)
  · obtain ⟨d', hd', h1, h2, -⟩ := hmem d hd
    rw [← h1, ← h2]
    exact h.inside d' hd'
  · obtain ⟨d', hd', h1, -, h3⟩ := hmem d hd
    rw [← h1]
    exact h.whole d' hd' c (h3.trans hc)
  · rw [List.isChain_append, List.isChain_cons]
    refine ⟨hcpre, hcb, fun x hx y hy => ?_⟩
    simp only [List.head?_cons, Option.mem_def, Option.some.injEq] at hy
    subst hy
    exact hcpb x hx b (by simp)
  · cases pre with
    | nil =>
      simp only [List.nil_append, List.head?_cons, Option.mem_def, Option.some.injEq] at hd
      subst hd
      exact h.head b (by simp)
    | cons x pre => exact h.head d (by simpa using hd)

/-- A block cut in two after `r` bytes. The second half starts off the grid of page
ends if the first is page-aligned. -/
theorem VList.split {e r : Nat} {pre post : List VBlk} {b : VBlk} {f : Bool} (hr : r % 8 = 0)
    (hsplit : r + 20 ≤ b.size) (h : VList e (pre ++ b :: post)) :
    VList e (pre ++ { b with size := r } :: ⟨b.addr + 20 + r, b.size - r - 20, f, none⟩ ::
      post) := by
  have hap := h.apart
  have hch := h.chain
  have hin := h.inside b (by simp)
  rw [List.pairwise_append, List.pairwise_cons] at hap
  rw [List.isChain_append, List.isChain_cons] at hch
  obtain ⟨hpre, ⟨hb, hpost⟩, hpb⟩ := hap
  obtain ⟨hcpre, ⟨-, hcpost⟩, hcpb⟩ := hch
  refine ⟨?_, fun d hd => ?_, fun d hd c hc => ?_, ?_, fun d hd => ?_⟩
  · rw [List.pairwise_append, List.pairwise_cons, List.pairwise_cons]
    refine ⟨hpre, ⟨fun y hy => ?_, fun y hy => ?_, hpost⟩, fun x hx y hy => ?_⟩
    · rcases List.mem_cons.mp hy with rfl | hy
      · exact Nat.le_refl _
      · have := hb y hy
        show b.addr + 20 + r ≤ y.addr
        omega
    · have := hb y hy
      show b.addr + 20 + r + 20 + (b.size - r - 20) ≤ y.addr
      omega
    · have hxb := hpb x hx b List.mem_cons_self
      simp only [List.mem_cons] at hy
      rcases hy with rfl | rfl | hy
      · exact hxb
      · show _ ≤ b.addr + 20 + r
        omega
      · exact hpb x hx y (List.mem_cons_of_mem _ hy)
  · simp only [List.mem_append, List.mem_cons] at hd
    rcases hd with hd | rfl | rfl | hd
    · exact h.inside d (by simp [hd])
    · show kvmemStart ≤ b.addr ∧ b.addr + 20 + r ≤ e
      omega
    · show kvmemStart ≤ b.addr + 20 + r ∧ b.addr + 20 + r + 20 + (b.size - r - 20) ≤ e
      omega
    · exact h.inside d (by simp [hd])
  · simp only [List.mem_append, List.mem_cons] at hd
    rcases hd with hd | rfl | rfl | hd
    · exact h.whole d (by simp [hd]) c hc
    · exact h.whole b (by simp) c hc
    · cases hc
    · exact h.whole d (by simp [hd]) c hc
  · rw [List.isChain_append, List.isChain_cons_cons, List.isChain_cons]
    refine ⟨hcpre, ⟨fun hsome => .inr ?_, fun y _ hsome => absurd hsome (by simp), hcpost⟩,
      fun x hx y hy => ?_⟩
    · obtain ⟨c, hc⟩ := Option.isSome_iff_exists.mp hsome
      have := (h.whole b (by simp) c hc).1
      show (b.addr + 20 + r) % 8 = 4
      omega
    · simp only [List.head?_cons, Option.mem_def, Option.some.injEq] at hy
      subst hy
      exact hcpb x hx b (by simp)
  · cases pre with
    | nil =>
      simp only [List.nil_append, List.head?_cons, Option.mem_def, Option.some.injEq] at hd
      subst hd
      exact h.head b (by simp)
    | cons x pre => exact h.head d (by simpa using hd)

theorem VList.serve {e r : Nat} {pre post : List VBlk} {b : VBlk} (hr : r % 8 = 0)
    (h : VList e (pre ++ b :: post)) : VList e (pre ++ b.serve r ++ post) := by
  unfold VBlk.serve
  rw [List.append_assoc]
  split
  · exact (h.split hr (by omega)).setFree false
  · exact h.setFree false

theorem VList.append {e e' z c : Nat} {bs : List VBlk} (h : VList e bs) (he : e % 4096 = 0)
    (hlo : kvmemStart ≤ e) (hz : z ≤ c) (hc : e + 20 + c = e') (he' : e' % 4096 = 0) :
    VList e' (bs ++ [⟨e, z, false, some c⟩]) where
  apart := by
    rw [List.pairwise_append]
    refine ⟨h.apart, List.pairwise_singleton _ _, fun x hx y hy => ?_⟩
    rw [List.mem_singleton.mp hy]
    exact (h.inside x hx).2
  inside b hb := by
    rcases List.mem_append.mp hb with hb | hb
    · have := h.inside b hb
      omega
    · rw [List.mem_singleton.mp hb]
      show kvmemStart ≤ e ∧ e + 20 + z ≤ e'
      omega
  whole b hb d hd := by
    rcases List.mem_append.mp hb with hb | hb
    · have := h.whole b hb d hd
      omega
    · rw [List.mem_singleton.mp hb] at hd ⊢
      injection hd with hd
      subst hd
      show e % 4096 = 0 ∧ (e + 20 + c) % 4096 = 0 ∧ e + 20 + c ≤ e'
      omega
  chain := by
    rw [List.isChain_append]
    refine ⟨h.chain, .singleton _, fun x _ y hy _ => .inl ?_⟩
    simp only [List.head?_cons, Option.mem_def, Option.some.injEq] at hy
    rw [← hy]
    rfl
  head b hb := by
    cases bs with
    | nil =>
      simp only [List.nil_append, List.head?_cons, Option.mem_def, Option.some.injEq] at hb
      rw [← hb]
      rfl
    | cons x bs => exact h.head b (by simpa using hb)

theorem VList.merge {e a z c z' c' : Nat} {f f' : Bool} {bs : List VBlk}
    (h : VList e (⟨a, z, f, some c⟩ :: ⟨a + 20 + c, z', f', some c'⟩ :: bs)) :
    VList e (⟨a, z, f, some (c + (20 + c'))⟩ :: bs) := by
  have hap := h.apart
  have hch := h.chain
  rw [List.pairwise_cons, List.pairwise_cons] at hap
  rw [List.isChain_cons_cons, List.isChain_cons] at hch
  have h1 := h.whole ⟨a, z, f, some c⟩ (by simp) c rfl
  have h2 := h.whole ⟨a + 20 + c, z', f', some c'⟩ (by simp) c' rfl
  simp only at h1 h2
  refine ⟨?_, fun d hd => ?_, fun d hd x hx => ?_, ?_, fun d hd => ?_⟩
  · exact List.pairwise_cons.mpr ⟨fun x hx => hap.1 x (List.mem_cons_of_mem _ hx), hap.2.2⟩
  · rcases List.mem_cons.mp hd with rfl | hd
    · exact h.inside ⟨a, z, f, some c⟩ (by simp)
    · exact h.inside d (by simp [hd])
  · rcases List.mem_cons.mp hd with rfl | hd
    · injection hx with hx
      subst hx
      show a % 4096 = 0 ∧ (a + 20 + (c + (20 + c'))) % 4096 = 0 ∧ a + 20 + (c + (20 + c')) ≤ e
      omega
    · exact h.whole d (by simp [hd]) x hx
  · exact List.isChain_cons.mpr ⟨fun y hy _ => hch.2.1 y hy rfl, hch.2.2⟩
  · simp only [List.head?_cons, Option.mem_def, Option.some.injEq] at hd
    rw [← hd]
    rfl

/-- Only a block of whole pages can start where a capacity ends. -/
theorem VList.cap_of_touch {e a z c z' : Nat} {f f' : Bool} {cap' : Option Nat} {bs : List VBlk}
    (h : VList e (⟨a, z, f, some c⟩ :: ⟨a + 20 + c, z', f', cap'⟩ :: bs)) :
    ∃ c', cap' = some c' := by
  have hch := h.chain
  have hw := h.whole ⟨a, z, f, some c⟩ (by simp) c rfl
  simp only at hw
  rw [List.isChain_cons_cons] at hch
  rcases hch.1 rfl with hsome | hmod
  · exact Option.isSome_iff_exists.mp hsome
  · have hmod : (a + 20 + c) % 8 = 4 := hmod
    omega

theorem VList.vmerge {e : Nat} {bs : List VBlk} (h : VList e bs) : VList e (vmerge bs) := by
  unfold Kfs.vmerge
  split
  · split
    · next hend =>
      subst hend
      exact h.merge
    · exact h
  · exact h

/-! ## The invariant -/

theorem VmemInv.length_lt {P : Port M} {s : State M} {bs : List VBlk} (h : VmemInv P s bs) :
    bs.length < maxRounds := by
  have := h.blocks.length_le
  have := h.hi
  rw [maxRounds_eq]
  omega

theorem VmemInv.mem {P : Port M} {s : State M} {bs : List VBlk}
    (h : VmemInv P s bs) {b : VBlk} (hb : b ∈ bs) :
    0x300000 ≤ b.addr ∧ b.addr + 20 + b.size ≤ s.vmem.vmemCurrent ∧
      s.vmem.vmemCurrent ≤ 0xC00000 := by
  have := h.blocks.inside b hb
  have := h.hi
  simp only [kvmemStart] at *
  omega

theorem VmemInv.write {P : Port M} {s : State M} {bs : List VBlk}
    (h : VmemInv P s bs) {b : VBlk} (hb : b ∈ bs) {a : Nat}
    {v : BitVec 8} (h1 : b.addr + 20 ≤ a) (h2 : a < b.addr + 20 + b.size) :
    VmemInv P (P.put s (storeByte (P.view s) a v)) bs where
  list := by
    rw [P.view_put]
    refine h.list.frame fun c hc x hx1 hx2 => storeByte_other ?_
    have hx1 : c.addr ≤ x := hx1
    have hx2 : x < c.addr + 20 := hx2
    rcases h.blocks.sep hb hc with h3 | h3 | h3
    · subst h3
      omega
    · omega
    · omega
  blocks := h.blocks
  lo := h.lo
  hi := h.hi
  page := h.page

theorem VmemInv.store {P : Port M} {s : State M} {bs : List VBlk} (h : VmemInv P s bs) {b : VBlk}
    (hb : b ∈ bs) {a v : Nat} (h1 : b.addr + 20 ≤ a) (h2 : a + 4 ≤ b.addr + 20 + b.size) :
    VmemInv P (P.put s (store32 (P.view s) a v)) bs := by
  have hw := (((h.write hb (v := BitVec.ofNat 8 v) h1 (by omega)).write hb (a := a + 1)
    (v := BitVec.ofNat 8 (v / 2 ^ 8)) (by omega) (by omega)).write hb (a := a + 2)
    (v := BitVec.ofNat 8 (v / 2 ^ 16)) (by omega) (by omega)).write hb (a := a + 3)
    (v := BitVec.ofNat 8 (v / 2 ^ 24)) (by omega) (by omega)
  simp only [P.put_put, P.view_put] at hw
  exact hw

theorem vseg_inert {m : Mem} {q : Nat} {bs : List VBlk} (h : Seg vNode m q bs 0)
    (hbs : ∀ b ∈ bs, b.addr % 4 = 0 ∧ b.addr < 2 ^ 24) : Inert vmemMagicAllocated q := by
  cases bs with
  | nil =>
    have hq : q = 0 := h
    rw [hq]
    exact inert_zero
  | cons b bs =>
    have hq : q = b.addr := h.1
    have hb := hbs b List.mem_cons_self
    rw [hq]
    exact inert_aligned hb.1 hb.2

def vmarked (m : Mem) (a : Nat) : Mem := store32 (store32 m (a + 8) 1) (a + 12) vmemMagicFreed

theorem vmarked_same (m : Mem) (a : Nat) :
    SameOff (fun x => a ≤ x ∧ x < a + 20) m (vmarked m a) := by
  refine SameOff.store32 (SameOff.store32 (SameOff.refl _ _) ?_) ?_ <;> intro x _ _ <;> omega

theorem vmarked_stores (m : Mem) {a : Nat} (ha : a % 4 = 0) :
    InertStores vmemMagicAllocated m (vmarked m a) :=
  .store (.store .refl (by omega) inert_one) (by omega) inert_freed

theorem vmarked_next (m : Mem) (a : Nat) : load32 (vmarked m a) (a + 16) = load32 m (a + 16) := by
  unfold vmarked
  rw [load32_store32_ne (by omega), load32_store32_ne (by omega)]

theorem vmarked_holds {m : Mem} {b : VBlk} (h : vNode.holds m b) :
    vNode.holds (vmarked m b.addr) b.release := by
  obtain ⟨hsize, -, -, hcap⟩ := h
  refine ⟨?_, ?_, ?_, fun c hc => ?_⟩
  · show load32 (vmarked m b.addr) b.addr = b.size
    unfold vmarked
    rw [load32_store32_ne (by omega), load32_store32_ne (by omega), hsize]
  · show load32 (vmarked m b.addr) (b.addr + 8) = 1
    unfold vmarked
    rw [load32_store32_ne (by omega), load32_store32 (by omega)]
  · intro hf
    cases hf
  · show load32 (vmarked m b.addr) (b.addr + 4) = c
    unfold vmarked
    rw [load32_store32_ne (by omega), load32_store32_ne (by omega), hcap c hc]

theorem VmemInv.mark {P : Port M} {s : State M} {pre post : List VBlk} {b : VBlk}
    (h : VmemInv P s (pre ++ b :: post)) :
    VmemInv P (P.put s (vmarked (P.view s) b.addr)) (pre ++ b.release :: post) := by
  obtain ⟨p, hseg, hp', hnull, hhold, hpost⟩ := seg_append.mp h.list
  have hp' : p = b.addr := hp'
  subst hp'
  have hsame := vmarked_same (P.view s) b.addr
  have hother : ∀ c ∈ pre ++ post, ∀ x, c.addr ≤ x → x < c.addr + 20 →
      vmarked (P.view s) b.addr x = P.view s x := by
    intro c hc x h1 h2
    refine hsame x fun hx => ?_
    have := pairwise_split h.blocks.apart hc
    omega
  refine ⟨?_, h.blocks.setFree true, h.lo, h.hi, h.page⟩
  rw [P.view_put]
  show Seg vNode _ s.vmem.vmemList _ 0
  rw [seg_append]
  refine ⟨b.addr, hseg.frame fun c hc => hother c (by simp [hc]),
    rfl, hnull, vmarked_holds hhold, ?_⟩
  show Seg vNode _ (load32 (vmarked (P.view s) b.addr) (b.addr + 16)) post 0
  rw [vmarked_next]
  exact hpost.frame fun c hc => hother c (by simp [hc])

theorem mem_vmerge_used {b : VBlk} {bs : List VBlk} (hb : b.free = false) :
    b ∈ vmerge bs ↔ b ∈ bs := by
  unfold vmerge
  split
  · next a z c a' z' c' bs =>
    have hne : ∀ {a z : Nat} {cap : Option Nat}, b ≠ ⟨a, z, true, cap⟩ := by
      rintro a z cap rfl
      cases hb
    split
    · simp [hne]
    · rfl
  · rfl

end Kfs
