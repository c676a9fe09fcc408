import Kfs.Shell
import Kfs.CrossFree
import Kfs.KHeapAccept

/-!
# What the shell's commands keep

`write` and `read` trust a magic. Between commands that plant no magic of their
own, every magic in the two regions is that of a block in use (`ShellOk.marks`),
and it takes three facts about the bytes to keep it so: all other words the
allocators write are inert; in the heap every second word is inert, so that no
word stored at a payload completes a magic with its neighbours; and a `vmalloc`
payload is zero past its first word.
-/

namespace Kfs

open Kfs.Lib

variable {img : Image}

/-! ## Blocks handed out -/

/-- What a block was handed out as, a pointer and a size, if it is in use. -/
def grantOf {α : Type} (free : α → Bool) (out : α → Nat × Nat) (b : α) : Option (Nat × Nat) :=
  if free b then none else some (out b)

section Grant

variable {α : Type} {free : α → Bool} {out : α → Nat × Nat} {q : Nat × Nat}

theorem mem_grantOf {bs : List α} :
    q ∈ bs.filterMap (grantOf free out) ↔ ∃ b ∈ bs, free b = false ∧ q = out b := by
  rw [List.mem_filterMap]
  refine exists_congr fun b => and_congr_right fun _ => ?_
  unfold grantOf
  cases free b <;> simp [eq_comm]

theorem grantOf_congr {bs cs : List α} (h : ∀ b, free b = false → (b ∈ bs ↔ b ∈ cs)) :
    q ∈ bs.filterMap (grantOf free out) ↔ q ∈ cs.filterMap (grantOf free out) := by
  rw [mem_grantOf, mem_grantOf]
  constructor
  · rintro ⟨b, hb, hf, hq⟩
    exact ⟨b, (h b hf).mp hb, hf, hq⟩
  · rintro ⟨b, hb, hf, hq⟩
    exact ⟨b, (h b hf).mpr hb, hf, hq⟩

theorem grantOf_release {pre post : List α} {b b' : α} (hb' : free b' = true)
    (hne : ∀ c ∈ pre ++ post, (out c).1 ≠ (out b).1) :
    q ∈ (pre ++ b' :: post).filterMap (grantOf free out) ↔
      q ∈ (pre ++ b :: post).filterMap (grantOf free out) ∧ q.1 ≠ (out b).1 := by
  rw [mem_grantOf, mem_grantOf]
  constructor
  · rintro ⟨c, hc, hf, rfl⟩
    simp only [List.mem_append, List.mem_cons] at hc
    rcases hc with hc | rfl | hc
    · exact ⟨⟨c, by simp [hc], hf, rfl⟩, hne c (by simp [hc])⟩
    · rw [hb'] at hf
      cases hf
    · exact ⟨⟨c, by simp [hc], hf, rfl⟩, hne c (by simp [hc])⟩
  · rintro ⟨⟨c, hc, hf, rfl⟩, hcb⟩
    simp only [List.mem_append, List.mem_cons] at hc
    rcases hc with hc | rfl | hc
    · exact ⟨c, by simp [hc], hf, rfl⟩
    · exact absurd rfl hcb
    · exact ⟨c, by simp [hc], hf, rfl⟩

end Grant

def kgrant : Blk → Option (Nat × Nat) := grantOf Blk.free fun b => (b.addr + 16, b.size)

def vgrant : VBlk → Option (Nat × Nat) := grantOf VBlk.free fun b => (b.addr + 20, b.size)

theorem kgrant_serve {b : Blk} {r : Nat} (hb : b.Fits r) : ∃ c ∈ b.serve 16 16 r,
    c.addr = b.addr ∧ r ≤ c.size ∧ (b.serve 16 16 r).filterMap kgrant =
      [(b.addr + 16, c.size)] := by
  unfold Blk.serve
  split
  · exact ⟨_, List.mem_cons_self, rfl, Nat.le_refl _, rfl⟩
  · exact ⟨_, List.mem_cons_self, rfl, hb.2, rfl⟩

theorem vgrant_serve {b : VBlk} {r : Nat} (hb : b.Fits r) : ∃ c ∈ b.serve r,
    c.addr = b.addr ∧ r ≤ c.size ∧ (b.serve r).filterMap vgrant = [(b.addr + 20, c.size)] := by
  unfold VBlk.serve
  split
  · exact ⟨_, List.mem_cons_self, rfl, Nat.le_refl _, rfl⟩
  · exact ⟨_, List.mem_cons_self, rfl, hb.2, rfl⟩

theorem kgrant_coalesce {bs : List Blk} {q : Nat × Nat} :
    q ∈ (coalesce 16 bs).filterMap kgrant ↔ q ∈ bs.filterMap kgrant :=
  grantOf_congr fun _ hf => mem_coalesce_used hf

theorem vgrant_vmerge {vs : List VBlk} {q : Nat × Nat} :
    q ∈ (vmerge vs).filterMap vgrant ↔ q ∈ vs.filterMap vgrant :=
  grantOf_congr fun _ hf => mem_vmerge_used hf

theorem kgrant_release {pre post : List Blk} {b : Blk} {a e : Nat} {q : Nat × Nat}
    (ht : Tiled 16 a (pre ++ b :: post) e) :
    q ∈ (pre ++ b.release :: post).filterMap kgrant ↔
      q ∈ (pre ++ b :: post).filterMap kgrant ∧ q.1 ≠ b.addr + 16 := by
  refine grantOf_release rfl fun c hc => ?_
  have := pairwise_split ht.apart hc
  show c.addr + 16 ≠ b.addr + 16
  omega

theorem vgrant_release {pre post : List VBlk} {b : VBlk} {e : Nat} {q : Nat × Nat}
    (ht : VList e (pre ++ b :: post)) :
    q ∈ (pre ++ b.release :: post).filterMap vgrant ↔
      q ∈ (pre ++ b :: post).filterMap vgrant ∧ q.1 ≠ b.addr + 20 := by
  refine grantOf_release rfl fun c hc => ?_
  have := pairwise_split ht.apart hc
  show c.addr + 20 ≠ b.addr + 20
  omega

/-! ## The invariant -/

/-- The bytes of a `vmalloc` region that ends at `e` past the first word of a payload, and
those past `e`. -/
def Spare (vs : List VBlk) (e x : Nat) : Prop :=
  (∃ v ∈ vs, v.addr + 24 ≤ x ∧ x < v.addr + 20 + v.size) ∨ e ≤ x ∧ x ≤ kvmemEnd

/-- A word inside the two regions. -/
def Covered (u : Nat) : Prop := kheapStart ≤ u ∧ u + 4 ≤ kvmemEnd + 1

/-- **What every command keeps.** `live` are the pointers handed out and not freed, with
their sizes. -/
structure ShellOk (s : State Flat) (live : Finset (Nat × Nat)) (bs : List Blk) (vs : List VBlk) :
    Prop where
  heap : HeapRep s bs
  vmem : VmemInv flatData s vs
  inside : s.vmem.vmemCurrent ≤ kvmemEnd
  align : ∀ v ∈ vs, v.addr % 4 = 0 ∧ v.size % 4 = 0 ∧ v.size ≠ 4
  granted : ∀ q, q ∈ live ↔ q ∈ bs.filterMap kgrant ∨ q ∈ vs.filterMap vgrant
  odd : ∀ u, kheapStart ≤ u → u ≤ kheapEnd → u % 8 = 4 → Inert magicAllocated (load32 s.mem.data u)
  zero : ∀ x, Spare vs s.vmem.vmemCurrent x → s.mem.data x = 0
  marks : ∀ u, Covered u → load32 s.mem.data u = magicAllocated → ∃ z, (u + 8, z) ∈ live

variable {s s' : State Flat} {live live' : Finset (Nat × Nat)} {bs bs' : List Blk}
  {vs vs' : List VBlk}

theorem ShellOk.stores (h : ShellOk s live bs vs) {W : Nat → Prop} {d : Mem}
    (hd : MarkStores magicAllocated W s.mem.data d) (hlow : SameOff (· < 0x1000) d s'.mem.data)
    (hW : ∀ u, W u → u % 8 = 0 ∨ kvmemStart ≤ u) (heap : HeapRep s' bs')
    (vmem : VmemInv flatData s' vs') (inside : s'.vmem.vmemCurrent ≤ kvmemEnd)
    (align : ∀ v ∈ vs', v.addr % 4 = 0 ∧ v.size % 4 = 0 ∧ v.size ≠ 4)
    (hlive : ∀ q, q ∈ live' ↔ q ∈ bs'.filterMap kgrant ∨ q ∈ vs'.filterMap vgrant)
    (zero : ∀ x, Spare vs' s'.vmem.vmemCurrent x → s'.mem.data x = 0)
    (marks : ∀ u, load32 s'.mem.data u = magicAllocated → (∃ z, (u + 8, z) ∈ live) ∨ W u →
      ∃ z, (u + 8, z) ∈ live') : ShellOk s' live' bs' vs' where
  heap := heap
  vmem := vmem
  inside := inside
  align := align
  granted := hlive
  odd u h1 h2 hu := by
    have hi := h.odd u h1 h2 hu
    simp only [kheapStart, kheapEnd] at h1 h2
    rw [hlow.load32 fun x _ _ => by omega]
    refine hd.inert (by omega) (fun hWu => ?_) hi
    have := hW u hWu
    simp only [kvmemStart] at this
    omega
  zero := zero
  marks u hu hm := by
    refine marks u hm ?_
    have h1 := hu.1
    simp only [kheapStart] at h1
    rw [hlow.load32 fun x _ _ => by omega] at hm
    exact (hd.quiet spread_allocated u hm).imp_left (h.marks u hu)

theorem Spare.lo {vs : List VBlk} (h : VmemInv flatData s vs) {x : Nat}
    (hx : Spare vs s.vmem.vmemCurrent x) : kvmemStart ≤ x := by
  rcases hx with ⟨v, hv, h1, h2⟩ | hx
  · have := h.mem hv
    simp only [kvmemStart]
    omega
  · exact h.lo.trans hx.1

theorem Spare.not_header {vs : List VBlk} (h : VmemInv flatData s vs) {x : Nat}
    (hx : Spare vs s.vmem.vmemCurrent x) : ¬ InVHeader vs x := by
  rintro ⟨c, hc, h1, h2⟩
  rcases hx with ⟨v, hv, h3, h4⟩ | ⟨h3, -⟩
  · rcases h.blocks.sep hv hc with h5 | h5 | h5
    · subst h5
      omega
    · omega
    · omega
  · have := h.mem hc
    omega

theorem Spare.release {pre post : List VBlk} {b : VBlk} {e x : Nat}
    (hx : Spare (pre ++ b.release :: post) e x) : Spare (pre ++ b :: post) e x := by
  refine hx.imp_left ?_
  rintro ⟨v, hv, h1, h2⟩
  simp only [List.mem_append, List.mem_cons] at hv
  rcases hv with hv | rfl | hv
  · exact ⟨v, by simp [hv], h1, h2⟩
  · exact ⟨b, by simp, h1, h2⟩
  · exact ⟨v, by simp [hv], h1, h2⟩

theorem mem_vmerge {vs : List VBlk} {v : VBlk} (hv : v ∈ vmerge vs) :
    ∃ w ∈ vs, w.addr = v.addr ∧ w.size = v.size := by
  unfold vmerge at hv
  split at hv
  · split at hv
    · rcases List.mem_cons.mp hv with rfl | hv
      · exact ⟨_, List.mem_cons_self, rfl, rfl⟩
      · exact ⟨v, by simp [hv], rfl, rfl⟩
    · exact ⟨v, hv, rfl, rfl⟩
  · exact ⟨v, hv, rfl, rfl⟩

theorem Spare.vmerge {vs : List VBlk} {e x : Nat} (hx : Spare (vmerge vs) e x) : Spare vs e x := by
  refine hx.imp_left ?_
  rintro ⟨v, hv, h1, h2⟩
  obtain ⟨w, hw, ha, hz⟩ := mem_vmerge hv
  exact ⟨w, hw, by omega, by omega⟩

theorem Spare.serve {pre post : List VBlk} {b : VBlk} {r : Nat}
    (h : VmemInv flatData s (pre ++ b :: post)) (hb : b.Fits r) {x : Nat}
    (hx : Spare (pre ++ b.serve r ++ post) s.vmem.vmemCurrent x) :
    Spare (pre ++ b :: post) s.vmem.vmemCurrent x ∧ ¬ InVHeader (b.serve r) x := by
  have hbin := h.mem (b := b) (by simp)
  have hout : x < b.addr ∨ b.addr + 20 + b.size ≤ x → ¬ InVHeader (b.serve r) x := by
    intro hx hhead
    have := VBlk.serve_header hhead
    omega
  have hap := fun v hv => pairwise_split h.blocks.apart (c := v) hv
  rcases hx with ⟨v, hv, h1, h2⟩ | hx
  · simp only [List.mem_append] at hv
    rcases hv with (hv | hv) | hv
    · have := hap v (by simp [hv])
      exact ⟨.inl ⟨v, by simp [hv], h1, h2⟩, hout (by omega)⟩
    · have hfit := hb.2
      unfold VBlk.serve at hv ⊢
      split at hv
      · next hsplit =>
        rw [if_pos hsplit]
        simp only [List.mem_cons, List.not_mem_nil, or_false] at hv
        have hin : b.addr + 24 ≤ x ∧ x < b.addr + 20 + b.size := by
          rcases hv with rfl | rfl
          · simp only at h1 h2
            omega
          · simp only at h1 h2
            omega
        refine ⟨.inl ⟨b, by simp, hin.1, hin.2⟩, ?_⟩
        rintro ⟨c, hc, h3, h4⟩
        simp only [List.mem_cons, List.not_mem_nil, or_false] at hc
        rcases hv with rfl | rfl <;> rcases hc with rfl | rfl <;> simp only at h1 h2 h3 h4 <;> omega
      · next hsplit =>
        rw [if_neg hsplit]
        rw [List.mem_singleton] at hv
        subst hv
        simp only at h1 h2
        refine ⟨.inl ⟨b, by simp, h1, h2⟩, ?_⟩
        rintro ⟨c, hc, h3, h4⟩
        rw [List.mem_singleton] at hc
        subst hc
        simp only at h3 h4
        omega
    · have := hap v (by simp [hv])
      exact ⟨.inl ⟨v, by simp [hv], h1, h2⟩, hout (by omega)⟩
  · exact ⟨.inr hx, hout (by omega)⟩

/-! ## Pointers -/

theorem ShellOk.kgrant_bounds (h : ShellOk s live bs vs) {q : Nat × Nat}
    (hq : q ∈ bs.filterMap kgrant) : 0x200010 ≤ q.1 ∧ q.1 + q.2 ≤ 0x300000 := by
  obtain ⟨b, hb, -, rfl⟩ := mem_grantOf.mp hq
  have := h.heap.bounds hb
  simp only
  omega

theorem ShellOk.vgrant_bounds (h : ShellOk s live bs vs) {q : Nat × Nat}
    (hq : q ∈ vs.filterMap vgrant) : 0x300014 ≤ q.1 ∧ q.1 + q.2 ≤ 0x600000 := by
  obtain ⟨b, hb, -, rfl⟩ := mem_grantOf.mp hq
  have := h.vmem.mem hb
  have := h.inside
  simp only [kvmemEnd] at *
  omega

/-- A pointer whose magic is gone can be dropped. -/
theorem marks_drop {m : Mem} {p : Nat} (hgone : load32 m (p - 8) ≠ magicAllocated) (u : Nat)
    (hu : load32 m u = magicAllocated) (hlive : (∃ z, (u + 8, z) ∈ live) ∨ False) :
    ∃ z, (u + 8, z) ∈ live.filter (·.1 ≠ p) := by
  obtain ⟨z, hz⟩ := hlive.resolve_right id
  refine ⟨z, Finset.mem_filter.mpr ⟨hz, fun hp => hgone ?_⟩⟩
  have hp : u + 8 = p := hp
  rw [show p - 8 = u by omega]
  exact hu

/-! ## Allocating -/

theorem round8_pos {n : Nat} (hn : n ≠ 0) (hn' : n ≤ 0xFFFFFFF8) : 8 ≤ round8 n := by
  have hmod := round8_mod n
  unfold round8 at hmod ⊢
  rw [and_seven] at hmod ⊢
  split at hmod
  · rename_i h7
    rw [if_pos h7]
    rw [add32_eq (by omega), and_mask8 _ (by omega)] at hmod ⊢
    omega
  · rename_i h7
    rw [if_neg h7]
    omega

/-- **`kmalloc`** hands out a block. -/
theorem ShellOk.kmalloc (h : ShellOk s live bs vs) {n p : Nat} (hn : n ≠ 0)
    (hr : kmalloc n s = .ok p s') :
    (∃ bs', ShellOk s' (insert (p, load32 s'.mem.data (p - 16)) live) bs' vs) ∧
      kheapStart + 16 ≤ p ∧ p < 2 ^ 32 ∧ (n ≤ 0xFFFFFFF8 → 8 ≤ load32 s'.mem.data (p - 16)) := by
  obtain ⟨-, -, hvmem⟩ := kmalloc_sameTables n _ _ _ hr
  rcases first_such (Blk.Fits (round8 n)) bs with hfull | ⟨pre, b, post, rfl, hpre, hb⟩
  · rw [kmalloc_full h.heap hn hfull] at hr
    cases hr
  obtain ⟨t, hk, hrep, -, hsame, hstores⟩ := kmalloc_rep h.heap hn hpre hb
  rw [hk] at hr
  injection hr with hp ht
  subst hp ht
  have hbnd := h.heap.bounds (b := b) (by simp)
  have hb8 := h.heap.addr_mod (b := b) (by simp)
  obtain ⟨c, hc, hca, hcr, hgrant⟩ := kgrant_serve hb
  have hsize : load32 t.mem.data (b.addr + 16 - 16) = c.size := by
    rw [Nat.add_sub_cancel, ← hca]
    exact (hrep.list.holds c (by simp [hc])).1
  have hsame' : SameOff (· < kvmemStart) s.mem.data t.mem.data := hsame.mono fun x hx => by
    simp only [kvmemStart]
    omega
  refine ⟨⟨_, h.stores hstores (SameOff.refl _ _) (fun u hu => .inl (by omega)) hrep
    (h.vmem.frame hvmem hsame') (hvmem ▸ h.inside) h.align ?_ (fun x hx => ?_) ?_⟩,
      ?_, by omega, ?_⟩
  · intro q
    have hold := h.granted q
    have hfree : kgrant b = none := by simp [kgrant, grantOf, hb.1]
    rw [hsize, Finset.mem_insert, hold]
    simp only [List.filterMap_append, List.filterMap_cons, hfree, hgrant, List.mem_append,
      List.mem_singleton]
    grind
  · rw [hvmem] at hx
    have hlo := hx.lo h.vmem
    rw [hsame' x (by omega)]
    exact h.zero x hx
  · rintro u - (⟨z, hz⟩ | rfl)
    · exact ⟨z, Finset.mem_insert_of_mem hz⟩
    · exact ⟨_, Finset.mem_insert_self _ _⟩
  · simp only [kheapStart]
    omega
  · intro hn'
    rw [hsize]
    exact (round8_pos hn hn').trans hcr

theorem vserve_align {b : VBlk} {r : Nat} (hr : r % 8 = 0)
    (hb : b.addr % 4 = 0 ∧ b.size % 4 = 0 ∧ b.size ≠ 4) :
    ∀ v ∈ b.serve r, v.addr % 4 = 0 ∧ v.size % 4 = 0 ∧ v.size ≠ 4 := by
  unfold VBlk.serve
  split
  · intro v hv
    simp only [List.mem_cons, List.not_mem_nil, or_false] at hv
    rcases hv with rfl | rfl
    · simp only
      omega
    · simp only
      omega
  · intro v hv
    rw [List.mem_singleton] at hv
    subst hv
    exact hb

theorem Spare.append {r k : Nat} (h : VmemInv flatData s vs)
    (hroom : r + 20 ≤ k * 4096) (hin : s.vmem.vmemCurrent + k * 4096 ≤ kvmemEnd) {x : Nat}
    (hx : Spare (vs ++ [⟨s.vmem.vmemCurrent, r, false, some (k * 4096 - 20)⟩])
      (s.vmem.vmemCurrent + k * 4096) x) :
    Spare vs s.vmem.vmemCurrent x ∧
      ¬ (s.vmem.vmemCurrent ≤ x ∧ x < s.vmem.vmemCurrent + 20 ∨ InVHeader vs x) := by
  have hspare : Spare vs s.vmem.vmemCurrent x ∧
      ¬ (s.vmem.vmemCurrent ≤ x ∧ x < s.vmem.vmemCurrent + 20) := by
    rcases hx with ⟨v, hv, h1, h2⟩ | hx
    · rcases List.mem_append.mp hv with hv | hv
      · have := h.mem hv
        exact ⟨.inl ⟨v, hv, h1, h2⟩, by omega⟩
      · rw [List.mem_singleton] at hv
        subst hv
        simp only at h1 h2
        exact ⟨.inr ⟨by omega, by omega⟩, by omega⟩
    · exact ⟨.inr ⟨by omega, hx.2⟩, by omega⟩
  exact ⟨hspare.1, not_or.mpr ⟨hspare.2, hspare.1.not_header h⟩⟩

theorem ShellOk.next_inert (h : ShellOk s live bs vs) {b : VBlk} (hb : b ∈ vs) :
    Inert magicAllocated (load32 s.mem.data (b.addr + 16)) := by
  obtain ⟨pre, post, rfl⟩ := List.append_of_mem hb
  obtain ⟨p, -, hp, -, -, hpost⟩ := seg_append.mp h.vmem.list
  have hp : p = b.addr := hp
  subst hp
  refine vseg_inert hpost fun c hc => ?_
  have := h.vmem.mem (b := c) (by simp [hc])
  exact ⟨(h.align c (by simp [hc])).1, by omega⟩

theorem ShellOk.vserve {pre post : List VBlk} {b : VBlk} {r : Nat}
    (h : ShellOk s live bs (pre ++ b :: post)) (hr : r % 8 = 0) (hb : b.Fits r)
    (hs : s' = s.setData (vserved s.mem.data b.addr b.size r))
    (hinv : VmemInv flatData s' (pre ++ b.serve r ++ post)) :
    ShellOk s' (insert (b.addr + 20, load32 s'.mem.data b.addr) live) bs
      (pre ++ b.serve r ++ post) ∧ r ≤ load32 s'.mem.data b.addr := by
  have hbnd := h.vmem.mem (b := b) (by simp)
  have hal := h.align b (by simp)
  obtain ⟨c, hc, hca, hcr, hgrant⟩ := vgrant_serve hb
  have hsize : load32 s'.mem.data b.addr = c.size := by
    rw [← hca]
    exact (hinv.list.holds c (by simp [hc])).1
  have hsame : SameOff (InVHeader (b.serve r)) s.mem.data s'.mem.data := by
    rw [hs]
    exact vserved_same
  have hstores : MarkStores magicAllocated (· = b.addr + 12) s.mem.data s'.mem.data := by
    rw [hs]
    exact vserved_stores hal.1 hal.2.1 (by omega) (by omega) (h.next_inert (by simp))
  have hkheap : s'.kheap = s.kheap := by rw [hs]; rfl
  have hvmem : s'.vmem = s.vmem := by rw [hs]; rfl
  refine ⟨h.stores hstores (SameOff.refl _ _) (fun u hu => .inr ?_)
    (h.heap.frame (u := s.kheap.heapUsed) hkheap (hsame.mono fun x hx => ?_)) hinv
    (hvmem ▸ h.inside)
    (fun v hv => ?_) (fun q => ?_) (fun x hx => ?_) ?_, hsize ▸ hcr⟩
  · simp only [kvmemStart]
    omega
  · have := VBlk.serve_header hx
    simp only [kheapEnd]
    omega
  · simp only [List.mem_append] at hv
    rcases hv with (hv | hv) | hv
    · exact h.align v (by simp [hv])
    · exact vserve_align hr hal v hv
    · exact h.align v (by simp [hv])
  · have hfree : vgrant b = none := by simp [vgrant, grantOf, hb.1]
    rw [hsize, Finset.mem_insert, h.granted q]
    simp only [List.filterMap_append, List.filterMap_cons, hfree, hgrant, List.mem_append,
      List.mem_singleton]
    grind
  · rw [hvmem] at hx
    obtain ⟨h1, h2⟩ := Spare.serve h.vmem hb hx
    rw [hsame x h2]
    exact h.zero x h1
  · rintro u - (⟨z, hz⟩ | rfl)
    · exact ⟨z, Finset.mem_insert_of_mem hz⟩
    · exact ⟨_, Finset.mem_insert_self _ _⟩

theorem ShellOk.vexpand {r k : Nat} (h : ShellOk s live bs vs) (hr : r % 8 = 0)
    (hx : VExpand img s s' vs r k) :
    ShellOk s' (insert (s.vmem.vmemCurrent + 20, load32 s'.mem.data s.vmem.vmemCurrent) live) bs
      (vs ++ [⟨s.vmem.vmemCurrent, r, false, some (k * 4096 - 20)⟩]) ∧
      r ≤ load32 s'.mem.data s.vmem.vmemCurrent := by
  have hlow := h.vmem.lo
  have hpage := h.vmem.page
  have hroom := hx.room
  have hend := hx.inside
  simp only [kvmemStart, kvmemEnd] at hlow hend
  have hsize : load32 s'.mem.data s.vmem.vmemCurrent = r :=
    (hx.list.list.holds ⟨s.vmem.vmemCurrent, r, false, some (k * 4096 - 20)⟩ (by simp)).1
  have hprev : lastAddr 0 vs % 4 = 0 := by
    rcases List.eq_nil_or_concat vs with rfl | ⟨init, l, rfl⟩
    · rfl
    · rw [List.concat_eq_append, lastAddr_append]
      exact (h.align l (by simp)).1
  have hstores :
      MarkStores magicAllocated (· = s.vmem.vmemCurrent + 12) s.mem.data s'.mem.data := by
    rw [hx.data]
    have h1 := newHeader_stores (m := s.mem.data) (e := s.vmem.vmemCurrent) (r := r)
      (c := k * 4096 - 20) (by omega) (inert_aligned (by omega) (by omega))
      (inert_aligned (by omega) (by omega))
    exact h1.trans ((vlinked_stores hprev (by omega) (by omega)).mono fun _ hf => hf.elim)
  refine ⟨h.stores hstores (SameOff.refl _ _) (fun u hu => .inr ?_)
    (h.heap.frame (u := s.kheap.heapUsed) hx.kheap (hx.same.mono fun x hx => ?_)) hx.list
    (hx.current ▸ hx.inside) (fun v hv => ?_) (fun q => ?_) (fun x hsp => ?_) ?_, hsize.ge⟩
  · simp only [kvmemStart]
    omega
  · simp only [kheapEnd]
    rcases hx with hx | hx
    · omega
    · have := (h.vmem.inHeader hx).1
      simp only [kvmemStart] at this
      omega
  · rcases List.mem_append.mp hv with hv | hv
    · exact h.align v hv
    · rw [List.mem_singleton] at hv
      subst hv
      simp only
      omega
  · rw [hsize, Finset.mem_insert, h.granted q]
    simp only [List.filterMap_append, List.filterMap_cons, List.filterMap_nil, vgrant, grantOf,
      Bool.false_eq_true, ↓reduceIte, List.mem_append, List.mem_singleton]
    grind
  · rw [hx.current] at hsp
    obtain ⟨h1, h2⟩ := Spare.append h.vmem hx.room hx.inside hsp
    rw [hx.same x h2]
    exact h.zero x h1
  · rintro u - (⟨z, hz⟩ | rfl)
    · exact ⟨z, Finset.mem_insert_of_mem hz⟩
    · exact ⟨_, Finset.mem_insert_self _ _⟩

/-- **`vmalloc`** hands out a block. -/
theorem ShellOk.vmalloc (h : ShellOk s live bs vs) {n p : Nat} (hn : n ≠ 0) (hwrap : NoWrap s n)
    (hr : vmalloc img n s = .ok p s') :
    (∃ vs', ShellOk s' (insert (p, load32 s'.mem.data (p - 20)) live) bs vs') ∧
      kvmemStart + 20 ≤ p ∧ p < 2 ^ 32 ∧ (n ≤ 0xFFFFFFF8 → 8 ≤ load32 s'.mem.data (p - 20)) := by
  have hlow := h.vmem.lo
  have hin := h.inside
  simp only [kvmemStart, kvmemEnd] at hlow hin ⊢
  rcases h.vmem.vmalloc_cases hn hwrap hr with
    ⟨pre, b, post, rfl, -, hb, rfl, hs, hinv⟩ | ⟨-, rfl, k, hx⟩
  · have hbnd := h.vmem.mem (b := b) (by simp)
    obtain ⟨hok, hsize⟩ := h.vserve (round8_mod n) hb hs hinv
    rw [Nat.add_sub_cancel]
    exact ⟨⟨_, hok⟩, by omega, by omega, fun hn' => (round8_pos hn hn').trans hsize⟩
  · obtain ⟨hok, hsize⟩ := h.vexpand (round8_mod n) hx
    rw [Nat.add_sub_cancel]
    exact ⟨⟨_, hok⟩, by omega, by omega, fun hn' => (round8_pos hn hn').trans hsize⟩

/-! ## Freeing -/

theorem ShellOk.drop_heap (h : ShellOk s live bs vs) {b : Blk} (hb : b ∈ bs)
    (hbs' : ∀ q, q ∈ bs'.filterMap kgrant ↔ q ∈ bs.filterMap kgrant ∧ q.1 ≠ b.addr + 16)
    (hvs' : ∀ q, q ∈ vs'.filterMap vgrant ↔ q ∈ vs.filterMap vgrant) (q : Nat × Nat) :
    q ∈ live.filter (·.1 ≠ b.addr + 16) ↔ q ∈ bs'.filterMap kgrant ∨ q ∈ vs'.filterMap vgrant := by
  have hbnd := h.heap.bounds hb
  have hne : q ∈ vs.filterMap vgrant → q.1 ≠ b.addr + 16 := by
    intro hq
    have := h.vgrant_bounds hq
    omega
  rw [Finset.mem_filter, h.granted q, hbs', hvs']
  grind

theorem ShellOk.drop_vmem (h : ShellOk s live bs vs) {b : VBlk} (hb : b ∈ vs)
    (hbs' : ∀ q, q ∈ bs'.filterMap kgrant ↔ q ∈ bs.filterMap kgrant)
    (hvs' : ∀ q, q ∈ vs'.filterMap vgrant ↔ q ∈ vs.filterMap vgrant ∧ q.1 ≠ b.addr + 20)
    (q : Nat × Nat) :
    q ∈ live.filter (·.1 ≠ b.addr + 20) ↔ q ∈ bs'.filterMap kgrant ∨ q ∈ vs'.filterMap vgrant := by
  have hbnd := h.vmem.mem hb
  have hne : q ∈ bs.filterMap kgrant → q.1 ≠ b.addr + 20 := by
    intro hq
    have := h.kgrant_bounds hq
    omega
  rw [Finset.mem_filter, h.granted q, hbs', hvs']
  grind

theorem ShellOk.align_release {pre post : List VBlk} {b : VBlk}
    (h : ShellOk s live bs (pre ++ b :: post)) :
    ∀ v ∈ pre ++ b.release :: post, v.addr % 4 = 0 ∧ v.size % 4 = 0 ∧ v.size ≠ 4 := by
  intro v hv
  simp only [List.mem_append, List.mem_cons] at hv
  rcases hv with hv | rfl | hv
  · exact h.align v (by simp [hv])
  · exact h.align b (by simp)
  · exact h.align v (by simp [hv])

theorem align_vmerge {vs : List VBlk} (h : ∀ v ∈ vs, v.addr % 4 = 0 ∧ v.size % 4 = 0 ∧ v.size ≠ 4) :
    ∀ v ∈ vmerge vs, v.addr % 4 = 0 ∧ v.size % 4 = 0 ∧ v.size ≠ 4 := by
  intro v hv
  obtain ⟨w, hw, ha, hz⟩ := mem_vmerge hv
  have := h w hw
  omega

/-- **`kfree`** takes back a pointer of `kmalloc`. -/
theorem ShellOk.kfree_heap (h : ShellOk s live bs vs) {b : Blk} (hb : b ∈ bs)
    (hf : b.free = false) : ∃ s' bs', kfree (b.addr + 16) s = .ok () s' ∧
      ShellOk s' (live.filter (·.1 ≠ b.addr + 16)) bs' vs := by
  have hbnd := h.heap.bounds hb
  obtain ⟨pre, post, rfl⟩ := List.append_of_mem hb
  obtain ⟨s', hr, hrep, -, -, hsame, hstores, hfreed⟩ := kfree_rep h.heap hf
  obtain ⟨-, -, hvmem⟩ := kfree_sameTables _ _ _ _ hr
  have hsame' : SameOff (· < kvmemStart) s.mem.data s'.mem.data := hsame.mono fun x hx => by
    have := h.heap.inHeader hx
    simp only [kheapEnd, kvmemStart] at *
    omega
  refine ⟨s', _, hr, h.stores hstores (SameOff.refl _ _) (fun u hu => hu.elim) hrep
    (h.vmem.frame hvmem hsame') (hvmem ▸ h.inside) h.align
    (h.drop_heap hb (fun q => ?_) fun q => Iff.rfl)
    (fun x hx => ?_) (marks_drop ?_)⟩
  · rw [kgrant_coalesce]
    exact kgrant_release h.heap.tiled
  · rw [hvmem] at hx
    have hlo := hx.lo h.vmem
    rw [hsame' x (by omega)]
    exact h.zero x hx
  · rw [show b.addr + 16 - 8 = b.addr + 8 by omega, hfreed]
    decide

/-- **`kfree`** takes back a pointer of `vmalloc` too. -/
theorem ShellOk.kfree_vmem (h : ShellOk s live bs vs) {b : VBlk} (hb : b ∈ vs)
    (hf : b.free = false) : ∃ s' bs' vs', kfree (b.addr + 20) s = .ok () s' ∧
      ShellOk s' (live.filter (·.1 ≠ b.addr + 20)) bs' vs' := by
  obtain ⟨pre, post, rfl⟩ := List.append_of_mem hb
  obtain ⟨s', hr, hrep, hinv, hvmem, hsame, hfreed, hstores⟩ := Kfs.kfree_vmem h.heap h.vmem hf
  refine ⟨s', _, _, hr, h.stores (hstores (h.align b hb).1) (SameOff.refl _ _) (fun u hu => hu.elim)
    hrep hinv (hvmem ▸ h.inside) h.align_release
    (h.drop_vmem hb (fun q => kgrant_coalesce) fun q => vgrant_release h.vmem.blocks)
    (fun x hx => ?_) (marks_drop ?_)⟩
  · rw [hvmem] at hx
    have hx := hx.release
    have hlo := hx.lo h.vmem
    rw [hsame x ?_]
    · exact h.zero x hx
    · rintro (hh | ⟨c, hc, h1, h2⟩)
      · have := h.heap.inHeader hh
        simp only [kvmemStart, kheapEnd] at *
        omega
      · rw [List.mem_singleton] at hc
        exact hx.not_header h.vmem ⟨c, by simp [hc], h1, h2⟩
  · rw [show b.addr + 20 - 8 = b.addr + 12 by omega, hfreed]
    decide

/-- **`vfree`** takes back a pointer of `vmalloc`. -/
theorem ShellOk.vfree_vmem (h : ShellOk s live bs vs) {b : VBlk} (hb : b ∈ vs)
    (hf : b.free = false) : ∃ s' vs', vfree (b.addr + 20) s = .ok () s' ∧
      ShellOk s' (live.filter (·.1 ≠ b.addr + 20)) bs vs' := by
  obtain ⟨pre, post, rfl⟩ := List.append_of_mem hb
  obtain ⟨d, hr, hinv, hsame, hstores⟩ := vfree_spec flatData_isData h.vmem (flatData_plain _ _) hf
  obtain ⟨hstores, hgone⟩ := hstores fun c hc => (h.align c hc).1
  refine ⟨_, _, hr, h.stores hstores (SameOff.refl _ _) (fun u hu => hu.elim)
    (h.heap.frame (u := s.kheap.heapUsed) rfl (hsame.mono fun x hx => ?_)) hinv h.inside
    (align_vmerge h.align_release) (h.drop_vmem hb (fun q => Iff.rfl) fun q => ?_) (fun x hx => ?_)
    (marks_drop ?_)⟩
  · have := (h.vmem.inHeader hx).1
    simp only [kvmemStart, kheapEnd] at *
    omega
  · rw [vgrant_vmerge]
    exact vgrant_release h.vmem.blocks
  · have hx := hx.vmerge.release
    show d x = 0
    rw [hsame x (hx.not_header h.vmem)]
    exact h.zero x hx
  · rw [show b.addr + 20 - 8 = b.addr + 12 by omega]
    exact hgone

/-- **`vfree`** takes back a pointer of `kmalloc` too. -/
theorem ShellOk.vfree_heap (h : ShellOk s live bs vs) {b : Blk} (hb : b ∈ bs)
    (hf : b.free = false) : ∃ s' bs' vs', vfree (b.addr + 16) s = .ok () s' ∧
      ShellOk s' (live.filter (·.1 ≠ b.addr + 16)) bs' vs' := by
  have hbnd := h.heap.bounds hb
  obtain ⟨pre, post, rfl⟩ := List.append_of_mem hb
  obtain ⟨d, hr, hrep, hinv, hsame, hfreed, hstores⟩ := Kfs.vfree_heap h.heap h.vmem hf
  obtain ⟨d', hstores, hlow⟩ := hstores fun c hc => (h.align c hc).1
  refine ⟨_, _, _, hr, h.stores hstores hlow (fun u hu => hu.elim) hrep hinv h.inside
    (align_vmerge h.align) (h.drop_heap hb (fun q => kgrant_release h.heap.tiled) fun q =>
      vgrant_vmerge)
    (fun x hx => ?_) (marks_drop ?_)⟩
  · have hx := hx.vmerge
    have hlo := hx.lo h.vmem
    simp only [kvmemStart] at hlo
    show d x = 0
    rw [hsame x ?_]
    · exact h.zero x hx
    · rintro (hx' | ⟨c, hc, h1, h2⟩ | hx')
      · omega
      · rw [List.mem_singleton] at hc
        subst hc
        omega
      · exact hx.not_header h.vmem hx'
  · show load32 d (b.addr + 16 - 8) ≠ _
    rw [show b.addr + 16 - 8 = b.addr + 8 by omega, hfreed]
    decide

/-! ## Storing at a pointer -/

theorem inertByte_zero : InertByte magicAllocated 0 := by
  intro i hi
  obtain rfl | rfl | rfl | rfl : i = 0 ∨ i = 1 ∨ i = 2 ∨ i = 3 := by omega
  all_goals decide

/-- A word between two inert bytes makes no new mark. -/
theorem ShellOk.marks_between (h : ShellOk s live bs vs) {a v : Nat}
    (hv : v % 2 ^ 32 ≠ magicAllocated) (h1 : InertByte magicAllocated (s.mem.data a))
    (h2 : InertByte magicAllocated (s.mem.data (a + 5)))
    {u : Nat} (hu : Covered u) (hm : load32 (store32 s.mem.data (a + 1) v) u = magicAllocated) :
    ∃ z, (u + 8, z) ∈ live := by
  have hquiet : Quiet magicAllocated (fun _ => False) s.mem.data (store32 s.mem.data (a + 1) v) :=
    (Quiet.refl _ _ _).between hv h1 h2
  exact h.marks u hu ((hquiet u hm).resolve_right id)

/-- At a pointer of `kmalloc`: in the heap every second word is inert. -/
theorem ShellOk.store_kgrant (h : ShellOk s live bs vs) {b : Blk} (hb : b ∈ bs) (hz : 4 ≤ b.size)
    {v : Nat} (hv : v % 2 ^ 32 ≠ magicAllocated) :
    ShellOk (s.setData (store32 s.mem.data (b.addr + 16) v)) live bs vs := by
  have hbnd := h.heap.bounds hb
  have hb8 := h.heap.addr_mod hb
  have hz8 := h.heap.align b hb
  have hlo := (h.odd (b.addr + 12) (by simp only [kheapStart]; omega)
    (by simp only [kheapEnd]; omega) (by omega)).high
  have hhi := (h.odd (b.addr + 20) (by simp only [kheapStart]; omega)
    (by simp only [kheapEnd]; omega) (by omega)).low
  have hoff : ∀ x, kvmemStart ≤ x → store32 s.mem.data (b.addr + 16) v x = s.mem.data x :=
    fun x hx => store32_other (by simp only [kvmemStart] at hx; omega)
  refine ⟨h.heap.store hb (by omega) (by omega), h.vmem.frame rfl fun x hx => hoff x (by omega),
    h.inside, h.align, h.granted, fun u h1 h2 hu => ?_, fun x hx => ?_,
    fun u => h.marks_between hv hlo hhi⟩
  · show Inert magicAllocated (load32 (store32 s.mem.data (b.addr + 16) v) u)
    rw [load32_store32_ne (by omega)]
    exact h.odd u h1 h2 hu
  · show store32 s.mem.data (b.addr + 16) v x = 0
    rw [hoff x (Spare.lo h.vmem hx)]
    exact h.zero x hx

/-- At a pointer of `vmalloc`: past its first word the payload is zero. -/
theorem ShellOk.store_vgrant (h : ShellOk s live bs vs) {b : VBlk} (hb : b ∈ vs) (hz : 4 ≤ b.size)
    {v : Nat} (hv : v % 2 ^ 32 ≠ magicAllocated) :
    ShellOk (s.setData (store32 s.mem.data (b.addr + 20) v)) live bs vs := by
  have hbnd := h.vmem.mem hb
  have hal := h.align b hb
  have hlo := (h.next_inert hb).high
  have hhi : InertByte magicAllocated (s.mem.data (b.addr + 24)) := by
    rw [h.zero _ (.inl ⟨b, hb, by omega, by omega⟩)]
    exact inertByte_zero
  have hoff : ∀ x, x < kvmemStart → store32 s.mem.data (b.addr + 20) v x = s.mem.data x :=
    fun x hx => store32_other (by simp only [kvmemStart] at hx; omega)
  refine ⟨h.heap.frame (u := s.kheap.heapUsed) rfl fun x hx => hoff x ?_,
    h.vmem.store hb (by omega) (by omega), h.inside, h.align, h.granted, fun u h1 h2 hu => ?_,
    fun x hx => ?_, fun u => h.marks_between hv hlo hhi⟩
  · simp only [kheapStart, kheapEnd, kvmemStart] at *
    omega
  · show Inert magicAllocated (load32 (store32 s.mem.data (b.addr + 20) v) u)
    rw [load32_store32_ne (by simp only [kheapEnd] at h2; omega)]
    exact h.odd u h1 h2 hu
  · show store32 s.mem.data (b.addr + 20) v x = 0
    rw [store32_other, h.zero x hx]
    rcases hx with ⟨c, hc, h1, h2⟩ | hx
    · rcases h.vmem.blocks.sep hb hc with h3 | h3 | h3
      · subst h3
        omega
      · omega
      · omega
    · have hx : s.vmem.vmemCurrent ≤ x := hx.1
      omega

/-- **A word at a live pointer**, unless it is the magic itself. -/
theorem ShellOk.store (h : ShellOk s live bs vs) {p z v : Nat} (hp : (p, z) ∈ live) (hz : 4 ≤ z)
    (hv : v % 2 ^ 32 ≠ magicAllocated) :
    ShellOk (s.setData (store32 s.mem.data p v)) live bs vs := by
  rcases (h.granted _).mp hp with hgr | hgr
  · obtain ⟨b, hb, -, hpz⟩ := mem_grantOf.mp hgr
    cases hpz
    exact h.store_kgrant hb hz hv
  · obtain ⟨b, hb, -, hpz⟩ := mem_grantOf.mp hgr
    cases hpz
    exact h.store_vgrant hb hz hv

end Kfs
